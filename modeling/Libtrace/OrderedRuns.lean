import Libtrace.OrderedStall

/-! Whole runs of the ordered combiner. `read_final` returns because each pass over non-empty queues
takes something off them. -/

namespace Libtrace.OrderedRuns
open Exec CombinerOrdered OrderedMerge OrderedRefinement OrderedDrain OrderedStall

def pending {n : Nat} (cs : List (Call n)) (w : World n) (i : Fin n) : List Result :=
  w.toCome i ++ streamOf cs i

variable {n : Nat} {w : World n} {calls : List (Call n)} {E : Fault → Prop} {parallel : Bool}
  {cs : List (Call n)} {w' : World n}

theorem streamOf_cons (c : Call n) (cs : List (Call n)) (i : Fin n) :
    streamOf (c :: cs) i = resultsOf i c.results ++ streamOf cs i := by
  simp [streamOf]

@[simp] theorem pending_init {n : Nat} (cs : List (Call n)) :
    pending cs (initCombiner n) = streamOf cs := by
  funext i
  simp [pending, World.toCome, initCombiner]

@[simp] theorem pending_nil {n : Nat} (w : World n) : pending [] w = w.toCome := by
  funext i
  simp [pending, streamOf]

theorem pending_publish (ha : w.arriving = []) (p : Fin n × Result) (cs : List (Call n)) :
    pending cs (publish w p) = pending (.publish p :: cs) w := by
  funext i
  have harr : (publish w p).arriving = [] := ha
  simp [pending, streamOf_cons, Call.results, World.toCome, publish_queues, ha, harr]

theorem pending_read (ha : w.arriving = []) (arriving : List (List (Fin n × Result)))
    (cs : List (Call n)) :
    pending cs { w with arriving := arriving } = pending (.read arriving :: cs) w := by
  funext i
  simp [pending, streamOf_cons, Call.results, World.toCome, ha]

@[simp] theorem pending_landAll {n : Nat} (w : World n) (cs : List (Call n)) :
    pending cs w.landAll = pending cs w := by
  funext i
  simp [pending, landAll_eq, World.toCome]

theorem mem_streamOf {i : Fin n} {r : Result} :
    r ∈ streamOf calls i ↔ (i, r) ∈ calls.flatMap Call.results := mem_resultsOf

theorem countEmpty_spec (ha : w.arriving = []) :
    Spec countEmpty w
      (fun empty w' => w' = w ∧ (empty < n ↔ ∃ i, w.queues i ≠ [])) E := by
  have loop : Spec countEmpty w (fun empty w' => w' = w ∧
      empty = ((List.finRange n).filter fun i => (w.queues i).isEmpty).length) E := by
    refine spec_foldlM (fun done empty w' => w' = w ∧
      empty = (done.filter fun i => (w.queues i).isEmpty).length) _ ?_ _ _ ⟨rfl, rfl⟩
    rintro done i rest empty w' - ⟨hw, rfl⟩
    subst w'
    refine spec_bind (dequeGetSize_spec ?_)
    rw [land_arriving_nil ha]
    cases hq : w.queues i with
    | nil | cons r q => exact spec_pure ⟨rfl, by simp [hq]⟩
  refine spec_mono loop ?_ fun _ he => he
  rintro empty w' ⟨hw, rfl⟩
  refine ⟨hw, ?_⟩
  have hle := List.length_filter_le (fun i => (w.queues i).isEmpty) (List.finRange n)
  rw [List.length_finRange] at hle
  have hall : ((List.finRange n).filter fun i => (w.queues i).isEmpty).length = n ↔
      ∀ i, w.queues i = [] := by
    have h := List.length_filter_eq_length_iff (p := fun i => (w.queues i).isEmpty)
      (l := List.finRange n)
    rw [List.length_finRange] at h
    rw [h]
    simp
  constructor
  · intro hlt
    by_contra hnone
    have := hall.mpr fun i => by_contra fun hi => hnone ⟨i, hi⟩
    omega
  · rintro ⟨i, hi⟩
    rcases Nat.lt_or_ge ((List.finRange n).filter fun i => (w.queues i).isEmpty).length n with h | h
    · exact h
    · exact absurd (hall.mp (by omega) i) hi

section

variable (hn : 0 < n) (parallel : Bool) (K : World n → Prop)
  (pass : ∀ w s st w', K w → w.arriving = [] → ¬ Stuck parallel w →
    readInternal parallel true w = .ok (s, w') → Returned parallel true w s st w' → K w')
  (stall : ∀ w, K w → w.arriving = [] → Stuck parallel w → E .queueIndex)
include hn pass stall

theorem readFinalLoop_spec (fuel : Nat) (w : World n) (ha : w.arriving = []) (hK : K w)
    (hfuel : w.work < fuel) :
    Spec (readFinalLoop parallel fuel) w
      (fun _ w' => K w' ∧ w'.arriving = [] ∧ ∀ i, w'.queues i = []) E := by
  induction fuel generalizing w with
  | zero => omega
  | succ fuel ih =>
    have hpass := spec_mono (spec_self (finalPass_spec hn parallel ha)) (fun _ _ h => h)
      fun e (he : e = .queueIndex ∧ Stuck parallel w) => he.1 ▸ stall w hK ha he.2
    refine spec_seq hpass ?_
    rintro s w₁ ⟨heq, hgo, st, ret⟩
    have ha₁ : w₁.arriving = [] := steps_arriving ret.steps ha
    have hK₁ : K w₁ := pass w s st w₁ hK ha hgo heq ret
    refine spec_seq (countEmpty_spec ha₁) ?_
    rintro empty w' ⟨hw, hempty⟩
    subst w'
    by_cases hlt : empty < n
    · rw [if_pos hlt]
      obtain ⟨i, hi⟩ := hempty.mp hlt
      rcases steps_progress ret.steps ha ret.dead with hwork | hnil
      · exact ih w₁ ha₁ hK₁ (by simp only at hwork; omega)
      · exact absurd (hnil i) hi
    · rw [if_neg hlt]
      refine spec_pure ⟨hK₁, ha₁, fun i => by_contra fun hi => ?_⟩
      exact hlt (hempty.mpr ⟨i, hi⟩)

theorem readFinal_spec (w : World n) (ha : w.arriving = []) (hK : K w) :
    Spec (readFinal parallel) w
      (fun _ w' => K w' ∧ w'.arriving = [] ∧ ∀ i, w'.queues i = []) E :=
  spec_bind (spec_get
    (readFinalLoop_spec hn parallel K pass stall _ w ha hK (Nat.lt_succ_self _)))

end

theorem runCalls_spec (hn : 0 < n) (parallel : Bool)
    (K : List (Call n) → World n → Prop)
    (publishing : ∀ p cs w, w.arriving = [] → K (.publish p :: cs) w → K cs (publish w p))
    (reading : ∀ arriving cs w s st w', w.arriving = [] → K (.read arriving :: cs) w →
      read parallel arriving w = .ok (s, w'.landAll) →
      Returned parallel false { w with arriving := arriving } s st w' → K cs w'.landAll)
    (calls : List (Call n)) (w : World n) (ha : w.arriving = []) (hK : K calls w) :
    Spec (runCalls parallel calls) w (fun _ w' => w'.arriving = [] ∧ K [] w') E := by
  induction calls generalizing w with
  | nil => exact spec_pure ⟨ha, hK⟩
  | cons c cs ih =>
    cases c with
    | publish p =>
      refine spec_bind (spec_modify ?_)
      exact ih _ ha (publishing p cs w ha hK)
    | read arriving =>
      have hread : Spec (read parallel arriving) w (fun s w' => ∃ st v,
          w' = v.landAll ∧ Returned parallel false { w with arriving := arriving } s st v) E := by
        refine spec_bind (spec_modify ?_)
        refine spec_seq (readPass_spec hn parallel _) ?_
        rintro s v ⟨st, ret⟩
        exact spec_bind (spec_modify (spec_pure ⟨st, v, rfl, ret⟩))
      refine spec_bind (spec_seq (spec_self hread) ?_)
      rintro s _ ⟨heq, st, v, rfl, ret⟩
      exact spec_pure
        (ih _ (by rw [landAll_eq]) (reading arriving cs w s st v ha hK heq ret))

theorem not_stuck_of_bounded (hkeys : ∀ i, ∀ r ∈ w.toCome i, r.key < uint64Max) :
    ¬ Stuck parallel w := by
  rintro ⟨⟨i, hi⟩, hall⟩
  obtain ⟨-, r, q, hq, hr⟩ := hall i hi
  have hmem : r ∈ w.toCome i := by simp [World.toCome, hq]
  exact absurd hr (hkeys i r hmem).ne

structure Conserved {n : Nat} (calls cs : List (Call n)) (w : World n) : Prop where
  results : ∀ i, nonTicks (resultsOf i w.sent) ++ nonTicks (pending cs w i) =
    nonTicks (streamOf calls i)
  keys : ∀ i, ∀ r ∈ pending cs w i, r.key < uint64Max

theorem conserved_of_eq {cs' : List (Call n)} (h : Conserved calls cs w) (hsent : w'.sent = w.sent)
    (hp : pending cs' w' = pending cs w) : Conserved calls cs' w' := by
  refine ⟨fun i => ?_, fun i r hr => h.keys i r ?_⟩
  · rw [hsent, hp]
    exact h.results i
  · rwa [← hp]

theorem conserved_steps {final : Bool} {st : Fin n → Status} (h : Conserved calls cs w)
    (hs : Steps parallel final (Merge.start w) ⟨st, w'⟩) : Conserved calls cs w' := by
  refine ⟨fun i => ?_, fun i r hr => h.keys i r ?_⟩
  · have hacc := steps_account hs i
    have hres := h.results i
    simp only [account, Merge.start] at hacc
    simp only [pending, nonTicks_append] at hres ⊢
    rw [← List.append_assoc, hacc, List.append_assoc]
    exact hres
  · rcases List.mem_append.mp hr with hw | hcs
    · exact List.mem_append_left _ ((steps_toCome hs i).subset hw)
    · exact List.mem_append_right _ hcs

theorem runCalls_conserved (hn : 0 < n) (parallel : Bool)
    (hkeys : ∀ p ∈ calls.flatMap Call.results, p.2.key < uint64Max) :
    Spec (runCalls parallel calls) (initCombiner n)
      (fun _ w => w.arriving = [] ∧ Conserved calls [] w) E := by
  refine runCalls_spec hn parallel (Conserved calls)
    (fun p cs w ha h => conserved_of_eq h rfl (pending_publish ha p cs)) ?_ calls _ rfl
    ⟨fun i => ?_, fun i r hr => ?_⟩
  · intro arriving cs w s st w' ha h _ ret
    have hstart : Conserved calls cs { w with arriving := arriving } :=
      conserved_of_eq h rfl (pending_read ha arriving cs)
    exact conserved_of_eq (conserved_steps hstart ret.steps) (by rw [landAll_eq]) (by simp)
  · rw [pending_init]
    rfl
  · exact hkeys (i, r) (mem_streamOf.mp (by simpa using hr))

theorem readFinal_conserved (hn : 0 < n) (parallel : Bool) (ha : w.arriving = [])
    (h : Conserved calls [] w) :
    Spec (readFinal parallel) w (fun _ w' => Conserved calls [] w' ∧ w'.arriving = [] ∧
      ∀ i, w'.queues i = []) fun _ => False := by
  refine readFinal_spec hn parallel (Conserved calls []) ?_ ?_ w ha h
  · intro w s st w' h _ _ _ ret
    exact conserved_steps h ret.steps
  · intro w h _
    exact not_stuck_of_bounded (by simpa using h.keys)

/-- Whatever the interleaving, `read_final` returns with every queue empty, and the reporter has had
each thread's results, once and in order. -/
theorem run_delivers {n : Nat} (hn : 0 < n) (parallel : Bool) (calls : List (Call n))
    (hkeys : ∀ p ∈ calls.flatMap Call.results, p.2.key < uint64Max) :
    ∃ w, run parallel calls (initCombiner n) = .ok ((), w) ∧ (∀ i, w.queues i = []) ∧
      ∀ i, nonTicks (resultsOf i w.sent) = nonTicks (streamOf calls i) := by
  obtain ⟨⟨⟩, w, hrun, hcons, harr, hempty⟩ :=
    spec_total (spec_seq (runCalls_conserved hn parallel hkeys)
      fun _ w h => readFinal_conserved hn parallel h.1 h.2)
  refine ⟨w, hrun, hempty, fun i => ?_⟩
  simpa [World.toCome, hempty i, harr] using hcons.results i

theorem run_delivers_two :
    ∃ w, run false [.publish (0, ⟨5, 0, .tickCount⟩), .read [[(1, ⟨7, 1, .packet⟩)]],
        .publish (0, ⟨0, 2, .packet⟩)] (initCombiner 2) = .ok ((), w) ∧ (∀ i, w.queues i = []) ∧
      ∀ i, nonTicks (resultsOf i w.sent) = nonTicks (streamOf
        [.publish (0, ⟨5, 0, .tickCount⟩), .read [[(1, ⟨7, 1, .packet⟩)]],
          .publish (0, ⟨0, 2, .packet⟩)] i) :=
  run_delivers (by decide) false _ (by decide)

end Libtrace.OrderedRuns
