import Libtrace.OrderedRuns

/-! Without ticks, and with each thread's keys nondecreasing, the ordered combiner is a merge. -/

namespace Libtrace.OrderedSorting
open Exec CombinerOrdered OrderedMerge OrderedRuns

def KeyLe (a b : Result) : Prop := a.key ≤ b.key

/-- What has been sent and what is pending on each queue fit together. -/
structure Merged {n : Nat} (pend : Fin n → List Result) (sent : List (Fin n × Result)) : Prop where
  plain : ∀ i, ∀ r ∈ pend i, r.isTick = false ∧ r.key ≠ 0 ∧ r.key < uint64Max
  sorted : ∀ i, (pend i).Pairwise KeyLe
  below : ∀ p ∈ sent, ∀ i, ∀ r ∈ pend i, p.2.key ≤ r.key
  ordered : (sent.map fun p => p.2.key).Pairwise (· ≤ ·)

variable {n : Nat} {i : Fin n} {r : Result} {w : World n} {st : Fin n → Status} {final : Bool}
  {rest : Fin n → List Result} {parallel : Bool}

theorem merged_send {pend pend' : Fin n → List Result} {sent : List (Fin n × Result)}
    (h : Merged pend sent) (head : pend i = r :: pend' i) (rest : ∀ j, j ≠ i → pend' j = pend j)
    (least : ∀ j, ∀ x ∈ pend j, r.key ≤ x.key) : Merged pend' (sent ++ [(i, r)]) := by
  have sub : ∀ j, pend' j <:+ pend j := by
    intro j
    by_cases hj : j = i
    · subst hj
      rw [head]
      exact List.suffix_cons r _
    · rw [rest j hj]
  refine ⟨fun j x hx => h.plain j x ((sub j).subset hx),
    fun j => (h.sorted j).sublist (sub j).sublist,
    ?_, ?_⟩
  · intro p hp j x hx
    rcases List.mem_append.mp hp with hp | hp
    · exact h.below p hp j x ((sub j).subset hx)
    · rw [List.mem_singleton.mp hp]
      exact least j x ((sub j).subset hx)
  · rw [List.map_append, List.pairwise_append]
    refine ⟨h.ordered, by simp, ?_⟩
    intro k hk k' hk'
    obtain ⟨p, hp, rfl⟩ := List.mem_map.mp hk
    simp only [List.map_cons, List.map_nil, List.mem_singleton] at hk'
    rw [hk']
    exact h.below p hp i r (by simp [head])

/-- `rest` is published after the call. In `read_final` a dead queue has nothing left. -/
structure Merging {n : Nat} (final : Bool) (rest : Fin n → List Result) (M : Merge n) : Prop where
  merged : Merged (fun i => M.world.toCome i ++ rest i) M.world.sent
  heads : LiveHeads M
  arriving : final = true → M.world.arriving = [] ∧ ∀ i, rest i = []
  dead : final = true → ∀ i, M.status i = .dead → M.world.queues i = []

theorem head_mem {q : List Result} (head : w.queues i = r :: q) (rest : List Result) :
    r ∈ w.toCome i ++ rest := by
  simp [World.toCome, head]

theorem send_least (h : Merging final rest ⟨st, w⟩) (closed : ∀ j, ¬ (st j).Open)
    (least : ∀ j x xs, st j = .live → w.queues j = x :: xs → r.key ≤ x.key)
    (all : final = true ∨ ∀ j, st j = .live) (j : Fin n) :
    ∀ x ∈ w.toCome j ++ rest j, r.key ≤ x.key := by
  intro x hx
  by_cases hj : st j = .live
  · obtain ⟨y, ys, hy⟩ := List.exists_cons_of_ne_nil (h.heads j hj)
    have hy : w.queues j = y :: ys := hy
    have hsorted := h.merged.sorted j
    simp only [World.toCome, hy, List.cons_append] at hsorted hx
    rcases List.mem_cons.mp hx with rfl | hx
    · exact least j x ys hj hy
    · exact (least j y ys hj hy).trans (List.rel_of_pairwise_cons hsorted hx)
  · have hf : final = true := all.resolve_right fun hall => hj (hall j)
    have hdead : st j = .dead := by
      cases hs : st j <;> simp_all [Status.Open]
    have hempty : w.queues j = [] := h.dead hf j hdead
    obtain ⟨harr, hrest⟩ := h.arriving hf
    simp only at harr
    simp [World.toCome, hempty, harr, hrest j] at hx

theorem step_merging {A B : Merge n} (hs : Step parallel final A B) (h : Merging final rest A) :
    Merging final rest B := by
  have heads := step_liveHeads hs h.heads
  have arriving : final = true → B.world.arriving = [] ∧ ∀ i, rest i = [] := fun hf =>
    ⟨step_arriving hs (h.arriving hf).1, (h.arriving hf).2⟩
  cases hs with
  | land st w =>
    refine ⟨by simpa using h.merged, heads, arriving, fun hf i hi => ?_⟩
    have harr : w.arriving = [] := (h.arriving hf).1
    simp only [land_arriving_nil harr]
    exact h.dead hf i hi
  | empty st w i _ head =>
    refine ⟨h.merged, heads, arriving, fun hf j hj => ?_⟩
    by_cases hji : j = i
    · rw [hji]
      exact head
    · exact h.dead hf j (by simpa [hji] using hj)
  | pass st w i r q _ head fresh =>
    have := (h.merged.plain i r (head_mem head _)).1
    simp [fresh.isTick] at this
  | drop st w i r q _ head stale =>
    have := (h.merged.plain i r (head_mem head _)).1
    simp [stale.isTick] at this
  | zero st w i r q _ head _ zero =>
    exact absurd zero (h.merged.plain i r (head_mem head _)).2.1
  | ready st w i r q _ head =>
    refine ⟨h.merged, heads, arriving, fun hf j hj => ?_⟩
    by_cases hji : j = i
    · simp [hji] at hj
    · exact h.dead hf j (by simpa [hji] using hj)
  | count st w i r q _ head tick =>
    have := (h.merged.plain i r (head_mem head _)).1
    simp [Result.isTick, tick] at this
  | send st w i r q _ head closed least all =>
    refine ⟨?_, heads, arriving, fun hf j hj => ?_⟩
    · refine merged_send h.merged ?_ ?_ fun j => send_least h closed least all j
      · simp [pop_toCome head]
      · intro j hj
        simp [pop_toCome_ne w hj]
    · have hji : j ≠ i := fun e => by simp [e] at hj
      simp only [Function.update_of_ne hji] at hj
      simpa [World.send, World.pop, hji] using h.dead hf j hj

theorem steps_merged {w' : World n} (hs : Steps parallel final (Merge.start w) ⟨st, w'⟩)
    (h : Merged (fun i => w.toCome i ++ rest i) w.sent)
    (hfinal : final = true → w.arriving = [] ∧ ∀ i, rest i = []) :
    Merged (fun i => w'.toCome i ++ rest i) w'.sent := by
  have start : Merging final rest (Merge.start w) :=
    ⟨h, by simp [LiveHeads, Merge.start], hfinal, by simp [Merge.start]⟩
  exact (steps_invariant (Merging final rest) hs start fun _ _ => step_merging).merged

theorem run_sorts {n : Nat} (hn : 0 < n) (parallel : Bool) (calls : List (Call n))
    (hplain : ∀ p ∈ calls.flatMap Call.results, p.2.isTick = false)
    (hkeys : ∀ p ∈ calls.flatMap Call.results, 1 ≤ p.2.key ∧ p.2.key < uint64Max)
    (hsorted : ∀ i, (streamOf calls i).Pairwise fun a b => a.key ≤ b.key) :
    ∃ w, run parallel calls (initCombiner n) = .ok ((), w) ∧
      (w.sent.map fun p => p.2.key).Pairwise (· ≤ ·) := by
  let K := fun (cs : List (Call n)) (w : World n) => Merged (pending cs w) w.sent
  have hinit : K calls (initCombiner n) := by
    refine ⟨fun i r hr => ?_, fun i => ?_, by simp [initCombiner], by simp [initCombiner]⟩
    · rw [pending_init] at hr
      have hmem := mem_streamOf.mp hr
      obtain ⟨hpos, hmax⟩ := hkeys _ hmem
      refine ⟨hplain _ hmem, fun h0 => ?_, hmax⟩
      rw [h0] at hpos
      exact absurd hpos (by decide)
    · rw [pending_init]
      exact hsorted i
  have hcalls := runCalls_spec hn parallel (E := fun _ => False) K
    (fun p cs w ha h => by
      have hsent : (publish w p).sent = w.sent := rfl
      simpa only [K, pending_publish ha p cs, hsent] using h)
    (fun arriving cs w s st w' ha h _ ret => by
      have hstart : K cs { w with arriving := arriving } := by
        simpa only [K, pending_read ha arriving cs] using h
      have hend : K cs w' := steps_merged ret.steps hstart (by simp)
      have hsent : w'.landAll.sent = w'.sent := by rw [landAll_eq]
      simpa only [K, pending_landAll, hsent] using hend)
    calls (initCombiner n) rfl hinit
  have hfinal : ∀ w, w.arriving = [] ∧ K [] w →
      Spec (readFinal parallel) w (fun _ w' => K [] w' ∧ w'.arriving = [] ∧
        ∀ i, w'.queues i = []) fun _ => False := by
    rintro w ⟨ha, h⟩
    refine readFinal_spec hn parallel (K []) ?_ ?_ w ha h
    · intro w s st w' h ha _ _ ret
      exact steps_merged ret.steps h fun _ => ⟨ha, fun _ => rfl⟩
    · intro w h _
      refine not_stuck_of_bounded fun i r hr => ?_
      exact (h.plain i r (by rw [pending_nil]; exact hr)).2.2
  obtain ⟨⟨⟩, w, hrun, hmerged, -, -⟩ := spec_total (spec_seq hcalls fun _ => hfinal)
  exact ⟨w, hrun, hmerged.ordered⟩

theorem run_sorts_two :
    ∃ w, run true [.publish (1, ⟨3, 0, .packet⟩), .read [[], [(0, ⟨2, 1, .packet⟩)]],
        .publish (0, ⟨4, 2, .user 1000⟩), .publish (1, ⟨3, 3, .packet⟩)] (initCombiner 2) =
          .ok ((), w) ∧
      (w.sent.map fun p => p.2.key).Pairwise (· ≤ ·) :=
  run_sorts (by decide) true _ (by decide) (by decide) (by decide)

end Libtrace.OrderedSorting
