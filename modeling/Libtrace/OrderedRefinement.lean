import Libtrace.OrderedMerge

/-! The deque operations, `peek_queue`, `next_message` and the look at one queue in the first scan
take steps of the merge. -/

namespace Libtrace.OrderedRefinement
open Exec CombinerOrdered OrderedMerge Function

variable {n : Nat} {w : World n} {i : Fin n} {E : Fault → Prop} {r : Result} {q : List Result}
  {parallel : Bool}

theorem dequeGetSize_spec {Q : Nat → World n → Prop} (h : Q (w.land.queues i).length w.land) :
    Spec (dequeGetSize i) w Q E := h

theorem dequePeekFront_spec {Q : Option Result → World n → Prop}
    (h : Q (w.land.queues i).head? w.land) : Spec (dequePeekFront i) w Q E := h

theorem dequePopFront_spec {Q : Result → World n → Prop} (head : w.land.queues i = r :: q)
    (h : Q r (w.land.pop i)) : Spec (dequePopFront i) w Q E := by
  refine spec_bind (spec_modify (spec_bind (spec_get ?_)))
  rw [head]
  exact spec_bind (spec_modify (spec_pure h))

def Grows {n : Nat} (i : Fin n) (w w' : World n) : Prop :=
  ∀ j, j ≠ i → ∃ ext, w'.queues j = w.queues j ++ ext

theorem grows_trans {a b c : World n} (hab : Grows i a b) (hbc : Grows i b c) : Grows i a c := by
  intro j hj
  obtain ⟨x, hx⟩ := hab j hj
  obtain ⟨y, hy⟩ := hbc j hj
  exact ⟨x ++ y, by rw [hy, hx, List.append_assoc]⟩

theorem grows_land (i : Fin n) (w : World n) : Grows i w w.land := by
  intro j _
  rw [land_eq]
  exact ⟨_, rfl⟩

theorem grows_pop (i : Fin n) (w : World n) : Grows i w (w.pop i) := by
  intro j hj
  exact ⟨[], by simp [World.pop, hj]⟩

def Peeked {n : Nat} (parallel : Bool) (w : World n) (i : Fin n) (r : Result) (w' : World n) :
    Option UInt64 → Prop
  | none => (Passes parallel w r ∧ w' = ((w.land.mark r).pop i).send i r) ∨
      (Stale w r ∧ w' = w.land.pop i)
  | some key => key = r.key ∧ ((r.isTick = false ∧ w' = w) ∨
      (r.type = .tickCount ∧ w.lastCountTick < r.key ∧ parallel = false ∧ w' = w.mark r))

theorem pass_spec (head : w.queues i = r :: q) (fresh : Passes parallel w r) :
    Spec (do let r ← dequePopFront i; sendMessage i r; return none) (w.mark r)
      (fun res w' => Peeked parallel w i r w' res) E := by
  obtain ⟨q', hq'⟩ := land_queues_cons head
  have hq : (w.mark r).land.queues i = r :: q' := by rw [mark_land]; simpa using hq'
  refine spec_bind (dequePopFront_spec hq ?_)
  rw [mark_land]
  exact spec_bind (spec_modify (spec_pure (.inl ⟨fresh, rfl⟩)))

theorem drop_spec (head : w.queues i = r :: q) (stale : Stale w r) :
    Spec (do let _ ← dequePopFront i; return none) w
      (fun res w' => Peeked parallel w i r w' res) E := by
  obtain ⟨q', hq'⟩ := land_queues_cons head
  exact spec_bind (dequePopFront_spec hq' (spec_pure (.inr ⟨stale, rfl⟩)))

theorem peekResult_spec (parallel : Bool) (head : w.queues i = r :: q) :
    Spec (peekResult parallel i r) w (fun res w' => Peeked parallel w i r w' res) E := by
  unfold peekResult
  by_cases hti : r.type = .tickInterval
  · rw [if_pos hti]
    refine spec_bind (spec_get ?_)
    by_cases hk : r.key > w.lastTsTick
    · rw [if_pos hk]
      refine spec_bind (spec_modify ?_)
      have hm : { w with lastTsTick := r.key } = w.mark r := by simp [World.mark, hti]
      rw [hm]
      exact pass_spec head (.inl ⟨hti, hk⟩)
    · rw [if_neg hk]
      exact drop_spec head (.inl ⟨hti, not_lt.mp hk⟩)
  rw [if_neg hti]
  by_cases htc : r.type = .tickCount
  · rw [if_pos htc]
    refine spec_bind (spec_get ?_)
    by_cases hk : r.key > w.lastCountTick
    · rw [if_pos hk]
      refine spec_bind (spec_modify ?_)
      have hm : { w with lastCountTick := r.key } = w.mark r := by simp [World.mark, hti]
      rw [hm]
      cases parallel with
      | true => exact pass_spec head (.inr ⟨htc, hk, rfl⟩)
      | false => exact spec_pure ⟨rfl, .inr ⟨htc, hk, rfl, rfl⟩⟩
    · rw [if_neg hk]
      exact drop_spec head (.inr ⟨htc, not_lt.mp hk⟩)
  · rw [if_neg htc]
    exact spec_pure ⟨rfl, .inl ⟨by simp [Result.isTick, hti, htc], rfl⟩⟩

theorem peeked_steps (final : Bool) {st : Fin n → Status} {w' : World n} (hopen : (st i).Open)
    (head : w.queues i = r :: q) (h : Peeked parallel w i r w' none) :
    Steps parallel final ⟨st, w⟩ ⟨update st i (st i).afterTick, w'⟩ ∧
      w.work = w'.work + 1 ∧ Grows i w w' := by
  obtain ⟨q', hq'⟩ := land_queues_cons head
  rcases h with ⟨fresh, rfl⟩ | ⟨stale, rfl⟩
  · refine ⟨.tail (.single (.land st w)) ?_, ?_, ?_⟩
    · exact .pass st w.land i r q' hopen hq' (by simpa [Passes] using fresh)
    · have hq : (w.land.mark r).queues i = r :: q' := by simpa using hq'
      simpa using pop_work hq
    · intro j hj
      obtain ⟨ext, he⟩ := grows_land i w j hj
      exact ⟨ext, by simpa [World.send, World.pop, hj] using he⟩
  · refine ⟨.tail (.single (.land st w)) ?_, by simpa using pop_work hq', ?_⟩
    · exact .drop st w.land i r q' hopen hq' (by simpa [Stale] using stale)
    · exact grows_trans (grows_land i w) (grows_pop i _)

def Advanced {n : Nat} (parallel final : Bool) (st : Fin n → Status) (w : World n) (m : Fin n)
    (key : UInt64) (w' : World n) : Prop :=
  Grows m w w' ∧ w'.work ≤ w.work ∧
    ((key = 0 ∧ Steps parallel final ⟨st, w⟩ ⟨update st m .dead, w'⟩) ∨
      (key ≠ 0 ∧ Steps parallel final ⟨st, w⟩ ⟨update st m .live, w'⟩ ∧
        ∃ r q, w'.queues m = r :: q ∧ r.key = key))

theorem nextMessage_spec (parallel final : Bool) (st : Fin n → Status) (m : Fin n)
    (hcur : st m = .current) (fuel : Nat) (w : World n) (hfuel : w.work < fuel) :
    Spec (nextMessage parallel m fuel) w (Advanced parallel final st w m) E := by
  induction fuel generalizing w with
  | zero => omega
  | succ fuel ih =>
    have hopen : (st m).Open := .inr hcur
    refine spec_bind (dequePeekFront_spec ?_)
    have hland : Steps parallel final ⟨st, w⟩ ⟨st, w.land⟩ := .single (.land st w)
    cases hq : w.land.queues m with
    | nil =>
      refine spec_pure ⟨grows_land m w, by simp, .inl ⟨rfl, ?_⟩⟩
      exact hland.tail (.empty st w.land m hopen hq)
    | cons r q =>
      refine spec_seq (peekResult_spec parallel hq) ?_
      rintro (_ | key) w' hpeek
      · -- a tick went: the queue stays current, and there is less to come
        obtain ⟨hsteps, hwork, hgrows⟩ := peeked_steps final hopen hq hpeek
        have hst : update st m (st m).afterTick = st := by
          have same : (st m).afterTick = st m := by rw [hcur]; rfl
          rw [same, update_eq_self]
        rw [hst] at hsteps
        rw [land_work] at hwork
        refine spec_mono (ih w' (by omega)) ?_ fun _ he => he
        rintro key w'' ⟨hg, hle, hcase⟩
        refine ⟨grows_trans (grows_trans (grows_land m w) hgrows) hg, by omega, ?_⟩
        rcases hcase with ⟨h0, hs⟩ | ⟨h0, hs, hhead⟩
        · exact .inl ⟨h0, hland.trans (hsteps.trans hs)⟩
        · exact .inr ⟨h0, hland.trans (hsteps.trans hs), hhead⟩
      · obtain ⟨rfl, ⟨hres, rfl⟩ | ⟨htick, hfresh, hpar, rfl⟩⟩ := hpeek
        · refine spec_pure ⟨grows_land m w, by simp, ?_⟩
          by_cases h0 : r.key = 0
          · exact .inl ⟨h0, hland.tail (.zero st w.land m r q hcur hq hres h0)⟩
          · exact .inr ⟨h0, hland.tail (.ready st w.land m r q hopen hq hres), r, q, hq, rfl⟩
        · have h0 : r.key ≠ 0 := fun h => by
            rw [h] at hfresh
            exact absurd hfresh (not_lt.mpr (zero_le_uint64 _))
          refine spec_pure ⟨?_, by simp, .inr ⟨h0, ?_, r, q, by simpa using hq, rfl⟩⟩
          · intro j hj
            simpa using grows_land m w j hj
          · exact hland.tail (.count st w.land m r q hopen hq htick hfresh hpar)

def Scanned {n : Nat} (parallel final : Bool) (st : Fin n → Status) (w : World n) (i : Fin n)
    (s s' : Scan n) (w' : World n) : Prop :=
  Grows i w w' ∧ w'.work ≤ w.work ∧
    ((s' = s.miss i ∧ Steps parallel final ⟨st, w⟩ ⟨update st i .dead, w'⟩) ∨
      (∃ r q, w'.queues i = r :: q ∧ s' = s.hit i r.key ∧
        Steps parallel final ⟨st, w⟩ ⟨update st i .live, w'⟩))

theorem scanQueue_spec (parallel final : Bool) {st : Fin n → Status} (hst : st i = .unseen)
    (s : Scan n) (w : World n) :
    Spec (scanQueue parallel s i) w (Scanned parallel final st w i s) E := by
  have hopen : (st i).Open := .inl hst
  have hland : Steps parallel final ⟨st, w⟩ ⟨st, w.land⟩ := .single (.land st w)
  refine spec_bind (dequeGetSize_spec ?_)
  cases hq : w.land.queues i with
  | nil =>
    refine spec_pure ⟨grows_land i w, by simp, .inl ⟨rfl, ?_⟩⟩
    exact hland.tail (.empty st w.land i hopen hq)
  | cons r q =>
    obtain ⟨q', hq'⟩ := land_queues_cons hq
    have hland₂ : Steps parallel final ⟨st, w⟩ ⟨st, w.land.land⟩ := hland.tail (.land st w.land)
    have hgrows : Grows i w w.land.land := grows_trans (grows_land i w) (grows_land i _)
    simp only [List.length_cons, ne_eq, Nat.add_eq_zero_iff, one_ne_zero, and_false,
      not_false_eq_true, if_true]
    refine spec_bind (spec_bind (dequePeekFront_spec ?_))
    rw [hq']
    refine spec_mono (peekResult_spec parallel hq') ?_ fun _ he => he
    rintro (_ | key) w' hpeek
    · obtain ⟨hsteps, hwork, hg⟩ := peeked_steps final hopen hq' hpeek
      rw [hst] at hsteps
      simp only [land_work] at hwork
      exact spec_pure ⟨grows_trans hgrows hg, by omega, .inl ⟨rfl, hland₂.trans hsteps⟩⟩
    · obtain ⟨rfl, ⟨hres, rfl⟩ | ⟨htick, hfresh, hpar, rfl⟩⟩ := hpeek
      · refine spec_pure ⟨hgrows, by simp, .inr ⟨r, q', hq', rfl, ?_⟩⟩
        exact hland₂.tail (.ready st _ i r q' hopen hq' hres)
      · refine spec_pure ⟨?_, by simp, .inr ⟨r, q', by simpa using hq', rfl, ?_⟩⟩
        · intro j hj
          simpa using hgrows j hj
        · exact hland₂.tail (.count st _ i r q' hopen hq' htick hfresh hpar)

end Libtrace.OrderedRefinement
