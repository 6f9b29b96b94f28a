import Libtrace.OrderedRuns

/-! The passes of `read_final` over queues that nothing is added to, in a parallel trace. The first
scan takes one tick off a queue and leaves the queue for the next pass, while `next_message` skips
ticks. So results are ordered by the ticks their stream starts with, and by key only within a
pass. -/

namespace Libtrace.OrderedRounds
open CombinerOrdered OrderedMerge OrderedDrain OrderedStall Function

def leadTicks (q : List Result) : Nat := (q.takeWhile Result.isTick).length

def delivered {n : Nat} (w : World n) : List (Fin n × Result) :=
  w.sent.filter fun p => !p.2.isTick

/-- Each thread's results have increasing positive keys, and no two threads share one. -/
structure Increasing {n : Nat} (streams : Fin n → List Result) : Prop where
  positive : ∀ i, ∀ r ∈ nonTicks (streams i), 1 ≤ r.key
  sorted : ∀ i, (nonTicks (streams i)).Pairwise fun a b => a.key < b.key
  apart : ∀ i j, i ≠ j → ∀ r ∈ nonTicks (streams i), ∀ x ∈ nonTicks (streams j), r.key ≠ x.key

def Separated {n : Nat} (streams : Fin n → List Result) : Prop :=
  ∀ i j, leadTicks (streams i) < leadTicks (streams j) →
    ∀ r ∈ nonTicks (streams i), ∀ x ∈ nonTicks (streams j), r.key < x.key

/-- Thread `j`, not the first, has a pass to itself with the one key `UINT64_MAX`. -/
def Alone {n : Nat} (streams : Fin n → List Result) (j : Fin n) : Prop :=
  j.val ≠ 0 ∧ (∃ r, nonTicks (streams j) = [r] ∧ r.key = uint64Max) ∧
    ∀ i, i ≠ j → nonTicks (streams i) ≠ [] → leadTicks (streams i) ≠ leadTicks (streams j)

def Before {n : Nat} (streams : Fin n → List Result) (p q : Fin n × Result) : Prop :=
  leadTicks (streams p.1) < leadTicks (streams q.1) ∨
    leadTicks (streams p.1) = leadTicks (streams q.1) ∧ p.2.key < q.2.key

variable {r : Result} {q : List Result} {n : Nat} {streams : Fin n → List Result} {w w' : World n}
  {i : Fin n} {k : Nat} {st : Fin n → Status}

theorem leadTicks_tick (h : r.isTick = true) (q : List Result) :
    leadTicks (r :: q) = leadTicks q + 1 := by
  simp [leadTicks, h]

theorem leadTicks_result (h : r.isTick = false) (q : List Result) : leadTicks (r :: q) = 0 := by
  simp [leadTicks, h]

theorem head_of_leadTicks (hne : nonTicks q ≠ []) (h0 : leadTicks q = 0) :
    ∃ r q', q = r :: q' ∧ r.isTick = false := by
  cases q with
  | nil => simp at hne
  | cons r q' =>
    refine ⟨r, q', rfl, Bool.eq_false_iff.mpr fun ht => ?_⟩
    simp [leadTicks_tick ht] at h0

theorem resultsOf_delivered (w : World n) (i : Fin n) :
    resultsOf i (delivered w) = nonTicks (resultsOf i w.sent) := by
  simp only [resultsOf, nonTicks, delivered, List.filterMap_filter, List.filter_filterMap]
  congr 1
  funext p
  by_cases hi : p.1 = i <;> by_cases ht : p.2.isTick = true <;> simp [hi, ht, Option.filter]

theorem delivered_send_tick (w : World n) (i : Fin n) (h : r.isTick = true) :
    delivered (w.send i r) = delivered w := by
  simp [delivered, World.send, h]

theorem delivered_send (w : World n) (i : Fin n) (h : r.isTick = false) :
    delivered (w.send i r) = delivered w ++ [(i, r)] := by
  simp [delivered, World.send, h]

structure Sifted {n : Nat} (streams : Fin n → List Result) (w : World n) : Prop where
  left : ∀ i, nonTicks (w.queues i) <:+ nonTicks (streams i)
  ordered : (delivered w).Pairwise (Before streams)
  below : ∀ p ∈ delivered w, ∀ j, ∀ x ∈ nonTicks (w.queues j), Before streams p (j, x)

theorem sifted_of_eq (h : Sifted streams w)
    (hq : ∀ i, nonTicks (w'.queues i) = nonTicks (w.queues i)) (hd : delivered w' = delivered w) :
    Sifted streams w' := by
  refine ⟨fun i => by rw [hq]; exact h.left i, by rw [hd]; exact h.ordered, ?_⟩
  intro p hp j x hx
  rw [hd] at hp
  rw [hq] at hx
  exact h.below p hp j x hx

theorem sifted_send (h : Sifted streams w) (head : w.queues i = r :: q) (result : r.isTick = false)
    (least : ∀ j, ∀ x ∈ nonTicks ((w.pop i).queues j), Before streams (i, r) (j, x)) :
    Sifted streams ((w.pop i).send i r) := by
  have hsent : delivered ((w.pop i).send i r) = delivered w ++ [(i, r)] :=
    delivered_send (w.pop i) i result
  have hsub : ∀ j, nonTicks ((w.pop i).queues j) <:+ nonTicks (w.queues j) := by
    intro j
    rw [pop_queues head]
    by_cases hj : j = i
    · rw [if_pos hj, hj, head, nonTicks_cons_result result]
      exact List.suffix_cons r _
    · rw [if_neg hj]
  refine ⟨fun j => (hsub j).trans (h.left j), ?_, ?_⟩
  · rw [hsent, List.pairwise_append]
    refine ⟨h.ordered, by simp, fun p hp p' hp' => ?_⟩
    rw [List.mem_singleton.mp hp']
    exact h.below p hp i r (by simp [head, nonTicks_cons_result result])
  · intro p hp j x hx
    rw [hsent] at hp
    rcases List.mem_append.mp hp with hp | hp
    · exact h.below p hp j x ((hsub j).subset hx)
    · rw [List.mem_singleton.mp hp]
      exact least j x hx

structure Round {n : Nat} (streams : Fin n → List Result) (k : Nat) (w : World n) : Prop where
  sifted : Sifted streams w
  lead : ∀ i, nonTicks (w.queues i) ≠ [] → leadTicks (w.queues i) + k = leadTicks (streams i)
  whole : ∀ i, k ≤ leadTicks (streams i) → nonTicks (w.queues i) = nonTicks (streams i)

structure Passing {n : Nat} (streams : Fin n → List Result) (k : Nat) (M : Merge n) : Prop where
  sifted : Sifted streams M.world
  arriving : M.world.arriving = []
  unseen : ∀ i, M.status i = .unseen → nonTicks (M.world.queues i) ≠ [] →
    leadTicks (M.world.queues i) + k = leadTicks (streams i)
  dead : ∀ i, M.status i = .dead → nonTicks (M.world.queues i) ≠ [] →
    leadTicks (M.world.queues i) + (k + 1) = leadTicks (streams i)
  turn : ∀ i, M.status i = .live ∨ M.status i = .current → leadTicks (streams i) = k
  head : ∀ i, M.status i = .live → ∃ r q, M.world.queues i = r :: q ∧ r.isTick = false
  whole : ∀ i, k < leadTicks (streams i) → nonTicks (M.world.queues i) = nonTicks (streams i)

theorem passing_tick (h : Passing streams k ⟨st, w⟩) (hopen : (st i).Open)
    (head : w.queues i = r :: q) (tick : r.isTick = true) (harr : w'.arriving = [])
    (hq : ∀ j, w'.queues j = if j = i then q else w.queues j) (hd : delivered w' = delivered w) :
    Passing streams k ⟨update st i (st i).afterTick, w'⟩ := by
  have hnon : ∀ j, nonTicks (w'.queues j) = nonTicks (w.queues j) := by
    intro j
    by_cases hj : j = i
    · rw [hq, if_pos hj, hj, head, nonTicks_cons_tick tick]
    · rw [hq, if_neg hj]
  have other : ∀ j, j ≠ i → update st i (st i).afterTick j = st j ∧
      w'.queues j = w.queues j := fun j hj => ⟨by simp [hj], by rw [hq, if_neg hj]⟩
  have hafter : st i = .unseen ∧ (st i).afterTick = .dead ∨
      st i = .current ∧ (st i).afterTick = .current := by
    rcases hopen with hst | hst <;> simp [hst, Status.afterTick]
  refine ⟨sifted_of_eq h.sifted hnon hd, harr, fun j hj hne => ?_, fun j hj hne => ?_,
    fun j hj => ?_, fun j hj => ?_, fun j hj => (hnon j).trans (h.whole j hj)⟩
  · have hji : j ≠ i := by
      rintro rfl
      rcases hafter with ⟨-, ha⟩ | ⟨-, ha⟩ <;> simp [ha] at hj
    rw [hnon] at hne
    simp only [(other j hji).1] at hj
    simp only [(other j hji).2]
    exact h.unseen j hj hne
  · rw [hnon] at hne
    by_cases hji : j = i
    · rw [hji] at hj hne ⊢
      rcases hafter with ⟨hun, -⟩ | ⟨-, ha⟩
      · have hlead := h.unseen i hun hne
        simp only [head, leadTicks_tick tick] at hlead
        simp only [hq, if_true]
        omega
      · simp [ha] at hj
    · simp only [(other j hji).1] at hj
      simp only [(other j hji).2]
      exact h.dead j hj hne
  · by_cases hji : j = i
    · rw [hji] at hj ⊢
      rcases hafter with ⟨-, ha⟩ | ⟨hcur, -⟩
      · simp [ha] at hj
      · exact h.turn i (.inr hcur)
    · simp only [(other j hji).1] at hj
      exact h.turn j hj
  · have hji : j ≠ i := by
      rintro rfl
      rcases hafter with ⟨-, ha⟩ | ⟨-, ha⟩ <;> simp [ha] at hj
    simp only [(other j hji).1] at hj
    simp only [(other j hji).2]
    exact h.head j hj

theorem send_before (hinc : Increasing streams) (h : Passing streams k ⟨st, w⟩)
    (live : st i = .live) (head : w.queues i = r :: q) (result : r.isTick = false)
    (closed : ∀ j, ¬ (st j).Open)
    (least : ∀ j x xs, st j = .live → w.queues j = x :: xs → r.key ≤ x.key) (j : Fin n) :
    ∀ x ∈ nonTicks ((w.pop i).queues j), Before streams (i, r) (j, x) := by
  intro x hx
  have hturn : leadTicks (streams i) = k := h.turn i (.inl live)
  have hr : r ∈ nonTicks (streams i) :=
    (h.sifted.left i).subset (by simp [head, nonTicks_cons_result result])
  rw [pop_queues head] at hx
  by_cases hj : j = i
  · -- a later result of the same thread
    rw [if_pos hj] at hx
    have hpair := (hinc.sorted i).sublist (h.sifted.left i).sublist
    simp only [head, nonTicks_cons_result result] at hpair
    exact .inr ⟨by rw [hj], List.rel_of_pairwise_cons hpair hx⟩
  rw [if_neg hj] at hx
  have hxs : x ∈ nonTicks (streams j) := (h.sifted.left j).subset hx
  have hstatus : st j = .live ∨ st j = .dead := by
    cases hs : st j <;> simp_all [Status.Open]
  rcases hstatus with hl | hd
  · obtain ⟨y, ys, hy, hyres⟩ := h.head j hl
    have hle : r.key ≤ x.key := by
      refine (least j y ys hl hy).trans ?_
      have hpair := (hinc.sorted j).sublist (h.sifted.left j).sublist
      simp only at hy
      simp only [hy, nonTicks_cons_result hyres] at hpair hx
      rcases List.mem_cons.mp hx with rfl | hx
      · exact le_refl _
      · exact (List.rel_of_pairwise_cons hpair hx).le
    refine .inr ⟨hturn.trans (h.turn j (.inl hl)).symm, lt_of_le_of_ne hle ?_⟩
    exact hinc.apart i j (Ne.symm hj) r hr x hxs
  · have hlead := h.dead j hd (List.ne_nil_of_mem hx)
    exact .inl (by simp only [hturn]; omega)

theorem passing_relabel {x : Status} (h : Passing streams k ⟨st, w⟩)
    (hx : x = .dead ∧ w.queues i = [] ∨
      x = .live ∧ leadTicks (streams i) = k ∧ ∃ r q, w.queues i = r :: q ∧ r.isTick = false) :
    Passing streams k ⟨update st i x, w⟩ := by
  refine ⟨h.sifted, h.arriving, fun j hj hne => ?_, fun j hj hne => ?_, fun j hj => ?_,
    fun j hj => ?_, h.whole⟩ <;> by_cases hji : j = i
  · rcases hx with ⟨rfl, -⟩ | ⟨rfl, -⟩ <;> simp [hji] at hj
  · exact h.unseen j (by simpa [hji] using hj) hne
  · rcases hx with ⟨-, hnil⟩ | ⟨rfl, -⟩
    · simp [hji, hnil] at hne
    · simp [hji] at hj
  · exact h.dead j (by simpa [hji] using hj) hne
  · rcases hx with ⟨rfl, -⟩ | ⟨-, hk, -⟩
    · simp [hji] at hj
    · rw [hji]
      exact hk
  · exact h.turn j (by simpa [hji] using hj)
  · rcases hx with ⟨rfl, -⟩ | ⟨-, -, hhead⟩
    · simp [hji] at hj
    · rw [hji]
      exact hhead
  · exact h.head j (by simpa [hji] using hj)

theorem passing_send (hinc : Increasing streams) (h : Passing streams k ⟨st, w⟩)
    (live : st i = .live) (head : w.queues i = r :: q) (closed : ∀ j, ¬ (st j).Open)
    (least : ∀ j x xs, st j = .live → w.queues j = x :: xs → r.key ≤ x.key)
    (arriving : ((w.pop i).send i r).arriving = []) :
    Passing streams k ⟨update st i .current, (w.pop i).send i r⟩ := by
  obtain ⟨r', q', hq', result⟩ := h.head i live
  simp only [head, List.cons.injEq] at hq'
  rw [← hq'.1] at result
  have hsub : ∀ j, j ≠ i → ((w.pop i).send i r).queues j = w.queues j := fun j hj => by
    simp [World.send, World.pop, hj]
  refine ⟨sifted_send h.sifted head result
    (send_before hinc h live head result closed least), arriving, fun j hj hne => ?_,
    fun j hj hne => ?_, fun j hj => ?_, fun j hj => ?_, fun j hj => ?_⟩ <;> by_cases hji : j = i
  · simp [hji] at hj
  · simp only [hsub j hji] at hne ⊢
    exact h.unseen j (by simpa [hji] using hj) hne
  · simp [hji] at hj
  · simp only [hsub j hji] at hne ⊢
    exact h.dead j (by simpa [hji] using hj) hne
  · rw [hji]
    exact h.turn i (.inl live)
  · exact h.turn j (by simpa [hji] using hj)
  · simp [hji] at hj
  · simp only [hsub j hji]
    exact h.head j (by simpa [hji] using hj)
  · have hturn := h.turn i (.inl live)
    rw [hji] at hj
    omega
  · simp only [hsub j hji]
    exact h.whole j hj

theorem step_passing {A B : Merge n} (hinc : Increasing streams) (hs : Step true true A B)
    (h : Passing streams k A) : Passing streams k B := by
  have arriving := step_arriving hs h.arriving
  cases hs with
  | land st w => rwa [land_arriving_nil h.arriving]
  | empty st w i _ head => exact passing_relabel h (.inl ⟨rfl, head⟩)
  | pass st w i r q hopen head fresh =>
    refine passing_tick h hopen head fresh.isTick arriving (fun j => ?_) ?_
    · exact pop_queues (w := w.mark r) (by simpa using head) j |>.trans (by simp)
    · rw [delivered_send_tick _ i fresh.isTick]
      simp [delivered, World.pop]
  | drop st w i r q hopen head stale =>
    exact passing_tick h hopen head stale.isTick arriving (pop_queues head) rfl
  | zero st w i r q _ head result zero =>
    have hmem : r ∈ nonTicks (streams i) :=
      (h.sifted.left i).subset (by simp [head, nonTicks_cons_result result])
    have hpos := hinc.positive i r hmem
    rw [zero] at hpos
    exact absurd hpos (by decide)
  | ready st w i r q hopen head result =>
    refine passing_relabel h (.inr ⟨rfl, ?_, r, q, head, result⟩)
    rcases hopen with hun | hcur
    · have hlead := h.unseen i hun (by simp [head, nonTicks_cons_result result])
      simp only [head, leadTicks_result result] at hlead
      omega
    · exact h.turn i (.inr hcur)
  | count st w i r q _ _ _ _ single => exact absurd single (by simp)
  | send st w i r q live head closed least =>
    exact passing_send hinc h live head closed least arriving

theorem round_pass {s : Scan n} (hinc : Increasing streams) (h : Round streams k w)
    (ha : w.arriving = []) (ret : Returned true true w s st w') : Round streams (k + 1) w' := by
  have start : Passing streams k (Merge.start w) :=
    ⟨h.sifted, ha, fun i _ => h.lead i, by simp [Merge.start], by simp [Merge.start],
      by simp [Merge.start], fun i hi => h.whole i hi.le⟩
  have pass := steps_invariant (Passing streams k) ret.steps start
    fun _ _ hs => step_passing hinc hs
  exact ⟨pass.sifted, fun i => pass.dead i (ret.dead i), fun i hi => pass.whole i hi⟩

theorem waits_iff (h : Round streams k w) (i : Fin n) :
    Waits true w i ↔ nonTicks (streams i) ≠ [] ∧ leadTicks (streams i) = k := by
  constructor
  · rintro ⟨r, q, hq, hres | ⟨-, hpar, -⟩⟩
    · have hne : nonTicks (w.queues i) ≠ [] := by simp [hq, nonTicks_cons_result hres]
      have hlead := h.lead i hne
      rw [hq, leadTicks_result hres, Nat.zero_add] at hlead
      exact ⟨by rwa [← h.whole i hlead.le], hlead.symm⟩
    · exact absurd hpar (by simp)
  · rintro ⟨hne, hk⟩
    rw [← h.whole i hk.ge] at hne
    have hlead := h.lead i hne
    obtain ⟨r, q, hq, hres⟩ := head_of_leadTicks hne (by omega)
    exact ⟨r, q, hq, .inl hres⟩

theorem round_stuck (hinc : Increasing streams) (h : Round streams k w) :
    Stuck true w ↔ ∃ j, Alone streams j ∧ leadTicks (streams j) = k := by
  have inStream : ∀ i r q, Waits true w i → w.queues i = r :: q →
      nonTicks (streams i) = r :: nonTicks q := by
    intro i r q hw hq
    rw [← h.whole i ((waits_iff h i).mp hw).2.ge]
    obtain ⟨r', q', hq', hres | ⟨-, hpar, -⟩⟩ := hw
    · rw [hq, List.cons.injEq] at hq'
      rw [hq, nonTicks_cons_result (hq'.1 ▸ hres)]
    · exact absurd hpar (by simp)
  constructor
  · rintro ⟨⟨j, hj⟩, hall⟩
    obtain ⟨h0, r, q, hq, hmax⟩ := hall j hj
    have hstream := inStream j r q hj hq
    have hk := ((waits_iff h j).mp hj).2
    refine ⟨j, ⟨h0, ⟨r, ?_, hmax⟩, fun i hij hne hlead => ?_⟩, hk⟩
    · have hpair := hinc.sorted j
      rw [hstream] at hpair ⊢
      have hnil : nonTicks q = [] := by
        refine List.eq_nil_iff_forall_not_mem.mpr fun x hx => ?_
        have hlt := List.rel_of_pairwise_cons hpair hx
        rw [hmax] at hlt
        exact absurd hlt (not_lt.mpr (le_uint64Max _))
      rw [hnil]
    · have hwi := (waits_iff h i).mpr ⟨hne, hlead.trans hk⟩
      obtain ⟨-, x, xs, hx, hxmax⟩ := hall i hwi
      refine hinc.apart i j hij x ?_ r ?_ (hxmax.trans hmax.symm)
      · simp [inStream i x xs hwi hx]
      · simp [hstream]
  · rintro ⟨j, ⟨h0, ⟨r, hr, hmax⟩, halone⟩, hk⟩
    have hwj := (waits_iff h j).mpr ⟨by simp [hr], hk⟩
    refine ⟨⟨j, hwj⟩, fun i hi => ?_⟩
    obtain ⟨hne, hki⟩ := (waits_iff h i).mp hi
    have hij : i = j := by_contra fun hij => halone i hij hne (hki.trans hk.symm)
    subst hij
    obtain ⟨x, xs, hx, -⟩ := id hi
    have hsame := inStream i x xs hi hx
    rw [hr, List.cons.injEq] at hsame
    exact ⟨h0, x, xs, hx, hsame.1 ▸ hmax⟩

end Libtrace.OrderedRounds
