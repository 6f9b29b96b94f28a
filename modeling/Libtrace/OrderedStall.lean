import Libtrace.OrderedDrain

/-! When `read_internal` runs into `queues[-1]`: while nothing is published, `read_final` faults
exactly from a `Stuck` state. -/

namespace Libtrace.OrderedStall
open Exec CombinerOrdered OrderedRefinement OrderedScan OrderedDrain

/-- The first scan from `w` makes queue `i` live: its head is a result, or, if the trace is not
parallel, a count tick above the mark that earlier queues leave. -/
def Waits {n : Nat} (parallel : Bool) (w : World n) (i : Fin n) : Prop :=
  ∃ r q, w.queues i = r :: q ∧ (r.isTick = false ∨ (r.type = .tickCount ∧ parallel = false ∧
    w.lastCountTick < r.key ∧
      ∀ j, j < i → ∀ x xs, w.queues j = x :: xs → x.type = .tickCount → x.key < r.key))

/-- Something waits, but all of it with key `UINT64_MAX` and none of it on queue 0. -/
def Stuck {n : Nat} (parallel : Bool) (w : World n) : Prop :=
  (∃ i, Waits parallel w i) ∧
    ∀ i, Waits parallel w i → i.val ≠ 0 ∧ ∃ r q, w.queues i = r :: q ∧ r.key = uint64Max

variable {n : Nat} {i : Fin n} {parallel : Bool} {w w' : World n} {r : Result} {res : Option UInt64}
  {s : Scan n} {E : Fault → Prop}

theorem finRange_before {done rest : List (Fin n)} (h : List.finRange n = done ++ i :: rest)
    (j : Fin n) : j ∈ done ↔ j < i := by
  have hlt := List.pairwise_lt_finRange n
  rw [h, List.pairwise_append, List.pairwise_cons] at hlt
  obtain ⟨-, ⟨hrest, -⟩, hdone⟩ := hlt
  constructor
  · intro hj
    exact hdone j hj i List.mem_cons_self
  · intro hj
    have hmem : j ∈ done ++ i :: rest := h ▸ List.mem_finRange j
    rcases List.mem_append.mp hmem with hd | hr
    · exact hd
    · rcases List.mem_cons.mp hr with rfl | hr
      · exact absurd hj (lt_irrefl _)
      · exact absurd (hrest j hr) hj.asymm

structure Surveyed {n : Nat} (parallel : Bool) (w₀ : World n) (done : List (Fin n)) (s : Scan n)
    (w : World n) : Prop where
  arriving : w.arriving = []
  ahead : ∀ j, j ∉ done → w.queues j = w₀.queues j
  mark : parallel = false → ∀ k, w.lastCountTick < k ↔ w₀.lastCountTick < k ∧
    ∀ j ∈ done, ∀ x xs, w₀.queues j = x :: xs → x.type = .tickCount → x.key < k
  live : ∀ j ∈ done, s.live j = true ↔ Waits parallel w₀ j
  key : ∀ j ∈ done, s.live j = true → ∃ r q, w₀.queues j = r :: q ∧ r.key = s.key j

section

variable (h : Peeked parallel w i r w' res)
include h

theorem peeked_mark (k : UInt64) :
    w'.lastCountTick < k ↔ w.lastCountTick < k ∧ (r.type = .tickCount → r.key < k) := by
  have notCount : r.isTick = false → r.type ≠ .tickCount := by
    intro ht hc
    simp [Result.isTick, hc] at ht
  cases res with
  | none =>
    rcases h with ⟨⟨ht, -⟩ | ⟨ht, hlt, -⟩, rfl⟩ | ⟨⟨ht, -⟩ | ⟨ht, hle⟩, rfl⟩
    · simp [World.send, World.pop, World.mark, ht]
    · simpa [World.send, World.pop, World.mark, ht] using hlt.trans
    · simp [World.pop, ht]
    · simpa [World.pop, ht] using hle.trans_lt
  | some key =>
    obtain ⟨-, ⟨ht, rfl⟩ | ⟨ht, hlt, -, rfl⟩⟩ := h
    · simp [notCount ht]
    · simpa [World.mark, ht] using hlt.trans

theorem peeked_still (ha : w.arriving = []) :
    w'.arriving = [] ∧ ∀ j, j ≠ i → w'.queues j = w.queues j := by
  cases res with
  | none =>
    rcases h with ⟨-, rfl⟩ | ⟨-, rfl⟩
    · rw [land_arriving_nil ha]
      exact ⟨by simpa [World.send, World.pop] using ha,
        fun j hj => by simp [World.send, World.pop, hj]⟩
    · rw [land_arriving_nil ha]
      exact ⟨ha, fun j hj => by simp [World.pop, hj]⟩
  | some key =>
    obtain ⟨-, ⟨-, rfl⟩ | ⟨-, -, -, rfl⟩⟩ := h
    · exact ⟨ha, fun _ _ => rfl⟩
    · exact ⟨by simpa using ha, fun _ _ => by simp⟩

theorem peeked_live :
    res = some r.key ∧ (r.isTick = false ∨
        (r.type = .tickCount ∧ parallel = false ∧ w.lastCountTick < r.key)) ∨
      res = none ∧ r.isTick = true ∧
        (r.type = .tickCount → parallel = false → r.key ≤ w.lastCountTick) := by
  cases res with
  | none =>
    right
    rcases h with ⟨hp, -⟩ | ⟨hs, -⟩
    · refine ⟨rfl, hp.isTick, fun ht hpar => ?_⟩
      rcases hp with ⟨hi, -⟩ | ⟨-, -, hp⟩
      · simp [ht] at hi
      · simp [hpar] at hp
    · refine ⟨rfl, hs.isTick, fun ht _ => ?_⟩
      rcases hs with ⟨hi, -⟩ | ⟨-, hle⟩
      · simp [ht] at hi
      · exact hle
  | some key =>
    left
    obtain ⟨rfl, ⟨ht, -⟩ | ⟨ht, hlt, hpar, -⟩⟩ := h
    · exact ⟨rfl, .inl ht⟩
    · exact ⟨rfl, .inr ⟨ht, hpar, hlt⟩⟩

end

section

variable {n : Nat} {parallel : Bool} {w₀ w w' : World n} {s : Scan n} {done : List (Fin n)}
  {i : Fin n}

variable (h : Surveyed parallel w₀ done s w) (harr : w'.arriving = [])
  (hq : ∀ j, j ≠ i → w'.queues j = w.queues j)
  (hmark : ∀ k, w'.lastCountTick < k ↔ w.lastCountTick < k ∧
    ∀ x xs, w₀.queues i = x :: xs → x.type = .tickCount → x.key < k)
include h harr hq hmark

theorem surveyed_snoc {s' : Scan n}
    (hs' : ∀ j, j ≠ i → s'.live j = s.live j ∧ s'.key j = s.key j)
    (hlive : s'.live i = true ↔ Waits parallel w₀ i)
    (hkey : s'.live i = true → ∃ r q, w₀.queues i = r :: q ∧ r.key = s'.key i) :
    Surveyed parallel w₀ (done ++ [i]) s' w' := by
  refine ⟨harr, fun j hj => ?_, fun hpar k => ?_, fun j hj => ?_, fun j hj hl => ?_⟩
  · simp only [List.mem_append, List.mem_singleton, not_or] at hj
    rw [hq j hj.2, h.ahead j hj.1]
  · rw [hmark k, h.mark hpar k, and_assoc]
    simp only [List.mem_append, List.mem_singleton, or_imp, forall_and, forall_eq]
  · by_cases hji : j = i
    · rw [hji]
      exact hlive
    · rw [(hs' j hji).1]
      exact h.live j (by simpa [hji] using hj)
  · by_cases hji : j = i
    · rw [hji] at hl ⊢
      exact hkey hl
    · rw [(hs' j hji).1] at hl
      rw [(hs' j hji).2]
      exact h.key j (by simpa [hji] using hj) hl

theorem surveyed_miss (hnot : ¬ Waits parallel w₀ i) :
    Surveyed parallel w₀ (done ++ [i]) (s.miss i) w' := by
  refine surveyed_snoc h harr hq hmark (fun j hj => by simp [Scan.miss, hj]) ?_ ?_
  · simpa [Scan.miss] using hnot
  · simp [Scan.miss]

end

theorem scanQueue_surveyed (parallel : Bool) {w₀ : World n} {done rest : List (Fin n)}
    (hxs : List.finRange n = done ++ i :: rest) (h : Surveyed parallel w₀ done s w) :
    Spec (scanQueue parallel s i) w (Surveyed parallel w₀ (done ++ [i])) E := by
  have hi : i ∉ done := finRange_fresh hxs
  have hqueue : w.queues i = w₀.queues i := h.ahead i hi
  refine spec_bind (dequeGetSize_spec ?_)
  rw [land_arriving_nil h.arriving]
  cases hq : w.queues i with
  | nil =>
    refine spec_pure (surveyed_miss h h.arriving (fun _ _ => rfl) (fun k => ?_) ?_)
    · simp [← hqueue, hq]
    · rintro ⟨r, q, hr, -⟩
      rw [← hqueue, hq] at hr
      exact absurd hr (by simp)
  | cons r q =>
    have hr : w₀.queues i = r :: q := hqueue ▸ hq
    refine spec_bind (spec_bind (dequePeekFront_spec ?_))
    rw [land_arriving_nil h.arriving, hq]
    refine spec_mono (peekResult_spec parallel hq) ?_ fun _ he => he
    intro res w' hpeek
    obtain ⟨harr, hothers⟩ := peeked_still hpeek h.arriving
    have hmark : ∀ k, w'.lastCountTick < k ↔ w.lastCountTick < k ∧
        ∀ x xs, w₀.queues i = x :: xs → x.type = .tickCount → x.key < k := by
      intro k
      rw [peeked_mark hpeek k]
      simp [hr]
    rcases peeked_live hpeek with ⟨rfl, hwait⟩ | ⟨rfl, htick, hstale⟩
    · obtain ⟨flive, fkey, -, -⟩ := hit_fields s i r.key
      refine spec_pure (surveyed_snoc h harr hothers hmark (fun j hj => ?_) ?_
        fun _ => ?_)
      · simp [flive, fkey, hj]
      · refine iff_of_true (by simp [flive]) ⟨r, q, hr, hwait.imp_right ?_⟩
        rintro ⟨ht, hpar, hlt⟩
        obtain ⟨hlt₀, hall⟩ := (h.mark hpar r.key).mp hlt
        exact ⟨ht, hpar, hlt₀, fun j hj => hall j ((finRange_before hxs j).mpr hj)⟩
      · exact ⟨r, q, hr, by simp [fkey]⟩
    · refine spec_pure (surveyed_miss h harr hothers hmark ?_)
      rintro ⟨r', q', hr', hres | ⟨ht, hpar, hlt, hall⟩⟩
      · rw [hr, List.cons.injEq] at hr'
        rw [← hr'.1, htick] at hres
        exact Bool.noConfusion hres
      · rw [hr, List.cons.injEq] at hr'
        rw [← hr'.1] at ht hlt hall
        have hfresh := (h.mark hpar r.key).mpr
          ⟨hlt, fun j hj => hall j ((finRange_before hxs j).mp hj)⟩
        exact absurd hfresh (not_lt.mpr (hstale ht hpar))

theorem firstScan_surveyed (parallel : Bool) (ha : w.arriving = []) :
    Spec (firstScan parallel) w (Surveyed parallel w (List.finRange n)) E := by
  refine spec_foldlM (Surveyed parallel w) _ ?_ _ _
    ⟨ha, fun _ _ => rfl, by simp, by simp, by simp⟩
  intro done i rest s w' hxs h
  exact scanQueue_surveyed parallel hxs h

theorem firstScan_more (hn : 0 < n) {final : Bool} (hscan : firstScan parallel w = .ok (s, w'))
    (hnone : s.minQueue = none) : s.more final = true ↔ final = true ∧ ∃ j, s.live j = true := by
  obtain ⟨st, inv⟩ := spec_ok (firstScan_spec parallel final (E := fun _ => True) w) hscan
  have hloop : AtLoop s st w' :=
    ⟨inv.tracks, inv.min.toMinOk, fun j => inv.seen j (List.mem_finRange j)⟩
  have hinactive : s.allActive = false := by
    refine Bool.eq_false_iff.mpr fun ha => ?_
    have hlive : st ⟨0, hn⟩ = .live :=
      (hloop.live_or_dead ⟨0, hn⟩).resolve_right (inv.tracks.active ha _)
    exact ((inv.min.stall hnone).2 ⟨0, hn⟩ ((inv.tracks.live _).mpr hlive)).2 rfl
  have hcount : s.liveCount ≠ 0 ↔ ∃ j, s.live j = true := by
    rw [inv.tracks.count, Nat.cast_ne_zero, Finset.card_ne_zero]
    exact exists_congr fun j => by rw [inv.tracks.live j]; simp [liveSet]
  simp only [Scan.more, hinactive, Bool.false_or, Bool.and_eq_true, decide_eq_true_eq, hcount]
  exact and_comm

theorem firstScan_stuck (hn : 0 < n) (ha : w.arriving = [])
    (hscan : firstScan parallel w = .ok (s, w')) :
    (s.minQueue = none ∧ s.more true = true) ↔ Stuck parallel w := by
  have sur := spec_ok (firstScan_surveyed parallel (E := fun _ => True) ha) hscan
  obtain ⟨st, inv⟩ := spec_ok (firstScan_spec parallel true (E := fun _ => True) w) hscan
  have hlive : ∀ j, s.live j = true ↔ Waits parallel w j := fun j =>
    sur.live j (List.mem_finRange j)
  constructor
  · rintro ⟨hnone, hmore⟩
    obtain ⟨-, j, hj⟩ := (firstScan_more hn hscan hnone).mp hmore
    refine ⟨⟨j, (hlive j).mp hj⟩, fun i hi => ?_⟩
    have hli := (hlive i).mpr hi
    obtain ⟨hmax, h0⟩ := (inv.min.stall hnone).2 i hli
    obtain ⟨r, q, hq, hr⟩ := sur.key i (List.mem_finRange i) hli
    exact ⟨h0, r, q, hq, hr.trans hmax⟩
  · rintro ⟨⟨i, hi⟩, hall⟩
    have hnone : s.minQueue = none := by
      cases hm : s.minQueue with
      | none => rfl
      | some m =>
        obtain ⟨hl, hk⟩ := inv.min.named m hm
        obtain ⟨h0, r, q, hq, hmax⟩ := hall m ((hlive m).mp hl)
        obtain ⟨r', q', hq', hr'⟩ := sur.key m (List.mem_finRange m) hl
        rw [hq, List.cons.injEq] at hq'
        rcases inv.min.chosen m hm with hz | hlt
        · exact absurd hz h0
        · rw [hk, ← hr', ← hq'.1, hmax] at hlt
          exact absurd hlt (lt_irrefl _)
    exact ⟨hnone, (firstScan_more hn hscan hnone).mpr ⟨rfl, i, (hlive i).mpr hi⟩⟩

theorem finalPass_spec (hn : 0 < n) (parallel : Bool) (ha : w.arriving = []) :
    Spec (readInternal parallel true) w
      (fun s w' => ¬ Stuck parallel w ∧ ∃ st, Returned parallel true w s st w')
      (fun e => e = .queueIndex ∧ Stuck parallel w) := by
  refine spec_mono (readInternal_spec parallel true w fun s w' hscan hnone hmore => ?_) ?_
    fun _ he => he
  · exact ⟨rfl, (firstScan_stuck hn ha hscan).mp ⟨hnone, hmore⟩⟩
  · rintro s w' ⟨st, ret⟩
    refine ⟨fun hstuck => ?_, st, ret⟩
    obtain ⟨s₀, w₀, hscan, hgo⟩ := ret.scanned
    obtain ⟨hnone, hmore⟩ := (firstScan_stuck hn ha hscan).mpr hstuck
    rw [hgo hnone] at hmore
    exact Bool.noConfusion hmore

theorem readPass_spec (hn : 0 < n) (parallel : Bool) (w : World n) :
    Spec (readInternal parallel false) w
      (fun s w' => ∃ st, Returned parallel false w s st w') E :=
  readInternal_spec parallel false w fun _ _ hscan hnone hmore =>
    absurd ((firstScan_more hn hscan hnone).mp hmore).1 (by simp)

end Libtrace.OrderedStall
