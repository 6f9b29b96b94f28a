import Libtrace.OrderedRefinement

/-! The first loop of `read_internal`: `min_queue` names a live queue of smallest key, or is still
`-1`. -/

namespace Libtrace.OrderedScan
open Exec CombinerOrdered OrderedMerge OrderedRefinement Function

def liveSet {n : Nat} (st : Fin n → Status) : Finset (Fin n) :=
  Finset.univ.filter fun j => st j = .live

variable {n : Nat} {s : Scan n} {st : Fin n → Status} {w w' : World n} {i : Fin n}

theorem liveSet_update_live (st : Fin n → Status) (i : Fin n) :
    liveSet (update st i .live) = insert i (liveSet st) := by
  ext j
  by_cases h : j = i <;> simp [liveSet, h]

theorem liveSet_update_dead (st : Fin n → Status) (i : Fin n) :
    liveSet (update st i .dead) = (liveSet st).erase i := by
  ext j
  by_cases h : j = i <;> simp [liveSet, h]

/-- `live[]` is the live queues, `key[]` their head keys. -/
structure Tracks {n : Nat} (s : Scan n) (st : Fin n → Status) (w : World n) : Prop where
  live : ∀ j, s.live j = true ↔ st j = .live
  key : ∀ j, st j = .live → ∃ r q, w.queues j = r :: q ∧ r.key = s.key j
  count : s.liveCount = (liveSet st).card
  active : s.allActive = true → ∀ j, st j ≠ .dead

theorem key_grows (h : Tracks s st w) (hg : Grows i w w') (j : Fin n) (hj : j ≠ i)
    (hl : st j = .live) : ∃ r q, w'.queues j = r :: q ∧ r.key = s.key j := by
  obtain ⟨r, q, hq, hk⟩ := h.key j hl
  obtain ⟨ext, he⟩ := hg j hj
  exact ⟨r, q ++ ext, by rw [he, hq, List.cons_append], hk⟩

theorem miss_tracks (h : Tracks s st w) (hg : Grows i w w') (hi : st i = .unseen) :
    Tracks (s.miss i) (update st i .dead) w' where
  live j := by
    by_cases hj : j = i
    · simp [Scan.miss, hj]
    · simpa [Scan.miss, hj] using h.live j
  key j hl := by
    by_cases hj : j = i
    · simp [hj] at hl
    · simp only [update_of_ne hj] at hl
      simpa [Scan.miss, hj] using key_grows h hg j hj hl
  count := by
    have hnot : i ∉ liveSet st := by simp [liveSet, hi]
    rw [liveSet_update_dead, Finset.erase_eq_of_notMem hnot]
    exact h.count
  active ha := by simp [Scan.miss] at ha

theorem hit_fields (s : Scan n) (i : Fin n) (k : UInt64) :
    (s.hit i k).live = update s.live i true ∧
    (s.hit i k).key = update s.key i k ∧
    (s.hit i k).liveCount = s.liveCount + 1 ∧ (s.hit i k).allActive = s.allActive := by
  dsimp only [Scan.hit]
  split_ifs <;> exact ⟨rfl, rfl, rfl, rfl⟩

theorem hit_tracks {r : Result} {q : List Result} (h : Tracks s st w) (hg : Grows i w w')
    (hi : st i = .unseen) (head : w'.queues i = r :: q) :
    Tracks (s.hit i r.key) (update st i .live) w' where
  live j := by
    rw [(hit_fields s i r.key).1]
    by_cases hj : j = i
    · simp [hj]
    · simpa [hj] using h.live j
  key j hl := by
    rw [(hit_fields s i r.key).2.1]
    by_cases hj : j = i
    · subst hj
      exact ⟨r, q, head, by simp⟩
    · simp only [update_of_ne hj] at hl ⊢
      exact key_grows h hg j hj hl
  count := by
    have hnot : i ∉ liveSet st := by simp [liveSet, hi]
    rw [liveSet_update_live, Finset.card_insert_of_notMem hnot, (hit_fields s i r.key).2.2.1,
      h.count]
    push_cast
    rfl
  active ha j := by
    rw [(hit_fields s i r.key).2.2.2] at ha
    by_cases hj : j = i
    · simp [hj]
    · simpa [hj] using h.active ha j

structure MinOk {n : Nat} (s : Scan n) : Prop where
  named : ∀ m, s.minQueue = some m → s.live m = true ∧ s.minKey = s.key m
  le : ∀ j, s.live j = true → s.minKey ≤ s.key j

/-- The first scan passes over a queue other than 0 whose head has the key `UINT64_MAX`, the initial
`min_key`. -/
structure FirstMin {n : Nat} (s : Scan n) : Prop extends MinOk s where
  chosen : ∀ m, s.minQueue = some m → m.val = 0 ∨ s.minKey < uint64Max
  stall : s.minQueue = none →
    s.minKey = uint64Max ∧ ∀ j, s.live j = true → s.key j = uint64Max ∧ j.val ≠ 0

theorem miss_min (h : FirstMin s) (hi : s.live i = false) : FirstMin (s.miss i) := by
  have keep : ∀ j, (s.miss i).live j = true → j ≠ i ∧ s.live j = true := by
    intro j hl
    by_cases hj : j = i
    · simp [Scan.miss, hj] at hl
    · exact ⟨hj, by simpa [Scan.miss, hj] using hl⟩
  refine ⟨⟨?_, ?_⟩, h.chosen, ?_⟩
  · intro m hm
    obtain ⟨hl, hk⟩ := h.named m hm
    have hne : m ≠ i := fun e => by rw [e, hi] at hl; exact Bool.noConfusion hl
    exact ⟨by simpa [Scan.miss, hne] using hl, by simpa [Scan.miss, hne] using hk⟩
  · intro j hl
    obtain ⟨hj, hl'⟩ := keep j hl
    simpa [Scan.miss, hj] using h.le j hl'
  · intro hm
    obtain ⟨hmax, hkeys⟩ := h.stall hm
    refine ⟨hmax, fun j hl => ?_⟩
    obtain ⟨hj, hl'⟩ := keep j hl
    simpa [Scan.miss, hj] using hkeys j hl'

theorem hit_min_taken {k : UInt64} (h : FirstMin s) (hzero : i.val = 0 → ∀ j, s.live j = false)
    (hc : i.val = 0 ∨ s.minKey > k) : FirstMin (s.hit i k) := by
  obtain ⟨hlive, hkey, -, -⟩ := hit_fields s i k
  have hmin : (s.hit i k).minQueue = some i ∧ (s.hit i k).minKey = k := by
    unfold Scan.hit
    simp [hc]
  refine ⟨⟨?_, ?_⟩, ?_, fun hm => by simp [hmin.1] at hm⟩
  · intro m hm
    rw [hmin.1, Option.some.injEq] at hm
    subst hm
    rw [hlive, hkey, hmin.2]
    simp
  · intro j hl
    rw [hlive] at hl
    rw [hkey, hmin.2]
    by_cases hj : j = i
    · simp [hj]
    · simp only [update_of_ne hj] at hl ⊢
      rcases hc with h0 | hlt
      · rw [hzero h0 j] at hl
        exact Bool.noConfusion hl
      · exact hlt.le.trans (h.le j hl)
  · intro m hm
    rw [hmin.1, Option.some.injEq] at hm
    subst hm
    rw [hmin.2]
    exact hc.imp_right fun hlt => hlt.trans_le (le_uint64Max _)

theorem hit_min_kept {k : UInt64} (h : FirstMin s) (hi : s.live i = false)
    (hc : ¬ (i.val = 0 ∨ s.minKey > k)) : FirstMin (s.hit i k) := by
  obtain ⟨hlive, hkey, -, -⟩ := hit_fields s i k
  have hmin : (s.hit i k).minQueue = s.minQueue ∧ (s.hit i k).minKey = s.minKey := by
    unfold Scan.hit
    simp [hc]
  obtain ⟨h0, hle⟩ := not_or.mp hc
  refine ⟨⟨?_, ?_⟩, ?_, ?_⟩
  · intro m hm
    rw [hmin.1] at hm
    obtain ⟨hl, hk⟩ := h.named m hm
    have hne : m ≠ i := fun e => by rw [e, hi] at hl; exact Bool.noConfusion hl
    rw [hlive, hkey, hmin.2]
    simpa [hne] using ⟨hl, hk⟩
  · intro j hl
    rw [hlive] at hl
    rw [hkey, hmin.2]
    by_cases hj : j = i
    · simpa [hj] using not_lt.mp hle
    · simp only [update_of_ne hj] at hl ⊢
      exact h.le j hl
  · intro m hm
    rw [hmin.1] at hm
    rw [hmin.2]
    exact h.chosen m hm
  · intro hm
    rw [hmin.1] at hm
    obtain ⟨hmax, hkeys⟩ := h.stall hm
    refine ⟨hmin.2.trans hmax, fun j hl => ?_⟩
    rw [hlive] at hl
    rw [hkey]
    by_cases hj : j = i
    · subst hj
      rw [hmax] at hle
      simpa using ⟨le_antisymm (le_uint64Max k) (not_lt.mp hle), h0⟩
    · simp only [update_of_ne hj] at hl ⊢
      exact hkeys j hl

theorem hit_min (k : UInt64) (h : FirstMin s) (hi : s.live i = false)
    (hzero : i.val = 0 → ∀ j, s.live j = false) : FirstMin (s.hit i k) := by
  by_cases hc : i.val = 0 ∨ s.minKey > k
  · exact hit_min_taken h hzero hc
  · exact hit_min_kept h hi hc

structure Scanning {n : Nat} (parallel final : Bool) (w₀ : World n) (done : List (Fin n))
    (s : Scan n) (st : Fin n → Status) (w : World n) : Prop where
  steps : Steps parallel final (Merge.start w₀) ⟨st, w⟩
  tracks : Tracks s st w
  min : FirstMin s
  seen : ∀ j ∈ done, ¬ (st j).Open
  unseen : ∀ j, j ∉ done → st j = .unseen
  work : w.work ≤ w₀.work

theorem scanning_start (parallel final : Bool) (w : World n) :
    Scanning parallel final w [] (Scan.start n) (fun _ => .unseen) w where
  steps := .refl
  tracks := ⟨by simp [Scan.start], by simp, by simp [Scan.start, liveSet], by simp⟩
  min := ⟨⟨by simp [Scan.start], by simp [Scan.start]⟩, by simp [Scan.start],
    fun _ => ⟨rfl, by simp [Scan.start]⟩⟩
  seen := by simp
  unseen := by simp
  work := le_refl _

theorem finRange_first {done rest : List (Fin n)} (h : List.finRange n = done ++ i :: rest)
    (hi : i.val = 0) : done = [] := by
  have hlen : i.val = done.length := by
    have hget : (List.finRange n)[done.length]? = some i := by rw [h]; simp
    obtain ⟨hlt, hval⟩ := List.getElem?_eq_some_iff.mp hget
    rw [← hval]
    simp
  exact List.length_eq_zero_iff.mp (by omega)

theorem finRange_fresh {done rest : List (Fin n)} (h : List.finRange n = done ++ i :: rest) :
    i ∉ done := by
  have hnodup := List.nodup_finRange n
  rw [h] at hnodup
  intro hi
  exact (List.nodup_append.mp hnodup).2.2 i hi i List.mem_cons_self rfl

theorem firstScan_spec (parallel final : Bool) {E : Fault → Prop} (w : World n) :
    Spec (firstScan parallel) w
      (fun s w' => ∃ st, Scanning parallel final w (List.finRange n) s st w') E := by
  refine spec_foldlM
    (fun done s w' => ∃ st, Scanning parallel final w done s st w') _ ?_ _ _
    ⟨_, scanning_start parallel final w⟩
  rintro done i rest s w₁ hxs ⟨st, inv⟩
  have hi : st i = .unseen := inv.unseen i (finRange_fresh hxs)
  have hlive : s.live i = false := by
    have h := inv.tracks.live i
    rw [hi] at h
    simpa using h
  have hzero : i.val = 0 → ∀ j, s.live j = false := by
    intro h0 j
    have hj : st j = .unseen := inv.unseen j (by simp [finRange_first hxs h0])
    have h := inv.tracks.live j
    rw [hj] at h
    simpa using h
  -- the two outcomes differ only in the status that queue `i` gets
  have assemble : ∀ s' st' w', st' = .live ∨ st' = .dead → w'.work ≤ w₁.work →
      Steps parallel final ⟨st, w₁⟩ ⟨update st i st', w'⟩ →
      Tracks s' (update st i st') w' →
      FirstMin s' →
      Scanning parallel final w (done ++ [i]) s' (update st i st') w' := by
    intro s' st' w' hst' hwork hsteps htracks hmin
    refine ⟨inv.steps.trans hsteps, htracks, hmin, ?_, ?_, hwork.trans inv.work⟩
    · intro j hj
      by_cases hji : j = i
      · rcases hst' with rfl | rfl <;> simp [hji, Status.Open]
      · rw [update_of_ne hji]
        exact inv.seen j (by simpa [hji] using hj)
    · intro j hj
      simp only [List.mem_append, List.mem_singleton, not_or] at hj
      rw [update_of_ne hj.2]
      exact inv.unseen j hj.1
  refine spec_mono (scanQueue_spec parallel final hi s w₁) ?_ fun _ he => he
  rintro s' w' ⟨hg, hwork, ⟨rfl, hsteps⟩ | ⟨r, q, hq, rfl, hsteps⟩⟩
  · exact ⟨_, assemble _ _ _ (.inr rfl) hwork hsteps (miss_tracks inv.tracks hg hi)
      (miss_min inv.min hlive)⟩
  · exact ⟨_, assemble _ _ _ (.inl rfl) hwork hsteps (hit_tracks inv.tracks hg hi hq)
      (hit_min r.key inv.min hlive hzero)⟩

end Libtrace.OrderedScan
