import Libtrace.OrderedScan

/-! The `while` loop of `read_internal`, and the call as a whole: it takes steps of the merge, and
faults only where the first scan left `min_queue` at `-1`. -/

namespace Libtrace.OrderedDrain
open Exec CombinerOrdered OrderedMerge OrderedRefinement OrderedScan Function

variable {n : Nat} {k : UInt64} {m : Fin n} {s : Scan n} {parallel : Bool} {st : Fin n → Status}
  {w w' : World n} {E : Fault → Prop}

theorem rescan_le (s : Scan n) (j : Fin n) (hj : s.live j = true) :
    s.rescan.minKey ≤ s.rescan.key j :=
  MinScan.lastMin_le_key s.live s.key _ _ j (List.mem_finRange j) hj

theorem rescan_choice (s : Scan n) :
    (s.rescan.minKey = s.minKey ∧ s.rescan.minQueue = s.minQueue) ∨
      ∃ m, s.live m = true ∧ s.rescan.minKey = s.key m ∧ s.rescan.minQueue = some m := by
  rcases MinScan.lastMin_choice s.live s.key (s.minKey, s.minQueue) (List.finRange n) with
    h | ⟨m, -, hl, h⟩
  · exact .inl ⟨congrArg Prod.fst h, congrArg Prod.snd h⟩
  · exact .inr ⟨m, hl, congrArg Prod.fst h, congrArg Prod.snd h⟩

theorem advance_live_fields (s : Scan n) (m : Fin n) (hk : k ≠ 0) :
    (s.advance m k).live = s.live ∧ (s.advance m k).key = update s.key m k ∧
    (s.advance m k).liveCount = s.liveCount ∧ (s.advance m k).allActive = s.allActive := by
  dsimp only [Scan.advance]
  split_ifs <;> exact ⟨rfl, rfl, rfl, rfl⟩

theorem advance_dead_fields (s : Scan n) (m : Fin n) :
    (s.advance m 0).live = update s.live m false ∧
    (s.advance m 0).key = update s.key m 0 ∧
    (s.advance m 0).liveCount = s.liveCount - 1 ∧ (s.advance m 0).allActive = false := by
  dsimp only [Scan.advance]
  exact ⟨rfl, rfl, rfl, rfl⟩

theorem advance_live_min (hk : k ≠ 0) (h : MinOk s) (hm : s.minQueue = some m) :
    MinOk (s.advance m k) ∧ (s.advance m k).minQueue ≠ none := by
  have hl := (h.named m hm).1
  dsimp only [Scan.advance]
  split_ifs with hle
  · refine ⟨⟨?_, ?_⟩, by simp [hm]⟩
    · intro m' hm'
      rw [hm, Option.some.injEq] at hm'
      subst hm'
      exact ⟨hl, by simp⟩
    · intro j hj
      by_cases hjm : j = m
      · simp [hjm]
      · simpa [hjm] using hle.trans (h.le j hj)
  · set t : Scan n := { s with key := update s.key m k, minKey := k } with ht
    have hkeym : t.minKey = t.key m := by simp [ht]
    rcases rescan_choice t with ⟨hmin, hq⟩ | ⟨m', hl', hmin, hq⟩
    · have hq' : t.rescan.minQueue = some m := hq.trans hm
      refine ⟨⟨?_, rescan_le t⟩, by simp [hq']⟩
      intro m' hm'
      rw [hq', Option.some.injEq] at hm'
      subst hm'
      exact ⟨hl, hmin.trans hkeym⟩
    · refine ⟨⟨?_, rescan_le t⟩, by simp [hq]⟩
      intro m'' hm'
      rw [hq, Option.some.injEq] at hm'
      subst hm'
      exact ⟨hl', hmin⟩

theorem advance_dead_min (s : Scan n) (m : Fin n) :
    MinOk (s.advance m 0) ∧
      ((s.advance m 0).minQueue = none → ∀ j, (s.advance m 0).live j = false) := by
  dsimp only [Scan.advance]
  rw [if_neg (by simp)]
  set t : Scan n := { s with
    allActive := false
    live := update s.live m false
    key := update s.key m 0
    liveCount := s.liveCount - 1
    minKey := uint64Max
    minQueue := none } with ht
  refine ⟨⟨?_, rescan_le t⟩, ?_⟩
  · intro m' hm'
    rcases rescan_choice t with ⟨-, hq⟩ | ⟨m'', hl, hmin, hq⟩
    · exact absurd (hq.symm.trans hm') (by simp [ht])
    · rw [hq, Option.some.injEq] at hm'
      subst hm'
      exact ⟨hl, hmin⟩
  · intro hnone j
    by_contra hlive
    change ¬ t.live j = false at hlive
    obtain ⟨y, -, -, hy⟩ := MinScan.lastMin_isSome t.live t.key uint64Max (List.finRange n)
      (fun x _ _ => le_uint64Max _) j (List.mem_finRange j) (by simpa using hlive)
    have : t.rescan.minQueue = some y := congrArg Prod.snd hy
    simp [this] at hnone

structure AtLoop {n : Nat} (s : Scan n) (st : Fin n → Status) (w : World n) : Prop where
  tracks : Tracks s st w
  min : MinOk s
  closed : ∀ j, ¬ (st j).Open

theorem advance_atLoop {final : Bool} {w₁ : World n} (h : AtLoop s st w) (hm : s.minQueue = some m)
    (hg : Grows m w w₁) (hadv : Advanced parallel final (update st m .current) w₁ m k w') :
    ∃ st', Steps parallel final ⟨update st m .current, w₁⟩ ⟨st', w'⟩ ∧
      AtLoop (s.advance m k) st' w' ∧
      ((s.advance m k).minQueue = none → (s.advance m k).more final = false) := by
  obtain ⟨hlive, hkey⟩ := h.min.named m hm
  have hst : st m = .live := (h.tracks.live m).mp hlive
  obtain ⟨hg', -, ⟨rfl, hsteps⟩ | ⟨hk, hsteps, r, q, hq, hr⟩⟩ := hadv
  · rw [update_idem] at hsteps
    obtain ⟨fl, fk, fc, fa⟩ := advance_dead_fields s m
    obtain ⟨hmin, hnone⟩ := advance_dead_min s m
    have tracks : Tracks (s.advance m 0) (update st m .dead) w' := by
      refine ⟨fun j => ?_, fun j hl => ?_, ?_, fun ha => by simp [fa] at ha⟩
      · rw [fl]
        by_cases hj : j = m
        · simp [hj]
        · simpa [hj] using h.tracks.live j
      · have hj : j ≠ m := fun e => by simp [e] at hl
        rw [update_of_ne hj] at hl
        rw [fk, update_of_ne hj]
        exact key_grows h.tracks (grows_trans hg hg') j hj hl
      · have hmem : m ∈ liveSet st := by simp [liveSet, hst]
        have hpos := Finset.card_pos.mpr ⟨m, hmem⟩
        rw [fc, h.tracks.count, liveSet_update_dead, Finset.card_erase_of_mem hmem]
        omega
    refine ⟨_, hsteps, ⟨tracks, hmin, ?_⟩, fun hq => ?_⟩
    · intro j
      by_cases hj : j = m
      · simp [hj, Status.Open]
      · simpa [hj] using h.closed j
    · have hdead : liveSet (update st m .dead) = ∅ := by
        ext j
        have hj := tracks.live j
        rw [hnone hq j] at hj
        simpa [liveSet] using hj
      have hcount := tracks.count
      rw [hdead] at hcount
      simp [Scan.more, fa, hcount]
  · have hback : update (update st m Status.current) m .live = st := by
      rw [update_idem, ← hst, update_eq_self]
    rw [hback] at hsteps
    obtain ⟨fl, fk, fc, fa⟩ := advance_live_fields s m hk
    obtain ⟨hmin, hsome⟩ := advance_live_min hk h.min hm
    refine ⟨st, hsteps, ⟨⟨?_, fun j hl => ?_, ?_, ?_⟩, hmin, h.closed⟩, fun hq => absurd hq hsome⟩
    · rw [fl]
      exact h.tracks.live
    · rw [fk]
      by_cases hj : j = m
      · subst hj
        exact ⟨r, q, hq, by simpa using hr⟩
      · rw [update_of_ne hj]
        exact key_grows h.tracks (grows_trans hg hg') j hj hl
    · rw [fc]
      exact h.tracks.count
    · rw [fa]
      exact h.tracks.active

theorem send_step (parallel final : Bool) (h : AtLoop s st w) (hm : s.minQueue = some m)
    (hmore : s.more final = true) :
    ∃ r q, w.land.queues m = r :: q ∧ Steps parallel final ⟨st, w⟩
      ⟨update st m .current, (w.land.pop m).send m r⟩ := by
  obtain ⟨hlive, hkey⟩ := h.min.named m hm
  obtain ⟨r, q, hq, hr⟩ := h.tracks.key m ((h.tracks.live m).mp hlive)
  obtain ⟨q', hq'⟩ := land_queues_cons hq
  refine ⟨r, q', hq', .tail (.single (.land st w)) ?_⟩
  refine .send st w.land m r q' ((h.tracks.live m).mp hlive) hq' h.closed ?_ ?_
  · intro j x xs hj hx
    obtain ⟨y, ys, hy, hyk⟩ := h.tracks.key j hj
    obtain ⟨ys', hy'⟩ := land_queues_cons hy
    have hxy : x = y := by
      rw [hy', List.cons.injEq] at hx
      exact hx.1.symm
    rw [hxy, hyk, hr, ← hkey]
    exact h.min.le j ((h.tracks.live j).mpr hj)
  · simp only [Scan.more, Bool.or_eq_true, Bool.and_eq_true] at hmore
    rcases hmore with ha | ⟨-, hf⟩
    · right
      intro j
      have hdead := h.tracks.active ha j
      have hclosed := h.closed j
      cases hs : st j <;> simp_all [Status.Open]
    · exact .inl hf

theorem drain_spec (parallel final : Bool) (fuel : Nat) (s : Scan n) (st : Fin n → Status)
    (w : World n) (h : AtLoop s st w)
    (hstall : s.minQueue = none → s.more final = true → E .queueIndex) (hfuel : w.work < fuel) :
    Spec (drain parallel final fuel s) w
      (fun s' w' => ∃ st', Steps parallel final ⟨st, w⟩ ⟨st', w'⟩ ∧
      AtLoop s' st' w' ∧ s'.more final = false ∧ w'.work ≤ w.work) E := by
  induction fuel generalizing s st w with
  | zero => omega
  | succ fuel ih =>
    unfold drain
    by_cases hmore : s.more final = true
    · rw [if_pos hmore]
      cases hm : s.minQueue with
      | none => exact spec_throw (hstall hm hmore)
      | some m =>
        obtain ⟨r, q, hq, hsend⟩ := send_step parallel final h hm hmore
        have hwork := pop_work hq
        rw [land_work] at hwork
        refine spec_bind (dequePopFront_spec hq ?_)
        refine spec_bind (spec_modify ?_)
        refine spec_seq (nextMessage_spec parallel final (update st m .current) m
          (by simp) (fuel + 1) _ (by rw [send_work]; omega)) ?_
        intro k w' hadv
        have hg : Grows m w ((w.land.pop m).send m r) :=
          grows_trans (grows_land m w) (grows_pop m _)
        have hle : w'.work ≤ (w.land.pop m).work := hadv.2.1
        obtain ⟨st', hsteps, hloop, hnone⟩ := advance_atLoop h hm hg hadv
        refine spec_mono (ih _ st' w' hloop (fun hq hmore' => ?_) (by omega)) ?_ fun _ he => he
        · rw [hnone hq] at hmore'
          exact Bool.noConfusion hmore'
        · rintro s'' w'' ⟨st'', hs, hl, hmore', hw⟩
          exact ⟨st'', hsend.trans (hsteps.trans hs), hl, hmore', by omega⟩
    · rw [if_neg hmore]
      exact spec_pure ⟨st, .refl, h, by simpa using hmore, le_refl _⟩

structure Returned {n : Nat} (parallel final : Bool) (w : World n) (s : Scan n)
    (st : Fin n → Status) (w' : World n) : Prop where
  steps : Steps parallel final (Merge.start w) ⟨st, w'⟩
  loop : AtLoop s st w'
  done : s.more final = false
  scanned : ∃ s₀ w₀, firstScan parallel w = .ok (s₀, w₀) ∧
    (s₀.minQueue = none → s₀.more final = false)

theorem readInternal_spec (parallel final : Bool) (w : World n)
    (hstall : ∀ s w', firstScan parallel w = .ok (s, w') →
      s.minQueue = none → s.more final = true → E .queueIndex) :
    Spec (readInternal parallel final) w
      (fun s w' => ∃ st, Returned parallel final w s st w') E := by
  refine spec_seq (spec_self (firstScan_spec parallel final w)) ?_
  rintro s w₁ ⟨heq, st, inv⟩
  refine spec_bind (spec_get ?_)
  have hloop : AtLoop s st w₁ :=
    ⟨inv.tracks, inv.min.toMinOk, fun j => inv.seen j (List.mem_finRange j)⟩
  by_cases hstuck : s.minQueue = none ∧ s.more final = true
  · unfold drain
    rw [if_pos hstuck.2, hstuck.1]
    exact spec_throw (hstall s w₁ heq hstuck.1 hstuck.2)
  have hgo : s.minQueue = none → s.more final = false := fun hnone =>
    Bool.eq_false_iff.mpr fun hmore => hstuck ⟨hnone, hmore⟩
  refine spec_mono (drain_spec parallel final _ s st w₁ hloop (fun hnone hmore => ?_) (by omega)) ?_
    fun _ he => he
  · exact absurd ⟨hnone, hmore⟩ hstuck
  · rintro s' w' ⟨st', hsteps, hloop', hdone, -⟩
    exact ⟨st', inv.steps.trans hsteps, hloop', hdone, s, w₁, heq, hgo⟩

theorem AtLoop.live_or_dead (h : AtLoop s st w) (j : Fin n) : st j = .live ∨ st j = .dead := by
  have hclosed := h.closed j
  cases hs : st j <;> simp_all [Status.Open]

theorem Returned.dead (h : Returned parallel true w s st w') (j : Fin n) : st j = .dead := by
  have hdone := h.done
  simp only [Scan.more, Bool.and_true, Bool.or_eq_false_iff, decide_eq_false_iff_not,
    not_not] at hdone
  have hempty : liveSet st = ∅ := by
    rw [← Finset.card_eq_zero]
    have := h.loop.tracks.count
    omega
  refine (h.loop.live_or_dead j).resolve_left fun hl => ?_
  have hj : j ∈ liveSet st := by simp [liveSet, hl]
  simp [hempty] at hj

end Libtrace.OrderedDrain
