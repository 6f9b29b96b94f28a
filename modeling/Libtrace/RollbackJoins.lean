import Libtrace.StartRollback

/-! The joins of `trace_pstart` in its roll-back. The assertion behind them holds exactly if the
counter of running threads has come down to zero. -/

namespace Libtrace.StartRollback
open ParallelTrace ParallelStart StartLaunch

section

variable {n k : Nat} {running : Int} {m : Machine}

section

variable (h : Inv n k running m)
include h

theorem Inv.moveOn (tr : Trace) (next : MainPc)
    (hcount : tr.perpktThreadCount = m.trace.perpktThreadCount)
    (hcounts : tr.perpktThreadStates = m.trace.perpktThreadStates)
    (hstate : tr.state = m.trace.state) (hlocked : m.locked = false)
    (hperpkt : ∀ i, m.pcs (.perpkt i) = .gate → tr.perpktThreads.isSome = true ∧
      tr.thread (.perpkt i) = m.trace.thread (.perpkt i))
    (hhasher : m.pcs .hasher = .gate → tr.thread .hasher = m.trace.thread .hasher)
    (hproper : tr.Proper) (hmain : MainOk k { m with trace := tr, main := next }) :
    Inv n k running { m with trace := tr, main := next } := by
  refine ⟨h.pos, h.le, h.fault, hcount.trans h.count, hcounts.trans h.counts,
    hstate.trans h.state, fun hl => absurd (hlocked.symm.trans hl) (by decide), fun i => ?_,
    h.present, ?_, hproper, h.leaving, hmain⟩
  · rcases h.perpkt i with ⟨hg, hik, -, ht⟩ | hg
    · obtain ⟨hsome, hthread⟩ := hperpkt i hg
      exact .inl ⟨hg, hik, hsome, hthread.trans ht⟩
    · exact .inr hg
  · rcases h.hasher with ⟨hg, ht⟩ | hg
    · exact .inl ⟨hg, (congrArg Thread.type (hhasher hg)).trans ht⟩
    · exact .inr hg

theorem Inv.join {id : ThreadId} {next : MainPc} (hm : m.main ≠ .finish)
    (hj : Joinable m id)
    (hnext : ∀ tr : Trace, Gone m id → (∀ j, j ≠ id → tr.thread j = m.trace.thread j) →
      tr.perpktThreads.isSome = m.trace.perpktThreads.isSome →
      MainOk k { m with trace := tr, main := next }) :
    Inv n k running (join m id next) := by
  have hlocked := h.unlocked_of_join hm
  unfold ParallelStart.join
  by_cases ht : (m.trace.thread id).type = id.type
  · rw [if_pos ht]
    by_cases hpc : m.pcs id = .exited
    · rw [if_pos hpc]
      have hne {j : ThreadId} (hg : m.pcs j = .gate) : j ≠ id := by
        rintro rfl
        exact absurd (hg.symm.trans hpc) (by decide)
      refine h.moveOn _ next (Trace.setThread_count _ _ _) (Trace.setThread_counts _ _ _)
        (Trace.setThread_state _ _ _) hlocked (fun i hg => ?_) (fun hg => ?_)
        (h.proper.setThread (.inl rfl)) (hnext _ (.inr hpc) (fun j hj => ?_) ?_)
      · have hsome := (h.perpkt i).resolve_right (by simp [Gone, hg])
        exact ⟨(Trace.setThread_isSome _ _ _).trans hsome.2.2.1,
          Trace.setThread_thread _ _ _ (hne hg)⟩
      · exact Trace.setThread_thread _ _ _ (hne hg)
      · exact Trace.setThread_thread _ _ _ hj
      · exact Trace.setThread_isSome _ _ _
    · rw [if_neg hpc]
      exact h
  · rw [if_neg ht]
    have habsent : m.pcs id = .absent := by
      by_contra hne
      exact ht (hj.mpr hne)
    refine h.moveOn m.trace next rfl rfl rfl hlocked (fun i hg => ?_) (fun _ => rfl) h.proper
      (hnext m.trace (.inl habsent) (fun _ _ => rfl) rfl)
    exact ⟨((h.perpkt i).resolve_right (by simp [Gone, hg])).2.2.1, rfl⟩

theorem Inv.joinPerpkt {i : Nat} (hm : m.main = .joinPerpkt i) :
    Inv n k running (joinPerpkt m i) := by
  have hmain := h.main
  simp only [MainOk, hm] at hmain
  obtain ⟨hhasher, ⟨hik, hdone⟩, htable, hreporter, hkeepalive⟩ := hmain
  have hne : m.main ≠ .finish := by simp [hm]
  have hlocked := h.unlocked_of_join hne
  unfold ParallelStart.joinPerpkt
  split
  · next hnone =>
    have hk : k = 0 := by
      rcases htable with ⟨hk, -⟩ | ⟨hsome, -⟩
      · exact hk
      · rw [hnone] at hsome
        exact absurd hsome (by decide)
    refine h.moveOn m.trace .joinReporter rfl rfl rfl hlocked (fun j hg => ?_) (fun _ => rfl)
      h.proper ⟨hhasher, fun j hj => by omega, hreporter, hkeepalive⟩
    exact ⟨((h.perpkt j).resolve_right (by simp [Gone, hg])).2.2.1, rfl⟩
  · next table hsome =>
    have hthread (j : Nat) : m.trace.thread (.perpkt j) = table j := by
      simp only [Trace.thread, hsome, Option.getD_some]
    obtain ⟨-, htypes⟩ := htable.resolve_left (by simp [hsome])
    split
    · next hi =>
      rw [← hthread i] at hi
      have hlt : i < k := (htypes i (Nat.le_refl i)).mp hi.2
      refine h.join hne ⟨fun _ => h.present i hlt, fun _ => hi.2⟩ fun tr hg hsame his => ?_
      have hexited : m.pcs (.perpkt i) = .exited := hg.resolve_left (h.present i hlt)
      refine ⟨hhasher, ⟨hlt, fun j hj => ?_⟩, .inr ⟨?_, fun j hj => ?_⟩, ?_, ?_⟩
      · rcases Nat.lt_succ_iff_lt_or_eq.mp hj with hj | rfl
        · exact hdone j hj
        · exact hexited
      · exact his.trans (by rw [hsome]; rfl)
      · show (tr.thread (.perpkt j)).type = .perpkt ↔ j < k
        rw [hsame _ (by simp; omega)]
        exact htypes j (by omega)
      · simp only [Joinable, hsame .reporter (by simp)]
        exact hreporter
      · simp only [Joinable, hsame .keepalive (by simp)]
        exact hkeepalive
    · next hi =>
      have hall : ∀ j < k, m.pcs (.perpkt j) = .exited := by
        intro j hj
        refine hdone j ?_
        by_contra hle
        have hlt : i < k := by omega
        have hkn := h.le
        refine hi ⟨by rw [h.count]; omega, ?_⟩
        rw [← hthread i]
        exact (htypes i (Nat.le_refl i)).mpr hlt
      refine h.moveOn _ .joinReporter rfl rfl rfl hlocked (fun j hg => ?_) (fun _ => rfl)
        (fun id => ?_) ⟨hhasher, hall, hreporter, hkeepalive⟩
      · obtain ⟨-, hj, -, -⟩ := (h.perpkt j).resolve_right (by simp [Gone, hg])
        exact absurd (hg.symm.trans (hall j hj)) (by decide)
      · cases id with
        | perpkt j => exact .inl rfl
        | hasher => exact h.proper .hasher
        | reporter => exact h.proper .reporter
        | keepalive => exact h.proper .keepalive

theorem Inv.relock (hm : m.main = .relock) :
    Inv n k running { m with locked := true, main := .finish } := by
  have hmain := h.main
  simp only [MainOk, hm] at hmain
  exact ⟨h.pos, h.le, h.fault, h.count, h.counts, h.state, fun _ => rfl, h.perpkt, h.present,
    h.hasher, h.proper, h.leaving, hmain⟩

theorem Inv.counts_of_finish (hm : m.main = .finish) :
    m.trace.perpktThreadStates = tally running k := by
  have hmain := h.main
  simp only [MainOk, hm] at hmain
  rw [h.counts, exits_eq_of_all _ hmain.2.1]

theorem finish_outcome (hm : m.main = .finish) :
    (running = k ∧ RolledBack (mainStep m) ∧ ∀ id, Gone (mainStep m) id) ∨
      (running ≠ k ∧ (mainStep m).fault ≠ none) := by
  have hgone := h.gone_of_finish (.inl hm)
  simp only [mainStep, hm, Trace.changeState, h.counts_of_finish hm]
  by_cases he : running = k
  · have hzero : tally running k .running = 0 := by
      simp only [tally]
      omega
    rw [if_pos hzero]
    refine .inl ⟨he, ⟨h.fault, rfl, rfl, rfl, fun s => ?_⟩, hgone⟩
    cases s <;> simp [tally, he]
  · have hnonzero : tally running k .running ≠ 0 := by
      simp only [tally]
      omega
    rw [if_neg hnonzero]
    exact .inr ⟨he, by simp⟩

theorem mainStep_outcome :
    Inv n k running (mainStep m) ∨
      (running = k ∧ RolledBack (mainStep m) ∧ ∀ id, Gone (mainStep m) id) ∨
      (running ≠ k ∧ (mainStep m).fault ≠ none) := by
  have hmain := h.main
  cases hm : m.main with
  | joinHasher =>
    simp only [MainOk, hm] at hmain
    obtain ⟨hj, htable, hreporter, hkeepalive⟩ := hmain
    simp only [mainStep, hm]
    refine .inl (h.join (by rw [hm]; decide) hj fun tr hg hsame his => ?_)
    refine ⟨hg, ⟨Nat.zero_le _, fun j hj => absurd hj (Nat.not_lt_zero j)⟩, ?_, ?_, ?_⟩
    · simp only [TableFrom, his, hsame (.perpkt _) (by simp)]
      exact htable
    · simp only [Joinable, hsame .reporter (by decide)]
      exact hreporter
    · simp only [Joinable, hsame .keepalive (by decide)]
      exact hkeepalive
  | joinPerpkt i =>
    simp only [mainStep, hm]
    exact .inl (h.joinPerpkt hm)
  | joinReporter =>
    simp only [MainOk, hm] at hmain
    obtain ⟨hhasher, hall, hj, hkeepalive⟩ := hmain
    simp only [mainStep, hm]
    refine .inl (h.join (by rw [hm]; decide) hj fun tr hg hsame _ => ⟨hhasher, hall, hg, ?_⟩)
    simp only [Joinable, hsame .keepalive (by decide)]
    exact hkeepalive
  | joinKeepalive =>
    simp only [MainOk, hm] at hmain
    obtain ⟨hhasher, hall, hreporter, hj⟩ := hmain
    simp only [mainStep, hm]
    exact .inl (h.join (by rw [hm]; decide) hj fun tr hg _ _ => ⟨hhasher, hall, hreporter, hg⟩)
  | relock =>
    simp only [mainStep, hm]
    exact .inl (h.relock hm)
  | finish => exact .inr (finish_outcome h hm)
  | returned ret =>
    simp only [MainOk, hm] at hmain

end

end

end Libtrace.StartRollback
