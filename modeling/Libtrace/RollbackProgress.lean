import Libtrace.RollbackJoins

/-! The roll-back of `trace_pstart` does not get stuck: some thread or the main thread has a step
that brings the return closer. -/

namespace Libtrace.RollbackProgress
open ParallelTrace ParallelStart StartRollback Function

def mainRank (k : Nat) : MainPc → Nat
  | .joinHasher => k + 6
  | .joinPerpkt i => k - i + 5
  | .joinReporter => 4
  | .joinKeepalive => 3
  | .relock => 2
  | .finish => 1
  | .returned _ => 0

def pcRank : ThreadPc → Nat
  | .gate => 2
  | .leaving => 1
  | .absent | .exited => 0

def rank (k : Nat) (m : Machine) : Nat :=
  mainRank k m.main + (k - exits m.pcs k) +
    (pcRank (m.pcs .hasher) + pcRank (m.pcs .reporter) + pcRank (m.pcs .keepalive))

section

variable {n k : Nat} {running : Int} {m : Machine}

theorem rank_setPc (id : ThreadId) (hp : ∀ i, id ≠ .perpkt i) (pc : ThreadPc) (tr : Trace)
    (hless : pcRank pc < pcRank (m.pcs id)) :
    rank k { m.setPc id pc with trace := tr } < rank k m := by
  have hexits : exits (update m.pcs id pc) k = exits m.pcs k :=
    exits_congr m.pcs fun i _ => by rw [update_of_ne (Ne.symm (hp i))]
  cases id with
  | perpkt i => exact absurd rfl (hp i)
  | hasher | reporter | keepalive =>
    simp only [rank, Machine.setPc, hexits, update_self, ne_eq, reduceCtorEq,
      not_false_eq_true, update_of_ne]
    omega

theorem rank_perpkt (h : Inv n k running m) {i : Nat} (hg : m.pcs (.perpkt i) = .gate) :
    rank k (threadStep m (.perpkt i)) < rank k m := by
  obtain ⟨hlt, -, hexit, -⟩ := h.exit_perpkt hg
  rw [h.gate_perpkt hg]
  simp only [rank, Machine.setPc, hexit, ne_eq, reduceCtorEq, not_false_eq_true,
    update_of_ne]
  omega

theorem progress_hasher (h : Inv n k running m) (hg : m.pcs .hasher = .gate) :
    Finished (threadStep m .hasher) ∨ rank k (threadStep m .hasher) < rank k m := by
  rw [h.gate_hasher hg]
  split
  · exact .inr (rank_setPc .hasher nofun _ _ (by simp [hg, pcRank]))
  · exact .inl (.inl (by simp))

theorem progress_other (h : Inv n k running m) {id : ThreadId} (hid : ¬ Gone m id)
    (hp : ∀ i, id ≠ .perpkt i) (hh : id ≠ .hasher) : rank k (threadStep m id) < rank k m := by
  cases hpc : m.pcs id with
  | absent => exact absurd (.inl hpc) hid
  | exited => exact absurd (.inr hpc) hid
  | gate =>
    rw [(h.gate_other hpc hp hh).1]
    split
    · exact rank_setPc id hp _ _ (by simp [hpc, pcRank])
    · exact rank_setPc id hp _ m.trace (by simp [hpc, pcRank])
  | leaving =>
    have hstate : m.trace.state = .finished := by rw [h.state, if_pos (h.leaving id hpc)]
    simp only [threadStep, hpc, h.unlocked hid, hstate, and_self, if_true]
    exact rank_setPc id hp _ _ (by simp [hpc, pcRank])

theorem join_of_gone {id : ThreadId} (next : MainPc) (hj : Joinable m id) (hg : Gone m id) :
    (join m id next).main = next ∧ (join m id next).pcs = m.pcs := by
  unfold ParallelStart.join
  split
  · next ht =>
    rw [if_pos (hg.resolve_left (hj.mp ht))]
    exact ⟨rfl, rfl⟩
  · exact ⟨rfl, rfl⟩

theorem rank_of_main {m' : Machine} {main main' : MainPc} (hm : m.main = main)
    (hpcs : m'.pcs = m.pcs) (hnext : m'.main = main')
    (hless : mainRank k main' < mainRank k main) : rank k m' < rank k m := by
  simp only [rank, hpcs, hnext, hm]
  omega

theorem progress_main (h : Inv n k running m) (hgone : ∀ id, Gone m id) :
    Finished (mainStep m) ∨ rank k (mainStep m) < rank k m := by
  have hmain := h.main
  cases hm : m.main with
  | joinHasher =>
    simp only [MainOk, hm] at hmain
    obtain ⟨hnext, hpcs⟩ := join_of_gone (.joinPerpkt 0) hmain.1 (hgone _)
    simp only [mainStep, hm]
    exact .inr (rank_of_main hm hpcs hnext (by simp only [mainRank]; omega))
  | joinPerpkt i =>
    simp only [MainOk, hm] at hmain
    obtain ⟨-, ⟨hik, -⟩, htable, -, -⟩ := hmain
    simp only [mainStep, hm, ParallelStart.joinPerpkt]
    split
    · exact .inr (rank_of_main hm rfl rfl (by simp only [mainRank]; omega))
    · next table hsome =>
      split
      · next hi =>
        obtain ⟨-, htypes⟩ := htable.resolve_left (by simp [hsome])
        have hthread : m.trace.thread (.perpkt i) = table i := by
          simp only [Trace.thread, hsome, Option.getD_some]
        have hlt : i < k := (htypes i (Nat.le_refl i)).mp (hthread ▸ hi.2)
        have hjoin : Joinable m (.perpkt i) :=
          ⟨fun _ => h.present i hlt, fun _ => hthread ▸ hi.2⟩
        obtain ⟨hnext, hpcs⟩ := join_of_gone (.joinPerpkt (i + 1)) hjoin (hgone _)
        exact .inr (rank_of_main hm hpcs hnext (by simp only [mainRank]; omega))
      · exact .inr (rank_of_main hm rfl rfl (by simp only [mainRank]; omega))
  | joinReporter =>
    simp only [MainOk, hm] at hmain
    obtain ⟨hnext, hpcs⟩ := join_of_gone .joinKeepalive hmain.2.2.1 (hgone _)
    simp only [mainStep, hm]
    exact .inr (rank_of_main hm hpcs hnext (by simp only [mainRank]; omega))
  | joinKeepalive =>
    simp only [MainOk, hm] at hmain
    obtain ⟨hnext, hpcs⟩ := join_of_gone .relock hmain.2.2.2 (hgone _)
    simp only [mainStep, hm]
    exact .inr (rank_of_main hm hpcs hnext (by simp only [mainRank]; omega))
  | relock =>
    simp only [mainStep, hm]
    exact .inr (rank_of_main hm rfl rfl (by simp only [mainRank]; omega))
  | finish =>
    rcases finish_outcome h hm with ⟨-, hback, -⟩ | ⟨-, hfault⟩
    · exact .inl (.inr ⟨_, hback.main⟩)
    · exact .inl (.inl hfault)
  | returned ret => simp only [MainOk, hm] at hmain

theorem progress (h : Inv n k running m) :
    ∃ a, Finished (step m a) ∨ rank k (step m a) < rank k m := by
  by_cases hh : Gone m .hasher
  · by_cases hr : Gone m .reporter
    · by_cases hk : Gone m .keepalive
      · by_cases hp : ∃ i, m.pcs (.perpkt i) = .gate
        · obtain ⟨i, hg⟩ := hp
          refine ⟨.thread (.perpkt i), .inr ?_⟩
          simp only [step, h.fault, if_true]
          exact rank_perpkt h hg
        · have hgone : ∀ id, Gone m id
            | .hasher => hh
            | .reporter => hr
            | .keepalive => hk
            | .perpkt i => (h.perpkt i).resolve_left fun hg => hp ⟨i, hg.1⟩
          refine ⟨.main, ?_⟩
          simp only [step, h.fault, if_true]
          exact progress_main h hgone
      · refine ⟨.thread .keepalive, .inr ?_⟩
        simp only [step, h.fault, if_true]
        exact progress_other h hk nofun nofun
    · refine ⟨.thread .reporter, .inr ?_⟩
      simp only [step, h.fault, if_true]
      exact progress_other h hr nofun nofun
  · have hg : m.pcs .hasher = .gate := (h.hasher.resolve_right hh).1
    refine ⟨.thread .hasher, ?_⟩
    simp only [step, h.fault, if_true]
    exact progress_hasher h hg

end

end Libtrace.RollbackProgress
