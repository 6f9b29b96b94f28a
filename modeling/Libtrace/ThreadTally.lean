import Libtrace.Census
import Libtrace.ParallelTrace

/-! The counters of a trace and the records of its per-packet threads, kept together by
`thread_change_state`. -/

namespace Libtrace.ThreadTally
open Census ParallelTrace

variable {n : Nat} {tr : Trace}

def AllFinished (n : Nat) (tr : Trace) : Prop :=
  ∀ i < n, (tr.thread (.perpkt i)).state = .finished

instance (n : Nat) (tr : Trace) : Decidable (AllFinished n tr) := by
  unfold AllFinished
  infer_instance

theorem allFinished_other {id : ThreadId} (hne : ∀ i, id ≠ .perpkt i) {st : ThreadState} :
    AllFinished n (tr.threadChangeState id st) ↔ AllFinished n tr := by
  exact forall₂_congr fun i _ => by rw [Trace.threadChangeState_thread _ _ _ (hne i).symm]

structure Tallied (n : Nat) (tr : Trace) : Prop where
  count : tr.perpktThreadCount = n
  table : tr.perpktThreads.isSome = true
  proper : tr.Proper
  types : ∀ i < n, (tr.thread (.perpkt i)).type = .perpkt
  counts : ∀ st, tr.perpktThreadStates st =
    Census.count (fun t : Thread => t.state == st) fun i : Fin n => tr.thread (.perpkt i)

theorem Tallied.finished_iff (h : Tallied n tr) :
    tr.perpktThreadStates .finished = tr.perpktThreadCount ↔ AllFinished n tr := by
  have hcard := count_eq_card_iff (fun t : Thread => t.state == .finished)
    fun i : Fin n => tr.thread (.perpkt i)
  rw [Fintype.card_fin] at hcard
  rw [h.counts, h.count, Int.natCast_inj, hcard]
  simp only [beq_iff_eq, AllFinished, Fin.forall_iff]

def Quiet (n : Nat) (tr : Trace) : Prop := ∀ i < n, (tr.thread (.perpkt i)).state ≠ .running

theorem Tallied.quiet_iff (h : Tallied n tr) : tr.perpktThreadStates .running = 0 ↔ Quiet n tr := by
  rw [h.counts, Int.natCast_eq_zero, count_eq_zero_iff]
  simp only [beq_eq_false_iff_ne, Quiet, Fin.forall_iff]

theorem Tallied.type_of_ne (h : Tallied n tr) {id : ThreadId} (hid : ∀ i, id ≠ .perpkt i) :
    (tr.thread id).type ≠ .perpkt := by
  rcases h.proper id with he | he <;> rw [he]
  · decide
  · cases id with
    | perpkt i => exact absurd rfl (hid i)
    | _ => decide

section

variable {id : ThreadId} (h : Tallied n tr) (hid : ∀ i, id = .perpkt i → i < n) (st : ThreadState)
include h hid st

theorem Tallied.change : Tallied n (tr.threadChangeState id st) := by
  refine ⟨by simpa using h.count, by simpa using h.table, h.proper.threadChangeState id st,
    fun i hi => by simpa using h.types i hi, fun st' => ?_⟩
  by_cases hperpkt : ∃ i, id = .perpkt i
  · obtain ⟨i, rfl⟩ := hperpkt
    have hi := hid i rfl
    have hafter : (fun j : Fin n => (tr.threadChangeState (.perpkt i) st).thread (.perpkt j)) =
        Function.update (fun j : Fin n => tr.thread (.perpkt j)) ⟨i, hi⟩ ⟨.perpkt, st⟩ := by
      funext j
      by_cases hj : j = ⟨i, hi⟩
      · subst hj
        rw [Function.update_self, Trace.threadChangeState_self _ _ _ h.table, h.types i hi]
      · rw [Function.update_of_ne hj, Trace.threadChangeState_thread]
        simpa [Fin.ext_iff] using hj
    have hmoved := count_update (fun t : Thread => t.state == st')
      (fun j : Fin n => tr.thread (.perpkt j)) ⟨i, hi⟩ ⟨.perpkt, st⟩
    rw [(Trace.threadChangeState_perpkt tr (.perpkt i) st (h.types i hi)).1, hafter,
      Trace.addTo_apply, Trace.addTo_apply, h.counts]
    have hbeq (a : ThreadState) : (a == st').toNat = if a = st' then 1 else 0 := by
      cases a <;> cases st' <;> rfl
    simp only [hbeq] at hmoved
    split_ifs at hmoved ⊢ <;> omega
  · have hne : ∀ i, id ≠ .perpkt i := fun i hi => hperpkt ⟨i, hi⟩
    rw [(Trace.threadChangeState_other tr id st (h.type_of_ne hne)).1, h.counts]
    congr 2
    funext j
    rw [Trace.threadChangeState_thread]
    exact (hne j).symm

theorem Tallied.change_state :
    (tr.threadChangeState id st).state =
      if AllFinished n (tr.threadChangeState id st) then .finished else tr.state := by
  have hiff := (h.change hid st).finished_iff
  rw [Trace.threadChangeState_count] at hiff
  rw [Trace.threadChangeState_state]
  simp only [hiff]

end

end Libtrace.ThreadTally
