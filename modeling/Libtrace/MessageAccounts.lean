import Libtrace.Schedule
import Libtrace.MessageQueue

/-! The books of the message queue: the pipe holds what the counter says, what a reader has counted
but not read, and what a writer has written but not counted. -/

namespace Libtrace.MessageAccounts
open Census MessageQueue Function

variable {τ μ : Type} [Fintype τ]

def readsOwed (s : State τ μ) : Nat := count Pc.owesRead s.pcs

def countsOwed (s : State τ μ) : Nat := count Pc.owesCount s.pcs

structure Inv (room : Nat) (s : State τ μ) : Prop where
  accounts : (s.pipe.length : Int) = s.messageCount + readsOwed s + countsOwed s
  fits : s.pipe.length ≤ room
  locked : ∀ t, (s.pcs t).locked = true ↔ s.spin = some t
  promised : ∀ t ret, s.pcs t = .tryRead ret → 0 ≤ s.messageCount
  fifo : s.written = s.read ++ s.pipe

theorem inv_init (room : Nat) : Inv room (messageQueueInit : State τ μ) where
  accounts := by simp [readsOwed, countsOwed, count, messageQueueInit, Pc.owesRead, Pc.owesCount]
  fits := Nat.zero_le room
  locked := by simp [messageQueueInit, Pc.locked]
  promised := by simp [messageQueueInit]
  fifo := rfl

theorem Inv.holder {room : Nat} {s : State τ μ} (h : Inv room s) {t u : τ}
    (ht : (s.pcs t).locked = true) (hu : (s.pcs u).locked = true) : u = t :=
  Option.some.inj (((h.locked u).mp hu).symm.trans ((h.locked t).mp ht))

variable [DecidableEq τ]

def debt (pc : Pc μ) : Int := pc.owesRead.toNat + pc.owesCount.toNat

/-- A step moves one thread, changes pipe and counter by what it then owes, and touches counter and
lock only as the lock's holder. -/
structure Move (room : Nat) (s s' : State τ μ) (t : τ) (pc : Pc μ) : Prop where
  pcs : s'.pcs = update s.pcs t pc
  balance : (s'.pipe.length : Int) - s'.messageCount - debt pc =
    s.pipe.length - s.messageCount - debt (s.pcs t)
  fits : s'.pipe.length ≤ room
  enter : pc.locked = true → s'.spin = some t ∧ (s.spin = none ∨ (s.pcs t).locked = true)
  leave : pc.locked = false → s'.spin = if (s.pcs t).locked = true then none else s.spin
  counter : s'.messageCount = s.messageCount ∨ (s.pcs t).locked = true
  promised : ∀ ret, pc = .tryRead ret → 0 ≤ s'.messageCount
  fifo : s'.written = s'.read ++ s'.pipe

theorem Inv.move {room : Nat} {s s' : State τ μ} {t : τ} {pc : Pc μ} (h : Inv room s)
    (m : Move room s s' t pc) : Inv room s' where
  accounts := by
    have hread := count_update Pc.owesRead s.pcs t pc
    have hcount := count_update Pc.owesCount s.pcs t pc
    have hbal := m.balance
    have hold := h.accounts
    simp only [readsOwed, countsOwed, debt, m.pcs] at *
    omega
  fits := m.fits
  locked := fun u => by
    rw [m.pcs]
    by_cases hu : u = t
    · subst hu
      rw [update_self]
      cases hl : pc.locked with
      | true => simp [m.enter hl]
      | false =>
        rw [m.leave hl]
        split_ifs with hp
        · simp
        · simp [← h.locked u, hp]
    · rw [update_of_ne hu, h.locked u]
      cases hl : pc.locked with
      | true =>
        obtain ⟨hspin, hfree | hp⟩ := m.enter hl
        · simp [hspin, hfree, Ne.symm hu]
        · simp [hspin, (h.locked t).mp hp]
      | false =>
        rw [m.leave hl]
        split_ifs with hp
        · simp [(h.locked t).mp hp, Ne.symm hu]
        · exact Iff.rfl
  promised := fun u ret hret => by
    rw [m.pcs] at hret
    by_cases hu : u = t
    · subst hu
      rw [update_self] at hret
      exact m.promised ret hret
    · rw [update_of_ne hu] at hret
      obtain hsame | hp := m.counter
      · exact hsame ▸ h.promised u ret hret
      · exact absurd (h.holder hp (by rw [hret]; rfl)) hu
  fifo := m.fifo

section

variable {room : Nat} {s : State τ μ} {t : τ} {pc next : Pc μ}

section

variable (h : Inv room s) (hpc : s.pcs t = pc)
include h hpc

theorem setPc_inv (hd : debt next = debt pc) (hl : next.locked = pc.locked)
    (hr : ∀ ret, next ≠ .tryRead ret) : Inv room (s.setPc t next) := by
  subst hpc
  exact h.move
    { pcs := rfl
      balance := by rw [hd]; rfl
      fits := h.fits
      enter := fun hn => ⟨(h.locked t).mp (hl ▸ hn), .inr (hl ▸ hn)⟩
      leave := fun hn => by simp [State.setPc, ← hl, hn]
      counter := .inl rfl
      promised := fun ret hret => absurd hret (hr ret)
      fifo := h.fifo }

theorem lock_inv (hd : debt next = debt pc) (hl : next.locked = true)
    (hr : ∀ ret, next ≠ .tryRead ret) : Inv room (s.lock t next) := by
  subst hpc
  unfold State.lock
  split_ifs with hfree
  · exact h.move
      { pcs := rfl
        balance := by rw [hd]; rfl
        fits := h.fits
        enter := fun _ => ⟨rfl, .inl hfree⟩
        leave := fun hn => by simp [hl] at hn
        counter := .inl rfl
        promised := fun ret hret => absurd hret (hr ret)
        fifo := h.fifo }
  · exact h

theorem unlock_inv (hd : debt next = debt pc) (hp : pc.locked = true) (hl : next.locked = false) :
    Inv room (s.unlock t next) := by
  subst hpc
  exact h.move
    { pcs := rfl
      balance := by rw [hd]; rfl
      fits := h.fits
      enter := fun hn => by simp [hl] at hn
      leave := fun _ => by rw [if_pos hp]; rfl
      counter := .inl rfl
      promised := fun ret hret => by simp [hret, Pc.locked] at hl
      fifo := h.fifo }

theorem count_inv {c : Int} (hd : c + debt next = s.messageCount + debt pc) (hp : pc.locked = true)
    (hl : next.locked = true) (hr : ∀ ret, next = .tryRead ret → 0 ≤ c) :
    Inv room { s.setPc t next with messageCount := c } := by
  subst hpc
  exact h.move
    { pcs := rfl
      balance := by simp only [State.setPc]; omega
      fits := h.fits
      enter := fun _ => ⟨(h.locked t).mp hp, .inr hp⟩
      leave := fun hn => by simp [hl] at hn
      counter := .inr hp
      promised := hr
      fifo := h.fifo }

theorem pipeWrite_inv {m : μ} (hd : debt next = debt pc + 1) (hp : pc.locked = false)
    (hl : next.locked = false) : Inv room (s.pipeWrite room t m next) := by
  subst hpc
  unfold State.pipeWrite
  split_ifs with hroom
  · exact h.move
      { pcs := rfl
        balance := by simp only [State.setPc, List.length_append, List.length_singleton]; omega
        fits := by simp only [List.length_append, List.length_singleton]; omega
        enter := fun hn => by simp [hl] at hn
        leave := fun _ => by simp [State.setPc, hp]
        counter := .inl rfl
        promised := fun ret hret => by simp [hret, Pc.locked] at hl
        fifo := by simp [State.setPc, h.fifo] }
  · exact h

theorem pipeRead_inv {next : μ → Pc μ} (hd : ∀ m, debt (next m) + 1 = debt pc)
    (hl : ∀ m, (next m).locked = pc.locked) (hr : ∀ m ret, next m ≠ .tryRead ret) :
    Inv room (s.pipeRead t next) := by
  subst hpc
  unfold State.pipeRead
  split
  · exact h
  · rename_i m rest hpipe
    have hd := hd m
    have hl := hl m
    have hfits := h.fits
    rw [hpipe, List.length_cons] at hfits
    exact h.move
      { pcs := rfl
        balance := by simp only [State.setPc, hpipe, List.length_cons]; omega
        fits := by simp only; omega
        enter := fun hn => ⟨(h.locked t).mp (hl ▸ hn), .inr (hl ▸ hn)⟩
        leave := fun hn => by simp [State.setPc, ← hl, hn]
        counter := .inl rfl
        promised := fun ret hret => absurd hret (hr m ret)
        fifo := by simp [State.setPc, h.fifo, hpipe] }

theorem call_inv (hd : debt pc = 0) (hl : pc.locked = false) (call : Call μ) :
    Inv room (s.setPc t call.entry) := by
  cases call <;> exact setPc_inv h hpc hd.symm hl.symm (by simp [Call.entry])

end

theorem step_inv (h : Inv room s) (action : τ × Call μ) : Inv room (step room s action) := by
  obtain ⟨t, call⟩ := action
  cases hpc : s.pcs t <;> simp only [step, hpc]
  case idle => exact call_inv h hpc rfl rfl call
  case returned => exact call_inv h hpc rfl rfl call
  case putWrite => exact pipeWrite_inv h hpc rfl rfl rfl
  case putLock => exact lock_inv h hpc rfl rfl (by simp)
  case putCount =>
    exact count_inv h hpc (by simp [debt, Pc.owesRead, Pc.owesCount]) rfl rfl (by simp)
  case putUnlock => exact unlock_inv h hpc rfl rfl rfl
  case getLock => exact lock_inv h hpc rfl rfl (by simp)
  case getCount =>
    exact count_inv h hpc (by simp [debt, Pc.owesRead, Pc.owesCount]) rfl rfl (by simp)
  case getUnlock => exact unlock_inv h hpc rfl rfl rfl
  case getRead => exact pipeRead_inv h hpc (fun _ => rfl) (fun _ => rfl) (by simp)
  case tryPeek =>
    split_ifs
    · exact setPc_inv h hpc rfl rfl (by simp)
    · exact setPc_inv h hpc rfl rfl (by simp)
  case tryLock => exact lock_inv h hpc rfl rfl (by simp)
  case tryCheck =>
    split_ifs with hpos
    · refine count_inv h hpc (by simp [debt, Pc.owesRead, Pc.owesCount]) rfl rfl fun _ _ => ?_
      omega
    · exact setPc_inv h hpc rfl rfl (by simp)
  case tryRead => exact pipeRead_inv h hpc (fun _ => rfl) (fun _ => rfl) (by simp)
  case tryUnlock => exact unlock_inv h hpc rfl rfl rfl

end

theorem run_inv (room : Nat) (schedule : List (τ × Call μ)) : Inv room (run room schedule) :=
  Schedule.run_inv (Inv room) (fun _ action h => step_inv h action) (inv_init room) schedule

/-- The counter stays between minus the number of threads and the size of the pipe. -/
theorem messageCount_bounds (room : Nat) (schedule : List (τ × Call μ)) :
    -(Fintype.card τ : Int) ≤ (run room schedule).messageCount ∧
      (run room schedule).messageCount ≤ room := by
  have h := run_inv room schedule
  have haccounts := h.accounts
  have hfits := h.fits
  have hthreads := count_add_le Pc.owesRead Pc.owesCount (fun pc : Pc μ => by
    cases pc <;> simp [Pc.owesRead, Pc.owesCount]) (run room schedule).pcs
  simp only [readsOwed, countsOwed] at haccounts
  omega

/-- The pipe always holds the counted messages, those counted out but not read and those written but
not counted in; a `try_get` past its locked check reads a message at its next step; and the messages
come out in order, each once. -/
theorem run_accounts (room : Nat) (schedule : List (τ × Call μ)) :
    ((run room schedule).pipe.length : Int) = (run room schedule).messageCount +
        readsOwed (run room schedule) + countsOwed (run room schedule) ∧
      (∀ t ret call, (run room schedule).pcs t = .tryRead ret →
        ∃ m, (run room schedule).pipe.head? = some m ∧
          (step room (run room schedule) (t, call)).pcs t = .tryUnlock ret (some m)) ∧
      (run room schedule).written = (run room schedule).read ++ (run room schedule).pipe := by
  have h := run_inv room schedule
  refine ⟨h.accounts, fun t ret call hpc => ?_, h.fifo⟩
  have hcount := h.promised t ret hpc
  have howed : 0 < readsOwed (run room schedule) :=
    count_pos Pc.owesRead _ t (by rw [hpc]; rfl)
  have haccounts := h.accounts
  cases hpipe : (run room schedule).pipe with
  | nil =>
    rw [hpipe, List.length_nil] at haccounts
    omega
  | cons m rest => exact ⟨m, rfl, by simp [step, hpc, State.pipeRead, hpipe, State.setPc]⟩

end Libtrace.MessageAccounts
