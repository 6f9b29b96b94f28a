import Libtrace.ByteOrder
import Libtrace.Window

/-! The acknowledgements of the RT client: `rt_send_ack` and its loop around `send`. Positions are
offsets into `ack_buffer`; the memory goes on behind it. What `send` will do is a list of
outcomes. -/

namespace Libtrace.RtAck
open ByteOrder Window

inductive Outcome where
  | ready (more : Nat)
  | eintr
  | eagain
  | failed
  deriving DecidableEq, Repr

inductive Ending where
  | returned (ret : Int)
  /-- The call has not returned: `send` still waits. -/
  | waiting
  deriving DecidableEq, Repr

def ackSize : Nat := 16

def accepted (more toWrite : Nat) : Nat := min (more + 1) toWrite

/-- With the positions of the bytes that were sent. The pointer moves on by the number of bytes that
are left. -/
def sendLoop : List Outcome → Nat → Nat → Ending × List Nat
  | _, 0, _ => (.returned 1, [])
  | [], _ + 1, _ => (.waiting, [])
  | .ready more :: plan, toWrite + 1, bufPtr =>
    let numbytes := accepted more (toWrite + 1)
    let left := toWrite + 1 - numbytes
    let next := sendLoop plan left (bufPtr + left)
    (next.1, List.range' bufPtr numbytes ++ next.2)
  | .eintr :: plan, toWrite + 1, bufPtr => sendLoop plan (toWrite + 1) bufPtr
  | .eagain :: plan, toWrite + 1, bufPtr => sendLoop plan (toWrite + 1) bufPtr
  | .failed :: _, _ + 1, _ => (.returned (-1), [])

/-- The other fields of the header are not set. -/
def ackBuffer (memory : Nat → UInt8) (seqno : UInt32) : Nat → UInt8 :=
  let withType := store memory 0 (beBytes 4 3)
  let withLength := store withType 6 (beBytes 2 4)
  store withLength 12 (beBytes 4 seqno.toNat)

structure Transfer where
  ending : Ending
  offsets : List Nat
  buffer : Nat → UInt8

def rtSendAck (memory : Nat → UInt8) (seqno : UInt32) (plan : List Outcome) : Transfer :=
  let loop := sendLoop plan ackSize 0
  ⟨loop.1, loop.2, ackBuffer memory seqno⟩

structure Intact (t : Transfer) : Prop where
  ending : t.ending = .returned 1
  offsets : t.offsets = List.range ackSize
  bytes : t.offsets.map t.buffer = window t.buffer 0 ackSize

def Accepts : List Outcome → Nat → Prop
  | _, 0 => True
  | [], _ + 1 => False
  | .ready more :: plan, toWrite + 1 => Accepts plan (toWrite + 1 - accepted more (toWrite + 1))
  | .eintr :: plan, toWrite + 1 => Accepts plan (toWrite + 1)
  | .eagain :: plan, toWrite + 1 => Accepts plan (toWrite + 1)
  | .failed :: _, _ + 1 => False

/-- Each call that accepts something accepts all that is left, or half of it. -/
def Halving : List Outcome → Nat → Prop
  | _, 0 => True
  | [], _ + 1 => True
  | .ready more :: plan, toWrite + 1 =>
    (accepted more (toWrite + 1) = toWrite + 1 ∨ 2 * accepted more (toWrite + 1) = toWrite + 1) ∧
      Halving plan (toWrite + 1 - accepted more (toWrite + 1))
  | .eintr :: plan, toWrite + 1 => Halving plan (toWrite + 1)
  | .eagain :: plan, toWrite + 1 => Halving plan (toWrite + 1)
  | .failed :: _, _ + 1 => True

section

theorem accepted_pos (more toWrite : Nat) : 0 < accepted more (toWrite + 1) := by
  unfold accepted
  omega

theorem accepted_le (more toWrite : Nat) : accepted more toWrite ≤ toWrite :=
  Nat.min_le_right _ _

variable {plan : List Outcome} {toWrite : Nat} (bufPtr : Nat)

theorem sendLoop_returns (h : Accepts plan toWrite) :
    (sendLoop plan toWrite bufPtr).1 = .returned 1 := by
  induction plan generalizing toWrite bufPtr with
  | nil =>
    cases toWrite with
    | zero => rfl
    | succ toWrite => exact h.elim
  | cons outcome plan ih =>
    cases toWrite with
    | zero => cases outcome <;> rfl
    | succ toWrite =>
      cases outcome with
      | ready more => exact ih _ h
      | eintr => exact ih _ h
      | eagain => exact ih _ h
      | failed => exact h.elim

theorem sendLoop_head (h : Accepts plan (toWrite + 1)) :
    (sendLoop plan (toWrite + 1) bufPtr).2.head? = some bufPtr := by
  induction plan with
  | nil => exact h.elim
  | cons outcome plan ih =>
    cases outcome with
    | ready more =>
      obtain ⟨k, hk⟩ := Nat.exists_eq_add_of_lt (accepted_pos more toWrite)
      rw [sendLoop, hk, Nat.zero_add, List.range'_succ]
      rfl
    | eintr => exact ih h
    | eagain => exact ih h
    | failed => exact h.elim

theorem sent_iff (h : Accepts plan toWrite) (n : Nat)
    (ih : ∀ q, (sendLoop plan toWrite q).2 = List.range' q toWrite ↔ Halving plan toWrite) :
    List.range' bufPtr n ++ (sendLoop plan toWrite (bufPtr + toWrite)).2 =
        List.range' bufPtr (n + toWrite) ↔
      (toWrite = 0 ∨ n = toWrite) ∧ Halving plan toWrite := by
  rw [← List.range'_append_1, List.append_cancel_left_eq]
  cases toWrite with
  | zero =>
    rw [← ih bufPtr, Nat.add_zero]
    simp
  | succ left =>
    by_cases hn : n = left + 1
    · subst hn
      rw [ih]
      simp
    · refine iff_of_false (fun heq => hn ?_) fun hboth => hn (hboth.1.resolve_left (by omega))
      have hhead := sendLoop_head (bufPtr + (left + 1)) h
      rw [heq, List.range'_succ, List.head?_cons, Option.some.injEq] at hhead
      omega

theorem sendLoop_inOrder_iff (h : Accepts plan toWrite) :
    (sendLoop plan toWrite bufPtr).2 = List.range' bufPtr toWrite ↔ Halving plan toWrite := by
  induction plan generalizing toWrite bufPtr with
  | nil =>
    cases toWrite with
    | zero => exact iff_of_true rfl trivial
    | succ toWrite => exact h.elim
  | cons outcome plan ih =>
    cases toWrite with
    | zero => cases outcome <;> exact iff_of_true rfl trivial
    | succ toWrite =>
      cases outcome with
      | ready more =>
        have hle := accepted_le more (toWrite + 1)
        have hrest : Accepts plan (toWrite + 1 - accepted more (toWrite + 1)) := h
        have hsent := sent_iff bufPtr hrest (accepted more (toWrite + 1)) fun q => ih q hrest
        rw [Nat.add_sub_of_le hle] at hsent
        refine hsent.trans (and_congr_left fun _ => ?_)
        omega
      | eintr | eagain => exact ih bufPtr h
      | failed => exact h.elim

end

/-- When the calls of `send` accept everything, `rt_send_ack` returns 1; the acknowledgement is
intact exactly if every call accepts all that is left, or half of it. -/
theorem rtSendAck_intact_iff (memory : Nat → UInt8) (seqno : UInt32) (plan : List Outcome)
    (h : Accepts plan ackSize) : Intact (rtSendAck memory seqno plan) ↔ Halving plan ackSize := by
  have hiff := sendLoop_inOrder_iff 0 h
  constructor
  · intro hintact
    exact hiff.mp hintact.offsets
  · intro hhalving
    have hoffsets : (rtSendAck memory seqno plan).offsets = List.range ackSize :=
      hiff.mpr hhalving
    refine ⟨sendLoop_returns 0 h, hoffsets, ?_⟩
    rw [hoffsets, window, Nat.sub_zero]
    exact List.map_congr_left fun i _ => by rw [Nat.zero_add]

theorem rtSendAck_intact_halves :
    Accepts [.ready 7, .eintr, .ready 3, .eagain, .ready 99] ackSize ∧
      Intact (rtSendAck (fun _ => 0) 7 [.ready 7, .eintr, .ready 3, .eagain, .ready 99]) :=
  ⟨trivial, (rtSendAck_intact_iff (fun _ => 0) 7
    [.ready 7, .eintr, .ready 3, .eagain, .ready 99] trivial).mpr
    ⟨.inr rfl, .inr rfl, .inl rfl, trivial⟩⟩

/-- If four bytes are accepted at first, eight bytes from behind the buffer are sent. -/
theorem rtSendAck_overruns :
    Accepts [.ready 3, .ready 99] ackSize ∧
      (rtSendAck (fun _ => 0) 7 [.ready 3, .ready 99]).ending = .returned 1 ∧
      (rtSendAck (fun _ => 0) 7 [.ready 3, .ready 99]).offsets =
        List.range' 0 4 ++ List.range' 12 12 ∧
      ¬ Intact (rtSendAck (fun _ => 0) 7 [.ready 3, .ready 99]) := by
  refine ⟨trivial, rfl, rfl, fun h => ?_⟩
  exact absurd h.offsets (by decide)

end Libtrace.RtAck
