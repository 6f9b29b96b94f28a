import Mathlib.Data.List.Induction
import Mathlib.Data.Nat.ModEq
import Mathlib.Logic.Function.Basic

/-! `data-struct/sliding_window.c`: numbered items come in any order within a window and leave it in
the order of their numbers. Array and 64-bit numbers are circular. -/

namespace Libtrace.SlidingWindow
open Function

variable {α : Type}

structure Window (α : Type) where
  start : Nat
  size : Nat
  startNumber : UInt64
  elements : Nat → Option α

def init (size : Nat) (startNumber : UInt64) : Window α :=
  ⟨0, size, startNumber, fun _ => none⟩

def tryWrite (sw : Window α) (number : UInt64) (value : α) : Bool × Window α :=
  let adjustedNumber := (number - sw.startNumber).toNat
  if adjustedNumber < sw.size then
    let slot := (adjustedNumber + sw.start) % 2 ^ 64 % sw.size
    (true, { sw with elements := update sw.elements slot (some value) })
  else (false, sw)

def tryRead (sw : Window α) : Option (UInt64 × α) × Window α :=
  match sw.elements sw.start with
  | some value =>
    (some (sw.startNumber, value),
      { sw with
        elements := update sw.elements sw.start none
        startNumber := sw.startNumber + 1
        start := (sw.start + 1) % sw.size })
  | none => (none, sw)

inductive Op (α : Type) where
  | write (number : UInt64) (value : α)
  | read

inductive Event (α : Type) where
  | wrote (number : UInt64) (value : α)
  | read (number : UInt64) (value : α)

def step (s : Window α × List (Event α)) : Op α → Window α × List (Event α)
  | .write number value =>
    let r := tryWrite s.1 number value
    (r.2, if r.1 then s.2 ++ [.wrote number value] else s.2)
  | .read =>
    let r := tryRead s.1
    (r.2, match r.1 with
      | some (number, value) => s.2 ++ [.read number value]
      | none => s.2)

def run (size : Nat) (startNumber : UInt64) (ops : List (Op α)) :
    Window α × List (Event α) :=
  ops.foldl step (init size startNumber, [])

section

def Event.isRead : Event α → Bool
  | .wrote _ _ => false
  | .read _ _ => true

def nextNumber (startNumber : UInt64) (events : List (Event α)) : UInt64 :=
  startNumber + .ofNat (events.countP Event.isRead)

def pending (events : List (Event α)) (number : UInt64) : Option α :=
  events.foldl (fun held event => match event with
    | .wrote n value => if n = number then some value else held
    | .read n _ => if n = number then none else held) none

def ahead (first number : UInt64) : Nat := (number - first).toNat

theorem ahead_eq (first number : UInt64) :
    ahead first number = (2 ^ 64 - first.toNat + number.toNat) % 2 ^ 64 := UInt64.toNat_sub _ _

theorem ahead_self (first : UInt64) : ahead first first = 0 := by
  rw [ahead, UInt64.sub_self]
  rfl

theorem ahead_inj {first m n : UInt64} (h : ahead first m = ahead first n) : m = n := by
  have hm := m.toNat_lt
  have hn := n.toNat_lt
  rw [ahead_eq, ahead_eq] at h
  exact UInt64.toNat_inj.mp (by omega)

theorem ahead_succ (first number : UInt64) :
    ahead (first + 1) number = (ahead first number + (2 ^ 64 - 1)) % 2 ^ 64 := by
  have hfirst := first.toNat_lt
  have hone : (first + 1).toNat = (first.toNat + 1) % 2 ^ 64 := UInt64.toNat_add _ _
  rw [ahead_eq, ahead_eq, hone]
  omega

end

section

variable {start size i j : Nat}

theorem slot_inj (hi : i < size) (hj : j < size) (h : (start + i) % size = (start + j) % size) :
    i = j := by
  have hmod := Nat.ModEq.add_left_cancel' start h
  rwa [Nat.ModEq, Nat.mod_eq_of_lt hi, Nat.mod_eq_of_lt hj] at hmod

end

/-- Each pending number is as far behind `start` as it is ahead of `start_number`. -/
structure Tracks (size : Nat) (first : UInt64) (sw : Window α) (events : List (Event α)) :
    Prop where
  size_eq : sw.size = size
  start_lt : sw.start < size
  number : sw.startNumber = nextNumber first events
  held : ∀ n, pending events n =
    if ahead sw.startNumber n < size then sw.elements ((sw.start + ahead sw.startNumber n) % size)
    else none

section

variable {size : Nat} {first : UInt64} {sw : Window α} {events : List (Event α)}

section

variable (h : Tracks size first sw events)
include h

theorem Tracks.next :
    sw.elements sw.start = pending events sw.startNumber := by
  have hlt := h.start_lt
  rw [h.held, ahead_self, if_pos (Nat.zero_lt_of_lt hlt), Nat.add_zero, Nat.mod_eq_of_lt hlt]

theorem Tracks.write (hsize : size < 2 ^ 63) {n : UInt64} (hn : ahead sw.startNumber n < size)
    (value : α) : Tracks size first (tryWrite sw n value).2 (events ++ [.wrote n value]) := by
  have hlt := h.start_lt
  have hslot : (ahead sw.startNumber n + sw.start) % 2 ^ 64 % sw.size =
      (sw.start + ahead sw.startNumber n) % size := by
    have hsum : ahead sw.startNumber n + sw.start < 2 ^ 64 := by omega
    rw [Nat.mod_eq_of_lt hsum, Nat.add_comm, h.size_eq]
  have hwrite : (tryWrite sw n value).2 = { sw with
      elements := update sw.elements ((sw.start + ahead sw.startNumber n) % size)
        (some value) } := by
    rw [tryWrite, ← ahead, hslot, if_pos (h.size_eq ▸ hn)]
  rw [hwrite]
  refine ⟨h.size_eq, hlt, ?_, fun m => ?_⟩
  · rw [nextNumber, List.countP_append]
    exact h.number
  · rw [pending, List.foldl_append]
    change (if n = m then some value else pending events m) = _
    dsimp only
    by_cases hnm : n = m
    · subst hnm
      rw [if_pos rfl, if_pos hn, update_self]
    · rw [if_neg hnm, h.held]
      split_ifs with hm
      · have hne : (sw.start + ahead sw.startNumber m) % size ≠
            (sw.start + ahead sw.startNumber n) % size :=
          fun heq => hnm (ahead_inj (slot_inj hm hn heq).symm)
        rw [update_of_ne hne]
      · rfl

theorem Tracks.read (hsize : size < 2 ^ 63) {value : α}
    (hvalue : sw.elements sw.start = some value) :
    Tracks size first (tryRead sw).2 (events ++ [.read sw.startNumber value]) := by
  have hlt := h.start_lt
  have hread : (tryRead sw).2 = { sw with
      elements := update sw.elements sw.start none
      startNumber := sw.startNumber + 1
      start := (sw.start + 1) % size } := by
    rw [tryRead, hvalue, h.size_eq]
  rw [hread]
  refine ⟨h.size_eq, Nat.mod_lt _ (Nat.zero_lt_of_lt hlt), ?_, fun m => ?_⟩
  · rw [nextNumber, List.countP_append, UInt64.ofNat_add, ← UInt64.add_assoc]
    exact congrArg (· + 1) h.number
  · rw [pending, List.foldl_append]
    change (if sw.startNumber = m then none else pending events m) = _
    dsimp only
    have hahead := ahead_succ sw.startNumber m
    have hbound : ahead sw.startNumber m < 2 ^ 64 := UInt64.toNat_lt _
    by_cases hm : sw.startNumber = m
    · subst hm
      rw [ahead_self] at hahead
      rw [if_pos rfl, if_neg (by omega)]
    · have hpos : ahead sw.startNumber m ≠ 0 := fun heq =>
        hm (ahead_inj ((ahead_self _).trans heq.symm))
      have hnear : ahead (sw.startNumber + 1) m + 1 = ahead sw.startNumber m := by omega
      rw [if_neg hm, h.held, ← hnear]
      have hplace : ((sw.start + 1) % size + ahead (sw.startNumber + 1) m) % size =
          (sw.start + (ahead (sw.startNumber + 1) m + 1)) % size := by
        rw [Nat.mod_add_mod]
        congr 1
        omega
      rw [hplace]
      -- the place that became free belongs to the number that enters the window
      by_cases hlast : ahead (sw.startNumber + 1) m + 1 = size
      · have hfree : (sw.start + (ahead (sw.startNumber + 1) m + 1)) % size = sw.start := by
          rw [hlast, Nat.add_mod_right, Nat.mod_eq_of_lt hlt]
        rw [if_neg (by omega), if_pos (by omega), hfree, update_self]
      · by_cases hin : ahead (sw.startNumber + 1) m + 1 < size
        · have hother : (sw.start + (ahead (sw.startNumber + 1) m + 1)) % size ≠ sw.start := by
            intro heq
            have hmod : (sw.start + (ahead (sw.startNumber + 1) m + 1)) % size =
                (sw.start + 0) % size := by
              rw [heq, Nat.add_zero, Nat.mod_eq_of_lt hlt]
            exact absurd (slot_inj hin (by omega) hmod) (Nat.succ_ne_zero _)
          rw [if_pos hin, if_pos (by omega), update_of_ne hother]
        · rw [if_neg hin, if_neg (by omega)]

theorem tryWrite_fst (n : UInt64) (value : α) :
    (tryWrite sw n value).1 = true ↔ ahead sw.startNumber n < size := by
  rw [tryWrite, ← ahead, h.size_eq]
  by_cases hn : ahead sw.startNumber n < size
  · rw [if_pos hn]
    exact iff_of_true rfl hn
  · rw [if_neg hn]
    exact iff_of_false Bool.false_ne_true hn

end

theorem tryWrite_unchanged {n : UInt64} {value : α} (h : (tryWrite sw n value).1 = false) :
    (tryWrite sw n value).2 = sw := by
  rw [tryWrite] at h ⊢
  split_ifs at h ⊢
  rfl

theorem tryRead_fst (h : Tracks size first sw events) :
    (tryRead sw).1 = (pending events sw.startNumber).map fun value => (sw.startNumber, value) := by
  rw [← h.next, tryRead]
  cases sw.elements sw.start <;> rfl

theorem Tracks.step (h : Tracks size first sw events) (hsize : size < 2 ^ 63) (op : Op α) :
    Tracks size first (step (sw, events) op).1 (step (sw, events) op).2 := by
  cases op with
  | write n value =>
    cases hwrite : (tryWrite sw n value).1 with
    | true =>
      rw [SlidingWindow.step, hwrite]
      exact h.write hsize ((tryWrite_fst h n value).mp hwrite) value
    | false =>
      rw [SlidingWindow.step, hwrite, tryWrite_unchanged hwrite]
      exact h
  | read =>
    cases hvalue : sw.elements sw.start with
    | some value =>
      have hread := h.read hsize hvalue
      have hresult : (tryRead sw).1 = some (sw.startNumber, value) := by rw [tryRead, hvalue]
      rw [SlidingWindow.step, hresult]
      exact hread
    | none =>
      have hresult : tryRead sw = (none, sw) := by rw [tryRead, hvalue]
      rw [SlidingWindow.step, hresult]
      exact h

theorem run_tracks (hpos : 0 < size) (hsize : size < 2 ^ 63) (first : UInt64) (ops : List (Op α)) :
    Tracks size first (run size first ops).1 (run size first ops).2 := by
  induction ops using List.reverseRecOn with
  | nil =>
    refine ⟨rfl, hpos, (UInt64.add_zero first).symm, fun n => ?_⟩
    split_ifs <;> rfl
  | append_singleton ops op ih =>
    rw [run, List.foldl_append]
    exact ih.step hsize op

end

/-- A write succeeds within the window and changes nothing otherwise, and a read gives the next
number with its pending value, or fails if there is none. -/
theorem calls_after_run (size : Nat) (hpos : 0 < size) (hsize : size < 2 ^ 63) (first : UInt64)
    (ops : List (Op α)) :
    (∀ n value,
      ((tryWrite (run size first ops).1 n value).1 = true ↔
        (n - nextNumber first (run size first ops).2).toNat < size) ∧
      ((tryWrite (run size first ops).1 n value).1 = false →
        (tryWrite (run size first ops).1 n value).2 = (run size first ops).1)) ∧
    (tryRead (run size first ops).1).1 =
      (pending (run size first ops).2 (nextNumber first (run size first ops).2)).map
        fun value => (nextNumber first (run size first ops).2, value) := by
  have h := run_tracks hpos hsize first ops
  rw [← h.number]
  exact ⟨fun n value => ⟨tryWrite_fst h n value, tryWrite_unchanged⟩, tryRead_fst h⟩

/-- Two numbers around the end of the 64 bits, in the wrong order. -/
theorem wrapped_calls :
    (tryRead (run 3 0xFFFFFFFFFFFFFFFF
      [.write 0 'b', .write 0xFFFFFFFFFFFFFFFF 'a', .read]).1).1 = some (0, 'b') :=
  (calls_after_run 3 (by decide) (by decide) 0xFFFFFFFFFFFFFFFF
    [.write 0 'b', .write 0xFFFFFFFFFFFFFFFF 'a', .read]).2.trans (by decide)

end Libtrace.SlidingWindow
