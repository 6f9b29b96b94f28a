import Mathlib.Algebra.Group.Nat.Defs
import Mathlib.Data.List.Basic

/-! Unsigned integers of a fixed number of bytes in memory, in either byte order. -/

namespace Libtrace.ByteOrder

variable (bytes : List UInt8)

def leNat : Nat := bytes.foldr (fun b n => b.toNat + 256 * n) 0

def beNat : Nat := leNat bytes.reverse

def leBytes : Nat → Nat → List UInt8
  | 0, _ => []
  | k + 1, n => UInt8.ofNat n :: leBytes k (n / 256)

def leNatAt (i k : Nat) : Nat := leNat ((bytes.drop i).take k)

def beBytes (k n : Nat) : List UInt8 := (leBytes k n).reverse

theorem leNat_cons (b : UInt8) (bytes : List UInt8) :
    leNat (b :: bytes) = b.toNat + 256 * leNat bytes := rfl

@[simp] theorem length_leBytes (k n : Nat) : (leBytes k n).length = k := by
  induction k generalizing n with
  | zero => rfl
  | succ k ih => rw [leBytes, List.length_cons, ih]

@[simp] theorem length_beBytes (k n : Nat) : (beBytes k n).length = k := by simp [beBytes]

theorem leNat_leBytes {k n : Nat} (h : n < 256 ^ k) : leNat (leBytes k n) = n := by
  induction k generalizing n with
  | zero =>
    rw [Nat.lt_one_iff.mp h]
    rfl
  | succ k ih =>
    rw [leBytes, leNat_cons, ih (Nat.div_lt_of_lt_mul (by omega)), UInt8.toNat_ofNat']
    omega

theorem leNat_leBytes_mod (k n : Nat) : leNat (leBytes k n) = n % 256 ^ k := by
  induction k generalizing n with
  | zero => rw [Nat.pow_zero, Nat.mod_one, leBytes, leNat, List.foldr_nil]
  | succ k ih =>
    have hsplit : n % 256 ^ (k + 1) = n % 256 + 256 * (n / 256 % 256 ^ k) := by
      rw [Nat.pow_succ, Nat.mul_comm, Nat.mod_mul]
    rw [leBytes, leNat_cons, ih, UInt8.toNat_ofNat', hsplit]

theorem leBytes_leNat : leBytes bytes.length (leNat bytes) = bytes := by
  induction bytes with
  | nil => rfl
  | cons b bytes ih =>
    have hb := b.toNat_lt
    have hhead : UInt8.ofNat (b.toNat + 256 * leNat bytes) = b := by
      refine UInt8.toNat_inj.mp ?_
      rw [UInt8.toNat_ofNat']
      omega
    have htail : (b.toNat + 256 * leNat bytes) / 256 = leNat bytes := by omega
    rw [List.length_cons, leBytes, leNat_cons, hhead, htail, ih]

theorem leNatAt_append {i k n : Nat} (hn : n < 256 ^ k) {before : List UInt8}
    (hi : before.length = i) (after : List UInt8) :
    leNatAt (before ++ (leBytes k n ++ after)) i k = n := by
  have htake : (leBytes k n ++ after).take k = leBytes k n :=
    List.take_left' (length_leBytes k n)
  rw [leNatAt, ← hi, List.drop_left, htake, leNat_leBytes hn]

theorem leNatAt_zero {k n : Nat} (hn : n < 256 ^ k) (after : List UInt8) :
    leNatAt (leBytes k n ++ after) 0 k = n := by
  have h := leNatAt_append hn List.length_nil after
  rwa [List.nil_append] at h

theorem beNat_beBytes {k n : Nat} (h : n < 256 ^ k) : beNat (beBytes k n) = n := by
  rw [beNat, beBytes, List.reverse_reverse, leNat_leBytes h]

theorem leNat_lt : leNat bytes < 256 ^ bytes.length := by
  induction bytes with
  | nil => exact Nat.one_pos
  | cons b bytes ih =>
    have hb := b.toNat_lt
    rw [leNat_cons, List.length_cons, Nat.pow_succ]
    omega

theorem leNat_digit (i : Nat) : leNat bytes / 256 ^ i % 256 = (bytes.getD i 0).toNat := by
  induction bytes generalizing i with
  | nil => simp [leNat]
  | cons b bytes ih =>
    have hb := b.toNat_lt
    cases i with
    | zero =>
      rw [leNat_cons, List.getD_cons_zero, Nat.pow_zero, Nat.div_one]
      omega
    | succ i =>
      have htail : (b.toNat + 256 * leNat bytes) / 256 = leNat bytes := by omega
      rw [leNat_cons, List.getD_cons_succ, Nat.pow_succ', ← Nat.div_div_eq_div_mul, htail, ih]

theorem beNat_lt : beNat bytes < 256 ^ bytes.length := by
  rw [← List.length_reverse]
  exact leNat_lt bytes.reverse

section

variable {α : Type}

def swapFields : List Nat → List α → List α
  | [], bytes => bytes
  | k :: widths, bytes => (bytes.take k).reverse ++ swapFields widths (bytes.drop k)

def totalWidth : List Nat → Nat
  | [] => 0
  | k :: widths => k + totalWidth widths

@[simp] theorem length_swapFields (widths : List Nat) (bytes : List α) :
    (swapFields widths bytes).length = bytes.length := by
  induction widths generalizing bytes with
  | nil => rfl
  | cons k widths ih =>
    rw [swapFields, List.length_append, List.length_reverse, List.length_take, ih, List.length_drop]
    omega

theorem take_swapFields (before : List Nat) {k : Nat} (after : List Nat) {bytes : List α}
    (h : totalWidth before + k ≤ bytes.length) :
    ((swapFields (before ++ k :: after) bytes).drop (totalWidth before)).take k =
      ((bytes.drop (totalWidth before)).take k).reverse := by
  induction before generalizing bytes with
  | nil =>
    rw [totalWidth, Nat.zero_add] at h
    exact List.take_left' (by rw [List.length_reverse, List.length_take, Nat.min_eq_left h])
  | cons j before ih =>
    rw [totalWidth] at h
    have hj : (bytes.take j).reverse.length = j := by
      rw [List.length_reverse, List.length_take, Nat.min_eq_left (by omega)]
    have hrest : totalWidth before + k ≤ (bytes.drop j).length := by
      rw [List.length_drop]
      omega
    have htail := ih hrest
    rw [List.drop_drop] at htail
    rw [List.cons_append, swapFields, totalWidth, ← List.drop_drop, List.drop_left' hj]
    exact htail

end

end Libtrace.ByteOrder
