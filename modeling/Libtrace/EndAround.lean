import Mathlib.Algebra.BigOperators.Group.List.Basic
import Mathlib.Data.Nat.ModEq

/-! One's complement arithmetic on digits of a base `b`: sums that agree modulo `b - 1` are reduced
to the same digit. -/

namespace Libtrace.EndAround

def residue (b n : Nat) : Nat := if n = 0 then 0 else (n - 1) % (b - 1) + 1

def add (b x y : Nat) : Nat := if x + y < b then x + y else x + y - (b - 1)

def total (b : Nat) (digits : List Nat) : Nat := digits.foldl (add b) 0

def swap (c n : Nat) : Nat := n % c * c + n / c

variable {b : Nat}

@[simp] theorem residue_zero : residue b 0 = 0 := rfl

theorem residue_eq_zero {n : Nat} : residue b n = 0 ↔ n = 0 := by
  unfold residue
  split_ifs with h
  · simp [h]
  · simp [h]

theorem residue_lt (hb : 2 ≤ b) (n : Nat) : residue b n < b := by
  unfold residue
  split_ifs with h
  · omega
  · have := Nat.mod_lt (n - 1) (show b - 1 > 0 by omega)
    omega

theorem residue_of_lt {n : Nat} (h : n < b) : residue b n = n := by
  unfold residue
  split_ifs with h0
  · exact h0.symm
  · rw [Nat.mod_eq_of_lt (by omega)]
    omega

theorem residue_modEq (n : Nat) : residue b n ≡ n [MOD b - 1] := by
  unfold residue
  split_ifs with h
  · rw [h]
  · have hpred : (n - 1) % (b - 1) ≡ n - 1 [MOD b - 1] := Nat.mod_modEq _ _
    have hsucc := hpred.add_right 1
    rwa [Nat.sub_add_cancel (by omega)] at hsucc

theorem residue_congr {m n : Nat} (h : m ≡ n [MOD b - 1]) (h0 : m = 0 ↔ n = 0) :
    residue b m = residue b n := by
  unfold residue
  by_cases hm : m = 0
  · rw [if_pos hm, if_pos (h0.mp hm)]
  · rw [if_neg hm, if_neg (fun hn => hm (h0.mpr hn))]
    have hpred : m - 1 ≡ n - 1 [MOD b - 1] := by
      refine Nat.ModEq.add_right_cancel' 1 ?_
      rwa [Nat.sub_add_cancel (by omega), Nat.sub_add_cancel (by omega)]
    rw [hpred]

theorem base_modEq (hb : 1 ≤ b) : b ≡ 1 [MOD b - 1] := by
  have h : b - 1 + 1 ≡ 1 [MOD b - 1] := by simp
  rwa [Nat.sub_add_cancel hb] at h

theorem residue_carry (hb : 2 ≤ b) (n : Nat) : residue b (n % b + n / b) = residue b n := by
  refine residue_congr ?_ ?_
  · have hcarry : 1 * (n / b) ≡ b * (n / b) [MOD b - 1] :=
      (base_modEq (by omega)).symm.mul_right _
    have hsum := hcarry.add_left (n % b)
    rwa [Nat.one_mul, Nat.mod_add_div] at hsum
  · constructor
    · intro h
      have hdiv := Nat.mod_add_div n b
      rw [Nat.eq_zero_of_add_eq_zero_right h, Nat.eq_zero_of_add_eq_zero_left h] at hdiv
      simpa using hdiv.symm
    · rintro rfl
      simp

theorem residue_add (m n : Nat) : residue b (residue b m + n) = residue b (m + n) := by
  refine residue_congr ((residue_modEq m).add_right n) ?_
  have := residue_eq_zero (b := b) (n := m)
  omega

theorem add_eq_residue {x y : Nat} (hx : x < b) (hy : y < b) : add b x y = residue b (x + y) := by
  unfold add
  split_ifs with h
  · exact (residue_of_lt h).symm
  · have hcancel : x + y - (b - 1) ≡ x + y [MOD b - 1] := by
      have hself : x + y - (b - 1) + (b - 1) ≡ x + y - (b - 1) [MOD b - 1] := by simp
      rw [Nat.sub_add_cancel (by omega)] at hself
      exact hself.symm
    rw [← residue_congr hcancel (by omega), residue_of_lt (by omega)]

theorem foldl_add (hb : 2 ≤ b) {digits : List Nat} (h : ∀ d ∈ digits, d < b) (n : Nat) :
    digits.foldl (add b) (residue b n) = residue b (n + digits.sum) := by
  induction digits generalizing n with
  | nil => simp
  | cons d digits ih =>
    have hd : d < b := h d (by simp)
    have hrest : ∀ d ∈ digits, d < b := fun d hd => h d (by simp [hd])
    rw [List.foldl_cons, add_eq_residue (residue_lt hb n) hd, residue_add, ih hrest,
      List.sum_cons, Nat.add_assoc]

theorem total_eq_residue (hb : 2 ≤ b) {digits : List Nat} (h : ∀ d ∈ digits, d < b) :
    total b digits = residue b digits.sum := by
  have := foldl_add hb h 0
  rwa [residue_zero, Nat.zero_add] at this

/-- The complement of one sum added to another gives the largest digit exactly if both agree modulo
`b - 1`. -/
theorem residue_complement_iff (hb : 2 ≤ b) {m n : Nat} (h0 : m = 0 → n = 0) :
    residue b (m + (b - 1 - residue b n)) = b - 1 ↔ m ≡ n [MOD b - 1] := by
  have hlt := residue_lt hb n
  have hself : residue b n + (b - 1 - residue b n) = b - 1 := Nat.add_sub_cancel' (by omega)
  constructor
  · intro h
    have hsum : m + (b - 1 - residue b n) ≡ residue b n + (b - 1 - residue b n) [MOD b - 1] := by
      rw [hself]
      have hmod := (residue_modEq (b := b) (m + (b - 1 - residue b n))).symm
      rwa [h] at hmod
    exact (hsum.add_right_cancel' _).trans (residue_modEq n)
  · intro h
    have hsum : m + (b - 1 - residue b n) ≡ b - 1 [MOD b - 1] := by
      have hmod := (h.trans (residue_modEq n).symm).add_right (b - 1 - residue b n)
      rwa [hself] at hmod
    have hzero : m + (b - 1 - residue b n) = 0 ↔ b - 1 = 0 := by
      have hn := residue_eq_zero (b := b) (n := n)
      omega
    rw [residue_congr hsum hzero]
    exact residue_of_lt (by omega)

theorem residue_complement (hb : 2 ≤ b) (n : Nat) :
    residue b (n + (b - 1 - residue b n)) = b - 1 := (residue_complement_iff hb id).mpr rfl

section

variable {c : Nat}

theorem swap_lt (hc : 0 < c) {n : Nat} (h : n < c * c) : swap c n < c * c := by
  have hmod := Nat.mod_lt n hc
  have hdiv : n / c < c := Nat.div_lt_of_lt_mul h
  have hle : n % c * c ≤ (c - 1) * c := Nat.mul_le_mul_right c (by omega)
  have hcc : (c - 1) * c + c = c * c := by
    rw [← Nat.succ_mul, Nat.succ_eq_add_one, Nat.sub_add_cancel hc]
  unfold swap
  omega

theorem swap_modEq (hc : 0 < c) (n : Nat) : swap c n ≡ c * n [MOD c * c - 1] := by
  have hbase : 1 * (n / c) ≡ c * c * (n / c) [MOD c * c - 1] :=
    (base_modEq (Nat.mul_pos hc hc)).symm.mul_right _
  have hsum := hbase.add_left (n % c * c)
  have heq : n % c * c + c * c * (n / c) = c * n := by
    rw [Nat.mul_comm (n % c) c, Nat.mul_assoc, ← Nat.mul_add, Nat.mod_add_div]
  rw [Nat.one_mul, heq] at hsum
  exact hsum

theorem swap_residue (hc : 2 ≤ c) (n : Nat) :
    swap c (residue (c * c) n) = residue (c * c) (c * n) := by
  have hcc : 2 ≤ c * c := Nat.le_trans hc (Nat.le_mul_of_pos_left c (by omega))
  have hlt := residue_lt hcc n
  rw [← residue_of_lt (swap_lt (by omega) hlt)]
  refine residue_congr ((swap_modEq (by omega) _).trans ((residue_modEq n).mul_left c)) ?_
  constructor
  · intro h
    have hzero := Nat.eq_zero_of_add_eq_zero_right h
    have hdiv := Nat.eq_zero_of_add_eq_zero_left h
    have hmod : residue (c * c) n % c = 0 :=
      (Nat.mul_eq_zero.mp hzero).resolve_right (by omega)
    have hsplit := Nat.mod_add_div (residue (c * c) n) c
    rw [hmod, hdiv, Nat.mul_zero] at hsplit
    rw [residue_eq_zero.mp hsplit.symm, Nat.mul_zero]
  · intro h
    rw [(Nat.mul_eq_zero.mp h).resolve_left (by omega)]
    simp [swap]

end

end Libtrace.EndAround
