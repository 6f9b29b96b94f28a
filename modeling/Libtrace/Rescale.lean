import Mathlib.Data.Nat.Basic
import Mathlib.Algebra.Order.Ring.Nat

/-! Counting in units of another size, rounded down, and back. -/

namespace Libtrace.Rescale

/-- `n` units, `b` in a whole, counted in units of which there are `a`. -/
def rescale (a b n : Nat) : Nat := n * a / b

variable {a b n : Nat}

theorem rescale_back_le (a b n : Nat) : rescale b a (rescale a b n) ≤ n := by
  obtain rfl | ha := Nat.eq_zero_or_pos a
  · simp [rescale]
  · refine Nat.div_le_of_le_mul ?_
    rw [Nat.mul_comm a]
    exact Nat.div_mul_le_self _ _

/-- Nothing is lost there and back iff nothing is cut off on the way there. -/
theorem rescale_back_iff (ha : 0 < a) : rescale b a (rescale a b n) = n ↔ b ∣ n * a := by
  have hle := rescale_back_le a b n
  have hcut := Nat.div_add_mod (n * a) b
  constructor
  · intro h
    have hback : n * a ≤ n * a / b * b := (Nat.le_div_iff_mul_le ha).mp (Nat.le_of_eq h.symm)
    rw [Nat.mul_comm b] at hcut
    omega
  · intro h
    refine Nat.le_antisymm hle ((Nat.le_div_iff_mul_le ha).mpr (Nat.le_of_eq ?_))
    rw [rescale, Nat.mul_comm _ b]
    omega

theorem rescale_back_ge (hab : b ≤ a) (hb : 0 < b) : n - 1 ≤ rescale b a (rescale a b n) := by
  refine (Nat.le_div_iff_mul_le (by omega)).mpr ?_
  have hcut := Nat.div_add_mod (n * a) b
  have hmod := Nat.mod_lt (n * a) hb
  rw [rescale, Nat.mul_comm _ b, Nat.sub_mul]
  omega

theorem rescale_back_pred (hab : b ≤ a) (hb : 0 < b) (h : ¬ b ∣ n * a) :
    rescale b a (rescale a b n) = n - 1 := by
  have hle := rescale_back_le a b n
  have hge := rescale_back_ge (n := n) hab hb
  have hne : rescale b a (rescale a b n) ≠ n := fun he => h ((rescale_back_iff (by omega)).mp he)
  omega

theorem rescale_fine {k : Nat} (hab : b * k ≤ a) (hb : 0 < b) (hk : 0 < k) (h : n % k ≠ 0) :
    rescale b a (rescale a (b * k) n) = n / k := by
  have hpos : 0 < b * k := Nat.mul_pos hb hk
  have hcut := Nat.div_add_mod (n * a) (b * k)
  have hmod := Nat.mod_lt (n * a) hpos
  have hn := Nat.div_add_mod n k
  rw [Nat.mul_comm (b * k), ← Nat.mul_assoc] at hcut
  apply Nat.le_antisymm
  · refine (Nat.le_div_iff_mul_le hk).mpr (Nat.le_of_mul_le_mul_right ?_ (by omega : 0 < a))
    calc
      rescale b a (rescale a (b * k) n) * k * a
        = rescale b a (rescale a (b * k) n) * a * k := Nat.mul_right_comm _ _ _
      _ ≤ rescale a (b * k) n * b * k := Nat.mul_le_mul_right k (Nat.div_mul_le_self _ a)
      _ ≤ n * a := by
        rw [rescale]
        omega
  · refine (Nat.le_div_iff_mul_le (by omega)).mpr (Nat.le_of_mul_le_mul_right ?_ hk)
    calc
      n / k * a * k = k * (n / k) * a := by rw [Nat.mul_right_comm, Nat.mul_comm k]
      _ ≤ (n - 1) * a := Nat.mul_le_mul_right a (by omega)
      _ ≤ rescale a (b * k) n * b * k := by
        rw [rescale, Nat.sub_mul]
        omega

theorem rescale_mul {k : Nat} (hk : 0 < k) : rescale a (b * k) (n * k) = rescale a b n := by
  rw [rescale, rescale, Nat.mul_right_comm, Nat.mul_div_mul_right _ _ hk]

theorem rescale_mono {m : Nat} (h : m ≤ n) : rescale a b m ≤ rescale a b n :=
  Nat.div_le_div_right (Nat.mul_le_mul_right a h)

theorem rescale_lt_iff {m : Nat} (hab : b ≤ a) (hb : 0 < b) :
    rescale a b m < rescale a b n ↔ m < n := by
  constructor
  · intro h
    by_contra hle
    exact absurd (rescale_mono (Nat.le_of_not_lt hle)) (Nat.not_le.mpr h)
  · intro h
    have hstep : m * a + b ≤ n * a := by
      calc
        m * a + b ≤ m * a + a := Nat.add_le_add_left hab _
        _ = (m + 1) * a := (Nat.succ_mul m a).symm
        _ ≤ n * a := Nat.mul_le_mul_right a h
    calc
      m * a / b < m * a / b + 1 := Nat.lt_succ_self _
      _ = (m * a + b) / b := (Nat.add_div_right _ hb).symm
      _ ≤ n * a / b := Nat.div_le_div_right hstep

theorem rescale_coarsen {k : Nat} (hk : 0 < k) : rescale (a * k) b n / k = rescale a b n := by
  rw [rescale, rescale, Nat.div_div_eq_div_mul, ← Nat.mul_assoc, Nat.mul_div_mul_right _ _ hk]

theorem rescale_lt (h : n < b) (ha : 0 < a) : rescale a b n < a := by
  rw [rescale, Nat.div_lt_iff_lt_mul (by omega), Nat.mul_comm]
  exact Nat.mul_lt_mul_of_pos_left h ha

end Libtrace.Rescale
