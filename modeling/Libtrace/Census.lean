import Mathlib.Algebra.BigOperators.Group.Finset.Basic
import Mathlib.Data.Fintype.Card

/-! Finitely many parties, each at some place: how many are at places of one kind, and what moving
one changes. -/

namespace Libtrace.Census
open Function

variable {τ β : Type} [Fintype τ]

def count (p : β → Bool) (f : τ → β) : Nat :=
  (Finset.univ.filter fun t => p (f t) = true).card

theorem count_add_le (p q : β → Bool) (h : ∀ b, p b = true → q b = false) (f : τ → β) :
    count p f + count q f ≤ Fintype.card τ := by
  classical
  rw [count, count, ← Finset.card_union_of_disjoint]
  · exact Finset.card_le_univ _
  · refine Finset.disjoint_filter.mpr fun t _ hp => ?_
    rw [h _ hp]
    exact Bool.false_ne_true

section

variable (p : β → Bool) (f : τ → β)
include p f

theorem count_pos (t : τ) (h : p (f t) = true) : 0 < count p f :=
  Finset.card_pos.mpr ⟨t, Finset.mem_filter.mpr ⟨Finset.mem_univ t, h⟩⟩

theorem count_eq_card_iff :
    count p f = Fintype.card τ ↔ ∀ t, p (f t) = true := by
  rw [count, ← Finset.card_univ, Finset.card_filter_eq_iff]
  simp

theorem count_eq_zero_iff : count p f = 0 ↔ ∀ t, p (f t) = false := by
  rw [count, Finset.card_filter_eq_zero_iff]
  simp

end

variable [DecidableEq τ]

theorem count_eq_erase (p : β → Bool) (f : τ → β) (t : τ) :
    count p f = ((Finset.univ.erase t).filter fun u => p (f u) = true).card + (p (f t)).toNat := by
  rw [count, ← Finset.insert_erase (Finset.mem_univ t), Finset.filter_insert]
  split_ifs with h
  · rw [Finset.card_insert_of_notMem (by simp), h]
    simp
  · rw [Bool.eq_false_iff.mpr h]
    simp

theorem count_update (p : β → Bool) (f : τ → β) (t : τ) (b : β) :
    count p (update f t b) + (p (f t)).toNat = count p f + (p b).toNat := by
  have hrest : ((Finset.univ.erase t).filter fun u => p (update f t b u) = true) =
      (Finset.univ.erase t).filter fun u => p (f u) = true := by
    refine Finset.filter_congr fun u hu => ?_
    rw [update_of_ne (Finset.ne_of_mem_erase hu)]
  rw [count_eq_erase p (update f t b) t, count_eq_erase p f t, hrest,
    update_self]
  omega

theorem sum_update {M : Type} [AddCommMonoid M] (g : β → M) (f : τ → β) (t : τ) (b : β) :
    (∑ u, g (update f t b u)) + g (f t) = (∑ u, g (f u)) + g b := by
  have hrest : ∑ u ∈ Finset.univ.erase t, g (update f t b u) =
      ∑ u ∈ Finset.univ.erase t, g (f u) := by
    refine Finset.sum_congr rfl fun u hu => ?_
    rw [update_of_ne (Finset.ne_of_mem_erase hu)]
  rw [← Finset.sum_erase_add _ _ (Finset.mem_univ t), hrest, update_self,
    ← Finset.sum_erase_add Finset.univ (fun u => g (f u)) (Finset.mem_univ t), add_right_comm]

end Libtrace.Census
