import Mathlib.Data.List.Basic

/-! Common prefixes of bit strings, and maps that mask each bit by something that depends on the
bits before it. -/

namespace Libtrace.CommonPrefix

def commonPrefix (f g : Nat → Bool) : Nat → Nat
  | 0 => 0
  | w + 1 => if commonPrefix f g w = w ∧ f w = g w then w + 1 else commonPrefix f g w

section

variable {f g : Nat → Bool} {w : Nat}

theorem commonPrefix_le (f g : Nat → Bool) (w : Nat) : commonPrefix f g w ≤ w := by
  induction w with
  | zero => exact Nat.le_refl 0
  | succ w ih =>
    simp only [commonPrefix]
    split_ifs
    · exact Nat.le_refl _
    · exact Nat.le_succ_of_le ih

theorem agree_below_commonPrefix {i : Nat} (h : i < commonPrefix f g w) : f i = g i := by
  induction w with
  | zero => exact absurd h (Nat.not_lt_zero i)
  | succ w ih =>
    simp only [commonPrefix] at h
    split_ifs at h with hfull
    · by_cases hi : i = w
      · exact hi ▸ hfull.2
      · exact ih (by omega)
    · exact ih h

theorem differ_at_commonPrefix (h : commonPrefix f g w < w) :
    f (commonPrefix f g w) ≠ g (commonPrefix f g w) := by
  induction w with
  | zero => exact absurd h (Nat.not_lt_zero _)
  | succ w ih =>
    simp only [commonPrefix] at h ⊢
    split_ifs at h ⊢ with hfull
    · omega
    · have hle := commonPrefix_le f g w
      by_cases hw : commonPrefix f g w = w
      · rw [hw]
        exact fun heq => hfull ⟨hw, heq⟩
      · exact ih (by omega)

theorem commonPrefix_unique {n : Nat} (hn : n ≤ w) (hagree : ∀ i < n, f i = g i)
    (hdiffer : n < w → f n ≠ g n) : commonPrefix f g w = n := by
  have hle := commonPrefix_le f g w
  obtain hlt | heq | hgt := Nat.lt_trichotomy (commonPrefix f g w) n
  · exact absurd (hagree _ hlt) (differ_at_commonPrefix (by omega))
  · exact heq
  · exact absurd (agree_below_commonPrefix hgt) (hdiffer (by omega))

end

variable {α : Type} {bits : α → Nat → Bool} {w : Nat} {anon : α → α}

/-- Each bit of `anon a` is the bit of `a` under a mask that is the same for all strings with the
same bits before it. -/
structure PrefixXor (bits : α → Nat → Bool) (w : Nat) (anon : α → α)
    (mask : α → Nat → Bool) : Prop where
  masked : ∀ a i, i < w → bits (anon a) i = (bits a i ^^ mask a i)
  causal : ∀ a b i, i < w → (∀ j < i, bits a j = bits b j) → mask a i = mask b i

variable {mask : α → Nat → Bool}

section

variable (h : PrefixXor bits w anon mask)
include h

theorem PrefixXor.bit_eq_iff {a b : α} {i : Nat} (hi : i < w)
    (hbefore : ∀ j < i, bits a j = bits b j) :
    bits (anon a) i = bits (anon b) i ↔ bits a i = bits b i := by
  rw [h.masked a i hi, h.masked b i hi, h.causal a b i hi hbefore]
  exact Bool.xor_left_inj

theorem PrefixXor.commonPrefix_eq (a b : α) :
    commonPrefix (bits (anon a)) (bits (anon b)) w = commonPrefix (bits a) (bits b) w := by
  have hle := commonPrefix_le (bits a) (bits b) w
  refine commonPrefix_unique hle (fun i hi => ?_) fun hlt => ?_
  · rw [h.bit_eq_iff (by omega) fun j hj => agree_below_commonPrefix (Nat.lt_trans hj hi)]
    exact agree_below_commonPrefix hi
  · rw [Ne, h.bit_eq_iff hlt fun j hj => agree_below_commonPrefix hj]
    exact differ_at_commonPrefix hlt

theorem PrefixXor.injective (hext : ∀ a b, (∀ i < w, bits a i = bits b i) → a = b) :
    Function.Injective anon := by
  intro a b heq
  have hfull : commonPrefix (bits a) (bits b) w = w := by
    rw [← h.commonPrefix_eq a b, heq]
    exact commonPrefix_unique (Nat.le_refl w) (fun _ _ => rfl) fun hw => absurd hw (Nat.lt_irrefl w)
  exact hext a b fun i hi => agree_below_commonPrefix (hfull.symm ▸ hi)

end

end Libtrace.CommonPrefix
