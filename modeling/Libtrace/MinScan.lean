import Mathlib.Order.Lattice
import Mathlib.Data.List.Basic

/-! One pass over a list that keeps the last eligible element of smallest key, starting from an
earlier best. -/

namespace Libtrace.MinScan

variable {ι κ : Type} [LinearOrder κ]

def lastMin (live : ι → Bool) (key : ι → κ) (best : κ × Option ι) (xs : List ι) :
    κ × Option ι :=
  xs.foldl (fun best x => if live x ∧ best.1 ≥ key x then (key x, some x) else best) best

section

variable (live : ι → Bool) (key : ι → κ) (best : κ × Option ι)
include live key best

theorem lastMin_cons (x : ι) (xs : List ι) :
    lastMin live key best (x :: xs) =
      lastMin live key (if live x ∧ best.1 ≥ key x then (key x, some x) else best) xs := rfl

theorem lastMin_le_best (xs : List ι) : (lastMin live key best xs).1 ≤ best.1 := by
  induction xs generalizing best with
  | nil => exact le_refl _
  | cons x xs ih =>
    rw [lastMin_cons]
    refine (ih _).trans ?_
    split_ifs with h
    · exact h.2
    · exact le_refl _

theorem lastMin_le_key (xs : List ι) (x : ι) (hx : x ∈ xs) (hl : live x = true) :
    (lastMin live key best xs).1 ≤ key x := by
  induction xs generalizing best with
  | nil => simp at hx
  | cons y xs ih =>
    rw [lastMin_cons]
    rcases List.mem_cons.mp hx with rfl | hx
    · refine (lastMin_le_best live key _ xs).trans ?_
      split_ifs with h
      · exact le_refl _
      · simp only [hl, true_and, ge_iff_le, not_le] at h
        exact h.le
    · exact ih _ hx

theorem lastMin_choice (xs : List ι) :
    lastMin live key best xs = best ∨
      ∃ x ∈ xs, live x = true ∧ lastMin live key best xs = (key x, some x) := by
  induction xs generalizing best with
  | nil => exact .inl rfl
  | cons y xs ih =>
    rw [lastMin_cons]
    rcases ih (if live y ∧ best.1 ≥ key y then (key y, some y) else best) with h | ⟨x, hx, hl, h⟩
    · rw [h]
      split_ifs with hy
      · exact .inr ⟨y, List.mem_cons_self, hy.1, rfl⟩
      · exact .inl rfl
    · exact .inr ⟨x, List.mem_cons_of_mem _ hx, hl, h⟩

end

theorem lastMin_isSome (live : ι → Bool) (key : ι → κ) (top : κ) (xs : List ι)
    (htop : ∀ x ∈ xs, live x = true → key x ≤ top) (x : ι) (hx : x ∈ xs) (hl : live x = true) :
    ∃ y ∈ xs, live y = true ∧ lastMin live key (top, none) xs = (key y, some y) := by
  induction xs with
  | nil => simp at hx
  | cons y xs ih =>
    by_cases hy : live y = true
    · rw [lastMin_cons, if_pos ⟨hy, htop y List.mem_cons_self hy⟩]
      rcases lastMin_choice live key (key y, some y) xs with h | ⟨z, hz, hzl, h⟩
      · exact ⟨y, List.mem_cons_self, hy, h⟩
      · exact ⟨z, List.mem_cons_of_mem _ hz, hzl, h⟩
    · have hx' : x ∈ xs := by
        rcases List.mem_cons.mp hx with rfl | h
        · exact absurd hl hy
        · exact h
      rw [lastMin_cons, if_neg (fun h => hy h.1)]
      obtain ⟨z, hz, hzl, h⟩ := ih (fun x hx => htop x (List.mem_cons_of_mem _ hx)) hx'
      exact ⟨z, List.mem_cons_of_mem _ hz, hzl, h⟩

end Libtrace.MinScan
