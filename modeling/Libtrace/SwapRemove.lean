import Mathlib.Data.List.Basic
import Mathlib.Data.List.Nodup

/-! Unordered arrays: the last element takes the place of a removed one; two elements are
exchanged. -/

namespace Libtrace.SwapRemove

variable {α : Type}

def swapRemove (xs : List α) (i : Nat) : List α :=
  match xs.getLast? with
  | some x => (xs.set i x).dropLast
  | none => xs

theorem swapRemove_concat (xs : List α) (x : α) (i : Nat) (hi : i < xs.length) :
    swapRemove (xs ++ [x]) i = xs.set i x := by
  rw [swapRemove, List.getLast?_concat]
  dsimp only
  rw [List.set_append_left i x hi, List.dropLast_concat]

theorem swapRemove_last (xs : List α) (x : α) : swapRemove (xs ++ [x]) xs.length = xs := by
  rw [swapRemove, List.getLast?_concat]
  dsimp only
  rw [List.set_append_right _ x (Nat.le_refl _), Nat.sub_self]
  exact List.dropLast_concat

theorem set_perm (xs : List α) (x : α) (i : Nat) (a : α) (ha : xs[i]? = some a) :
    (a :: xs.set i x).Perm (xs ++ [x]) := by
  induction xs generalizing i with
  | nil => cases ha
  | cons y ys ih =>
    cases i with
    | zero =>
      cases ha
      exact (List.perm_append_singleton x ys).symm.cons a
    | succ i => exact (List.Perm.swap y a _).trans ((ih i ha).cons y)

theorem swapRemove_perm (xs : List α) (i : Nat) (a : α) (ha : xs[i]? = some a) :
    (a :: swapRemove xs i).Perm xs := by
  obtain rfl | ⟨ys, x, rfl⟩ := List.eq_nil_or_concat' xs
  · cases ha
  · obtain ⟨hi, -⟩ := List.getElem?_eq_some_iff.mp ha
    rw [List.length_append, List.length_singleton] at hi
    by_cases hlt : i < ys.length
    · rw [List.getElem?_append_left hlt] at ha
      rw [swapRemove_concat ys x i hlt]
      exact set_perm ys x i a ha
    · have hlast : i = ys.length := by omega
      subst hlast
      rw [List.getElem?_concat_length] at ha
      cases ha
      rw [swapRemove_last]
      exact (List.perm_append_singleton _ ys).symm

variable {xs : List α} {a : α} {i : Nat}

theorem getElem?_of_idxOf? [DecidableEq α] (hi : xs.idxOf? a = some i) : xs[i]? = some a := by
  obtain ⟨hlt, heq, -⟩ := List.idxOf?_eq_some_iff.mp hi
  exact List.getElem?_eq_some_iff.mpr ⟨hlt, heq⟩

theorem mem_swapRemove (hnodup : xs.Nodup) (ha : xs[i]? = some a) (y : α) :
    y ∈ swapRemove xs i ↔ y ∈ xs ∧ y ≠ a := by
  have hperm := swapRemove_perm xs i a ha
  have hnot := (List.nodup_cons.mp (hperm.nodup_iff.mpr hnodup)).1
  rw [← hperm.mem_iff, List.mem_cons]
  constructor
  · intro hy
    exact ⟨Or.inr hy, fun heq => hnot (heq ▸ hy)⟩
  · rintro ⟨rfl | hy, hne⟩
    · exact absurd rfl hne
    · exact hy

theorem nodup_swapRemove (hnodup : xs.Nodup) (ha : xs[i]? = some a) : (swapRemove xs i).Nodup :=
  (List.nodup_cons.mp ((swapRemove_perm xs i a ha).nodup_iff.mpr hnodup)).2

theorem length_swapRemove (xs : List α) (i : Nat) : (swapRemove xs i).length = xs.length - 1 := by
  obtain rfl | ⟨ys, x, rfl⟩ := List.eq_nil_or_concat' xs
  · rfl
  · rw [swapRemove, List.getLast?_concat]
    rw [List.length_dropLast, List.length_set]

theorem map_swapRemove {β : Type} (f : α → β) (xs : List α) (i : Nat) :
    (swapRemove xs i).map f = swapRemove (xs.map f) i := by
  obtain rfl | ⟨ys, x, rfl⟩ := List.eq_nil_or_concat' xs
  · rfl
  · rw [List.map_append, List.map_singleton, swapRemove, swapRemove, List.getLast?_concat,
      List.getLast?_concat]
    rw [List.map_dropLast, List.map_set, List.map_append, List.map_singleton]

def swap (xs : List α) (i j : Nat) : List α :=
  match xs[i]?, xs[j]? with
  | some a, some b => (xs.set i b).set j a
  | _, _ => xs

/-- The first element behind `middle` goes to where `middle` starts. -/
theorem swap_front (front middle : List α) (x : α) (rest : List α) :
    ∃ middle', swap (front ++ middle ++ x :: rest) front.length (front.length + middle.length) =
      front ++ x :: middle' ++ rest ∧ middle'.Perm middle := by
  have hx : (front ++ middle ++ x :: rest)[front.length + middle.length]? = some x := by
    rw [← List.length_append, List.getElem?_append_right (Nat.le_refl _), Nat.sub_self]
    rfl
  cases middle with
  | nil =>
    refine ⟨[], ?_, .refl _⟩
    rw [swap, hx]
    simp [List.set_append_right]
  | cons d ds =>
    refine ⟨ds ++ [d], ?_, List.perm_append_singleton d ds⟩
    have hd : (front ++ d :: ds ++ x :: rest)[front.length]? = some d := by
      rw [List.append_assoc, List.getElem?_append_right (Nat.le_refl _), Nat.sub_self]
      rfl
    rw [swap, hd, hx]
    simp [List.set_append_right]

end Libtrace.SwapRemove
