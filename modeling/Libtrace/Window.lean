import Mathlib.Data.List.Basic

/-! A stretch of memory between a read and a write position, seen as a list. -/

namespace Libtrace.Window

variable {α : Type}

def window (m : Nat → α) (r w : Nat) : List α := (List.range (w - r)).map fun i => m (r + i)

def store (m : Nat → α) (p : Nat) (data : List α) : Nat → α := fun i =>
  if p ≤ i then data[i - p]?.getD (m i) else m i

variable (m : Nat → α)

@[simp] theorem length_window (r w : Nat) : (window m r w).length = w - r := by simp [window]

@[simp] theorem window_self (r : Nat) : window m r r = [] := by simp [window]

variable {w r i p : Nat}

theorem getElem?_window (h : r + i < w) : (window m r w)[i]? = some (m (r + i)) := by
  have hi : i < w - r := by omega
  simp [window, hi]

theorem window_append {k : Nat} (hr : r ≤ k) (hw : k ≤ w) :
    window m r w = window m r k ++ window m k w := by
  have hlen : w - r = (k - r) + (w - k) := by omega
  simp only [window, hlen, List.range_add, List.map_append, List.map_map]
  congr 1
  refine List.map_congr_left fun i _ => ?_
  simp only [Function.comp]
  congr 1
  omega

theorem window_congr {m' : Nat → α} (h : ∀ i, r ≤ i → i < w → m' i = m i) :
    window m' r w = window m r w := by
  refine List.map_congr_left fun i hi => h _ (by omega) ?_
  have := List.mem_range.mp hi
  omega

theorem window_store_data (p : Nat) (data : List α) :
    window (store m p data) p (p + data.length) = data := by
  refine List.ext_getElem? fun i => ?_
  by_cases hi : i < data.length
  · rw [getElem?_window _ (by omega), store, if_pos (by omega), Nat.add_sub_cancel_left,
      List.getElem?_eq_getElem hi]
    rfl
  · rw [List.getElem?_eq_none (by simp; omega), List.getElem?_eq_none (by omega)]

@[simp] theorem store_nil (p : Nat) : store m p [] = m := by
  funext i
  simp [store]

theorem window_store_of_le (h : w ≤ p) (data : List α) :
    window (store m p data) r w = window m r w :=
  window_congr m fun i _ hi => by rw [store, if_neg (by omega)]

theorem store_inside {data : List α} (h : i < data.length) : store m p data (p + i) = data[i] := by
  rw [store, if_pos (by omega), Nat.add_sub_cancel_left, List.getElem?_eq_getElem h]
  rfl

theorem store_outside {data : List α} (h : i < p ∨ p + data.length ≤ i) :
    store m p data i = m i := by
  unfold store
  split_ifs with hp
  · rw [List.getElem?_eq_none (by omega)]
    rfl
  · rfl

theorem store_window (r w : Nat) : store m r (window m r w) = m := by
  funext i
  by_cases h : r ≤ i ∧ i < w
  · obtain ⟨k, rfl⟩ := Nat.exists_eq_add_of_le h.1
    rw [store, if_pos h.1, Nat.add_sub_cancel_left, getElem?_window m h.2]
    rfl
  · exact store_outside m (by rw [length_window]; omega)

theorem window_store_part (p : Nat) {k : Nat} (data : List α) (h : i + k ≤ data.length) :
    window (store m p data) (p + i) (p + i + k) = (data.drop i).take k := by
  refine List.ext_getElem? fun j => ?_
  by_cases hj : j < k
  · rw [getElem?_window _ (by omega), store, if_pos (by omega), List.getElem?_take_of_lt hj,
      List.getElem?_drop, show p + i + j - p = i + j by omega, List.getElem?_eq_getElem (by omega)]
    rfl
  · rw [List.getElem?_eq_none (by simp; omega), List.getElem?_eq_none (by simp; omega)]

theorem window_store_between {a b c : List α} {j : Nat} (hi : a.length = i)
    (hj : i + b.length = j) : window (store m 0 (a ++ (b ++ c))) i j = b := by
  have h := window_store_part m 0 (a ++ (b ++ c)) (i := i) (k := b.length) (by simp; omega)
  rw [Nat.zero_add, ← hi, List.drop_left, List.take_left] at h
  rw [← hj, ← hi]
  exact h

theorem window_store (h : r ≤ w) (data : List α) :
    window (store m w data) r (w + data.length) = window m r w ++ data := by
  rw [window_append _ h (Nat.le_add_right w _), window_store_data,
    window_store_of_le m (Nat.le_refl w)]

end Libtrace.Window
