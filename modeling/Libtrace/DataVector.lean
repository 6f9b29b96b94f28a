import Mathlib.Logic.Function.Basic
import Mathlib.Data.List.Perm.Basic

/-! `data-struct/vector.c`: one slot of `elements` stands for `element_size` bytes. Slots from
`size` on hold what `malloc` or `realloc` left there. Each function holds its locks throughout. -/

namespace Libtrace.DataVector

structure LibtraceVector (α : Type) where
  maxSize : Nat
  size : Nat
  elementSize : Nat
  elements : Nat → α
  fits : size ≤ maxSize
  room : 0 < maxSize

def vectorInit {α : Type} (memory : Nat → α) (elementSize : Nat) : LibtraceVector α :=
  ⟨128, 0, elementSize, memory, by omega, by omega⟩

def vectorPushBack {α : Type} (v : LibtraceVector α) (d : α) : LibtraceVector α where
  maxSize := if v.size ≥ v.maxSize then v.maxSize * 2 else v.maxSize
  size := v.size + 1
  elementSize := v.elementSize
  elements := Function.update v.elements v.size d
  fits := by
    have := v.room
    have := v.fits
    split <;> omega
  room := by
    have := v.room
    split <;> omega

def vectorGet {α : Type} (v : LibtraceVector α) (location : Nat) : Option α :=
  if location ≥ v.size then none else some (v.elements location)

def growMax (size need : Nat) : Nat → Nat → Nat
  | 0, max => max
  | fuel + 1, max => if max - size < need then growMax size need fuel (max * 2) else max

theorem growMax_fits {size need : Nat} (fuel : Nat) {max : Nat} (hroom : 0 < max)
    (hsize : size ≤ max) (hfuel : need ≤ fuel + (max - size)) :
    size + need ≤ growMax size need fuel max := by
  induction fuel generalizing max with
  | zero => rw [growMax]; omega
  | succ fuel ih =>
    rw [growMax]
    split_ifs with hmore
    · exact ih (by omega) (by omega) (by omega)
    · omega

theorem growMax_room {size need : Nat} (fuel : Nat) {max : Nat} (hroom : 0 < max) :
    0 < growMax size need fuel max := by
  induction fuel generalizing max with
  | zero => exact hroom
  | succ fuel ih =>
    rw [growMax]
    split_ifs
    · exact ih (by omega)
    · exact hroom

def vectorMove {α : Type} (dest src : LibtraceVector α) : LibtraceVector α where
  maxSize := growMax dest.size src.size src.size dest.maxSize
  size := dest.size + src.size
  elementSize := dest.elementSize
  elements k := if dest.size ≤ k ∧ k < dest.size + src.size
    then src.elements (k - dest.size) else dest.elements k
  fits := growMax_fits _ dest.room dest.fits (by omega)
  room := growMax_room _ dest.room

def vectorEmpty {α : Type} (v : LibtraceVector α) : LibtraceVector α :=
  { v with size := 0, fits := Nat.zero_le _ }

/-- `dest` and `src` afterwards, or `none` if the assertion on the element sizes fails. -/
def vectorAppend {α : Type} (dest src : LibtraceVector α) :
    Option (LibtraceVector α × LibtraceVector α) :=
  if dest.elementSize ≠ src.elementSize then none
  else if src.size = 0 then some (dest, src)
  else if dest.size = 0 then some (src, dest)
  else some (vectorMove dest src, vectorEmpty src)

def LibtraceVector.slots {α : Type} (v : LibtraceVector α) (n : Nat) : List α :=
  (List.range n).map v.elements

def LibtraceVector.toList {α : Type} (v : LibtraceVector α) : List α := v.slots v.size

/-- Told to sort `nmemb` elements a `qsort` sorts exactly those, in any order among equals. -/
structure Qsort {α : Type} (compar : α → α → Int) where
  run : Nat → (Nat → α) → Nat → α
  beyond : ∀ nmemb base k, nmemb ≤ k → run nmemb base k = base k
  perm : ∀ nmemb base, ((List.range nmemb).map (run nmemb base)).Perm ((List.range nmemb).map base)
  sorted : ∀ nmemb base,
    ((List.range nmemb).map (run nmemb base)).Pairwise fun a b => compar a b ≤ 0

/-- The number of elements passed to `qsort` is `element_size`. -/
def vectorQsort {α : Type} {compar : α → α → Int} (q : Qsort compar) (v : LibtraceVector α) :
    LibtraceVector α := { v with elements := q.run v.elementSize v.elements }

@[simp] theorem toList_length {α : Type} (v : LibtraceVector α) : v.toList.length = v.size := by
  simp [LibtraceVector.toList, LibtraceVector.slots]

@[simp] theorem vectorPushBack_toList {α : Type} (v : LibtraceVector α) (d : α) :
    (vectorPushBack v d).toList = v.toList ++ [d] := by
  simp only [LibtraceVector.toList, LibtraceVector.slots, vectorPushBack, List.range_succ,
    List.map_append, List.map_cons, List.map_nil, Function.update_self]
  congr 1
  refine List.map_congr_left fun k hk => Function.update_of_ne ?_ ..
  exact Nat.ne_of_lt (List.mem_range.mp hk)

theorem vectorGet_of_lt {α : Type} {v : LibtraceVector α} {k : Nat} (hk : k < v.size) :
    vectorGet v k = some (v.elements k) := if_neg (Nat.not_le_of_lt hk)

theorem vectorAppend_spec {α : Type} (dest src : LibtraceVector α)
    (h : dest.elementSize = src.elementSize) :
    ∃ dest' src', vectorAppend dest src = some (dest', src') ∧
      dest'.toList = dest.toList ++ src.toList ∧ src'.size = 0 ∧
      dest'.elementSize = dest.elementSize ∧ src'.elementSize = src.elementSize := by
  have nil_of_size : ∀ v : LibtraceVector α, v.size = 0 → v.toList = [] := fun v hv =>
    List.length_eq_zero_iff.mp (by simp [hv])
  unfold vectorAppend
  rw [if_neg (by simp [h])]
  by_cases hsrc : src.size = 0
  · exact ⟨dest, src, by rw [if_pos hsrc], by simp [nil_of_size src hsrc], hsrc, rfl, rfl⟩
  rw [if_neg hsrc]
  by_cases hdest : dest.size = 0
  · exact ⟨src, dest, by rw [if_pos hdest], by simp [nil_of_size dest hdest], hdest,
      h.symm, h⟩
  rw [if_neg hdest]
  refine ⟨_, _, rfl, ?_, rfl, rfl, rfl⟩
  simp only [LibtraceVector.toList, LibtraceVector.slots, vectorMove, List.range_add,
    List.map_append, List.map_map]
  congr 1
  · refine List.map_congr_left fun k hk => ?_
    rw [if_neg (by simp at hk; omega)]
  · refine List.map_congr_left fun k hk => ?_
    rw [List.mem_range] at hk
    simp [Function.comp, hk]

end Libtrace.DataVector
