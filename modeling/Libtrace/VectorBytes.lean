import Libtrace.Exec
import Libtrace.Window

/-! `data-struct/vector.c` with its memory: an element is `element_size` bytes in a block of
`malloc` that grows with `realloc`. The locks are left out, and no size overflows. -/

namespace Libtrace.VectorBytes
open Exec Window Function

inductive Fault where
  /-- A byte outside a block is read or written. -/
  | outOfRange
  | assertion
  | unfinished
  deriving DecidableEq, Repr

structure Block where
  size : Nat
  bytes : Nat → UInt8

def Block.read (b : Block) (i : Nat) : Except Fault UInt8 :=
  if i < b.size then .ok (b.bytes i) else .error .outOfRange

def Block.write (b : Block) (i : Nat) (c : UInt8) : Except Fault Block :=
  if i < b.size then .ok { b with bytes := update b.bytes i c } else .error .outOfRange

def Block.copyOut (b : Block) (i n : Nat) : Except Fault (List UInt8) :=
  if i + n ≤ b.size then .ok (window b.bytes i (i + n)) else .error .outOfRange

def Block.copyIn (b : Block) (i : Nat) (data : List UInt8) : Except Fault Block :=
  if i + data.length ≤ b.size then .ok { b with bytes := store b.bytes i data }
  else .error .outOfRange

def Block.realloc (b : Block) (n : Nat) (memory : Nat → UInt8) : Block :=
  ⟨n, fun i => if i < b.size ∧ i < n then b.bytes i else memory i⟩

structure LibtraceVector where
  maxSize : Nat
  size : Nat
  elementSize : Nat
  elements : Block

def vectorInit (elementSize : Nat) (memory : Nat → UInt8) : LibtraceVector :=
  ⟨128, 0, elementSize, ⟨128 * elementSize, memory⟩⟩

variable (v : LibtraceVector)

def vectorResize (max : Nat) (memory : Nat → UInt8) : LibtraceVector :=
  { v with maxSize := max, elements := v.elements.realloc (max * v.elementSize) memory }

def vectorStore (data : List UInt8) (count : Nat) : Except Fault LibtraceVector := do
  let elements ← v.elements.copyIn (v.size * v.elementSize) data
  return { v with elements := elements, size := v.size + count }

def vectorPushBack (d : List UInt8) (memory : Nat → UInt8) : Except Fault LibtraceVector :=
  if v.size ≥ v.maxSize then vectorStore (vectorResize v (v.maxSize * 2) memory) d 1
  else vectorStore v d 1

def vectorGet (location : Nat) : Except Fault (Option (List UInt8)) :=
  if location ≥ v.size then .ok none
  else some <$> v.elements.copyOut (location * v.elementSize) v.elementSize

def moveDown (elementSize : Nat) : Nat → Nat → Block → Except Fault Block
  | 0, _, b => .ok b
  | n + 1, i, b => do
    let c ← b.read (i + elementSize)
    let b ← b.write i c
    moveDown elementSize n (i + 1) b

def vectorRemoveFront : Except Fault (LibtraceVector × Nat) :=
  if v.size = 0 then .ok (v, 0)
  else do
    let elements ← moveDown v.elementSize ((v.size - 1) * v.elementSize) 0 v.elements
    return ({ v with size := v.size - 1, elements := elements }, 1)

def vectorEmpty : LibtraceVector := { v with size := 0 }

def growMax (size need : Nat) : Nat → Nat → Except Fault Nat
  | 0, _ => .error .unfinished
  | rounds + 1, max => if max - size < need then growMax size need rounds (max * 2) else .ok max

def vectorAppend (dest src : LibtraceVector) (memory : Nat → UInt8) :
    Except Fault (LibtraceVector × LibtraceVector) :=
  if dest.elementSize ≠ src.elementSize then .error .assertion
  else if src.size = 0 then .ok (dest, src)
  else if dest.size = 0 then .ok (src, dest)
  else do
    let max ← growMax dest.size src.size (src.size + 1) dest.maxSize
    let data ← src.elements.copyOut 0 (src.elementSize * src.size)
    let new ← vectorStore (if dest.maxSize ≠ max then vectorResize dest max memory else dest) data
      src.size
    return (new, { src with size := 0 })

def Element (n : Nat) : Type := { d : List UInt8 // d.length = n }

inductive Operation (ι : Type) (n : Nat) where
  | pushBack (v : ι) (d : Element n) (memory : Nat → UInt8)
  | append (dest src : ι) (different : dest ≠ src) (memory : Nat → UInt8)
  | removeFront (v : ι)
  | empty (v : ι)
  | get (v : ι) (location : Nat)
  | getSize (v : ι)

inductive Result where
  | done
  | value (n : Nat)
  | element (d : Option (List UInt8))
  deriving DecidableEq

variable {ι : Type} [DecidableEq ι] {n : Nat}

def exec (vs : ι → LibtraceVector) : Operation ι n → Except Fault ((ι → LibtraceVector) × Result)
  | .pushBack v d memory => do
    let new ← vectorPushBack (vs v) d.1 memory
    return (update vs v new, .done)
  | .append dest src _ memory => do
    let new ← vectorAppend (vs dest) (vs src) memory
    return (update (update vs dest new.1) src new.2, .done)
  | .removeFront v => do
    let new ← vectorRemoveFront (vs v)
    return (update vs v new.1, .value new.2)
  | .empty v => .ok (update vs v (vectorEmpty (vs v)), .done)
  | .get v location => do
    let d ← vectorGet (vs v) location
    return (vs, .element d)
  | .getSize v => .ok (vs, .value (vs v).size)

def spec (ls : ι → List (Element n)) : Operation ι n → (ι → List (Element n)) × Result
  | .pushBack v d _ => (update ls v (ls v ++ [d]), .done)
  | .append dest src _ _ =>
    (update (update ls dest (ls dest ++ ls src)) src [], .done)
  | .removeFront v => (update ls v (ls v).tail, .value (if ls v = [] then 0 else 1))
  | .empty v => (update ls v [], .done)
  | .get v location => (ls, .element ((ls v)[location]?.map Subtype.val))
  | .getSize v => (ls, .value (ls v).length)

def bytes (l : List (Element n)) : List UInt8 := l.flatMap Subtype.val

structure Represents (v : LibtraceVector) (l : List (Element n)) : Prop where
  elementSize : v.elementSize = n
  size : v.size = l.length
  contents : window v.elements.bytes 0 (v.size * n) = bytes l
  fits : v.size ≤ v.maxSize
  room : 0 < v.maxSize
  block : v.elements.size = v.maxSize * n

section

omit [DecidableEq ι]

@[simp] theorem bytes_append (l l' : List (Element n)) : bytes (l ++ l') = bytes l ++ bytes l' :=
  List.flatMap_append

@[simp] theorem bytes_cons (d : Element n) (l : List (Element n)) :
    bytes (d :: l) = d.1 ++ bytes l := rfl

theorem length_bytes (l : List (Element n)) : (bytes l).length = l.length * n := by
  induction l with
  | nil => exact (Nat.zero_mul n).symm
  | cons d l ih => rw [bytes_cons, List.length_append, d.2, ih, List.length_cons, Nat.succ_mul,
      Nat.add_comm]

theorem realloc_window (b : Block) {size w : Nat} (memory : Nat → UInt8) (hold : w ≤ b.size)
    (hnew : w ≤ size) : window (b.realloc size memory).bytes 0 w = window b.bytes 0 w :=
  window_congr _ fun _ _ hi => if_pos ⟨Nat.lt_of_lt_of_le hi hold, Nat.lt_of_lt_of_le hi hnew⟩

end

section

omit [DecidableEq ι]

variable {v dest src : LibtraceVector} {l ldest lsrc : List (Element n)}

theorem vectorInit_represents (n : Nat) (memory : Nat → UInt8) :
    Represents (vectorInit n memory) ([] : List (Element n)) where
  elementSize := rfl
  size := rfl
  contents := by rw [vectorInit, Nat.zero_mul, window_self]; rfl
  fits := Nat.zero_le _
  room := Nat.succ_pos _
  block := rfl

section

variable (h : Represents v l)
include h

theorem Represents.bytes_le : l.length * n ≤ v.elements.size := by
  rw [h.block, ← h.size]
  exact Nat.mul_le_mul_right n h.fits

theorem Represents.resize {max : Nat} (hmax : v.maxSize ≤ max) (memory : Nat → UInt8) :
    Represents (vectorResize v max memory) l where
  elementSize := h.elementSize
  size := h.size
  contents := by
    have hnew : l.length * n ≤ max * v.elementSize := by
      rw [← h.size, h.elementSize]
      exact Nat.mul_le_mul_right n (Nat.le_trans h.fits hmax)
    change window (v.elements.realloc _ memory).bytes 0 (v.size * n) = _
    rw [h.size, realloc_window _ _ h.bytes_le hnew, ← h.size, h.contents]
  fits := Nat.le_trans h.fits hmax
  room := Nat.lt_of_lt_of_le h.room hmax
  block := by rw [← h.elementSize]; rfl

theorem Represents.store (more : List (Element n)) (hroom : l.length + more.length ≤ v.maxSize) :
    ∃ v', vectorStore v (bytes more) more.length = .ok v' ∧ Represents v' (l ++ more) := by
  have hbytes := Nat.mul_le_mul_right n hroom
  rw [Nat.add_mul] at hbytes
  refine ⟨{ v with
    elements := { v.elements with
      bytes := Window.store v.elements.bytes (l.length * n) (bytes more) }
    size := v.size + more.length }, ?_, ?_⟩
  · rw [vectorStore, h.size, h.elementSize, Block.copyIn,
      if_pos (by rw [length_bytes, h.block]; exact hbytes)]
    rfl
  · refine ⟨h.elementSize, by rw [List.length_append, ← h.size], ?_, by rw [h.size]; exact hroom,
      h.room, h.block⟩
    rw [h.size, Nat.add_mul, ← length_bytes more, window_store _ (Nat.zero_le _), ← h.size,
      h.contents, bytes_append]

theorem Represents.pushBack (d : Element n) (memory : Nat → UInt8) :
    ∃ v', vectorPushBack v d.1 memory = .ok v' ∧ Represents v' (l ++ [d]) := by
  have hfits := h.fits
  have hroom := h.room
  have hsize := h.size
  have hone : d.1 = bytes [d] := (List.append_nil _).symm
  rw [vectorPushBack, hone]
  by_cases hfull : v.size ≥ v.maxSize
  · rw [if_pos hfull]
    refine (h.resize (by omega) memory).store [d] ?_
    change l.length + 1 ≤ v.maxSize * 2
    omega
  · rw [if_neg hfull]
    refine h.store [d] ?_
    rw [List.length_singleton]
    omega

theorem Represents.window_from {k : Nat} (hk : k ≤ l.length) :
    window v.elements.bytes (k * n) (l.length * n) = bytes (l.drop k) := by
  have hcontents := h.contents
  rw [h.size, window_append _ (Nat.zero_le (k * n)) (Nat.mul_le_mul_right n hk),
    ← List.take_append_drop k l, bytes_append, List.take_append_drop] at hcontents
  refine List.append_inj_right hcontents ?_
  rw [length_window, length_bytes, List.length_take_of_le hk, Nat.sub_zero]

theorem Represents.get (location : Nat) :
    vectorGet v location = .ok (l[location]?.map Subtype.val) := by
  rw [vectorGet, h.size, h.elementSize]
  by_cases hlt : location < l.length
  · have hnext : location * n + n ≤ l.length * n := by
      rw [← Nat.succ_mul]
      exact Nat.mul_le_mul_right n hlt
    have hfrom := h.window_from (Nat.le_of_lt hlt)
    rw [List.drop_eq_getElem_cons hlt, bytes_cons,
      window_append _ (Nat.le_add_right _ n) hnext] at hfrom
    have hone := List.append_inj_left hfrom (by rw [length_window, l[location].2]; omega)
    rw [if_neg (Nat.not_le_of_lt hlt), Block.copyOut, if_pos (Nat.le_trans hnext h.bytes_le), hone,
      List.getElem?_eq_getElem hlt]
    rfl
  · rw [if_pos (Nat.le_of_not_lt hlt), List.getElem?_eq_none (Nat.le_of_not_lt hlt)]
    rfl

end

theorem moveDown_ok {count i : Nat} {b : Block} (h : i + count + n ≤ b.size) :
    ∃ b', moveDown n count i b = .ok b' ∧ b'.size = b.size ∧
      ∀ j, b'.bytes j = if i ≤ j ∧ j < i + count then b.bytes (j + n) else b.bytes j := by
  induction count generalizing i b with
  | zero => exact ⟨b, rfl, rfl, fun j => (if_neg (by omega)).symm⟩
  | succ count ih =>
    obtain ⟨b', hmove, hsize, hbytes⟩ :=
      ih (i := i + 1) (b := { b with bytes := update b.bytes i (b.bytes (i + n)) })
        (by dsimp only; omega)
    refine ⟨b', ?_, hsize, fun j => ?_⟩
    · rw [moveDown, Block.read, if_pos (by omega), ok_bind, Block.write, if_pos (by omega), ok_bind]
      exact hmove
    · -- What is read lies behind everything that was written.
      rw [hbytes]
      by_cases hj : i + 1 ≤ j ∧ j < i + 1 + count
      · rw [if_pos hj, if_pos (by omega)]
        exact update_of_ne (by omega) ..
      · rw [if_neg hj]
        by_cases hi : j = i
        · rw [hi, if_pos (by omega)]
          exact update_self ..
        · rw [if_neg (by omega)]
          exact update_of_ne hi ..

theorem Represents.removeFront (h : Represents v l) :
    ∃ v', vectorRemoveFront v = .ok (v', if l = [] then 0 else 1) ∧ Represents v' l.tail := by
  have hsize := h.size
  rw [vectorRemoveFront]
  cases l with
  | nil => exact ⟨v, if_pos hsize, h⟩
  | cons d l =>
    have hlen : v.size - 1 = l.length := by rw [hsize]; rfl
    have hbytes := h.bytes_le
    rw [List.length_cons, Nat.succ_mul] at hbytes
    obtain ⟨b', hmove, hblock, hmoved⟩ :=
      moveDown_ok (show 0 + l.length * n + n ≤ v.elements.size by omega)
    refine ⟨{ v with size := l.length, elements := b' }, ?_, h.elementSize, rfl, ?_, ?_, h.room, ?_⟩
    · rw [if_neg (by rw [hsize]; exact Nat.succ_ne_zero _), hlen, h.elementSize, hmove]
      rfl
    · have hfrom := h.window_from (k := 1) (Nat.succ_le_succ (Nat.zero_le _))
      rw [Nat.one_mul, List.length_cons, Nat.succ_mul] at hfrom
      refine Eq.trans ?_ hfrom
      dsimp only
      rw [window, window, Nat.add_sub_cancel, Nat.sub_zero]
      refine List.map_congr_left fun j hj => ?_
      rw [hmoved, if_pos ⟨by omega, by have := List.mem_range.mp hj; omega⟩, Nat.zero_add,
        Nat.add_comm j]
    · have hfits := h.fits
      dsimp only
      omega
    · exact hblock.trans h.block

theorem Represents.empty (h : Represents v l) :
    Represents (vectorEmpty v) ([] : List (Element n)) where
  elementSize := h.elementSize
  size := rfl
  contents := by rw [vectorEmpty, Nat.zero_mul, window_self]; rfl
  fits := Nat.zero_le _
  room := h.room
  block := h.block

theorem growMax_ok {size need rounds max : Nat} (hmax : 0 < max) (hsize : size ≤ max)
    (hneed : need ≤ rounds + (max - size)) :
    ∃ new, growMax size need (rounds + 1) max = .ok new ∧ max ≤ new ∧ size + need ≤ new := by
  induction rounds generalizing max with
  | zero => exact ⟨max, if_neg (by omega), Nat.le_refl max, by omega⟩
  | succ rounds ih =>
    rw [growMax]
    by_cases hmore : max - size < need
    · rw [if_pos hmore]
      obtain ⟨new, hnew, hle, hroom⟩ := ih (show 0 < max * 2 by omega) (by omega) (by omega)
      exact ⟨new, hnew, by omega, hroom⟩
    · exact ⟨max, if_neg hmore, Nat.le_refl max, by omega⟩

theorem Represents.append (hdest : Represents dest ldest) (hsrc : Represents src lsrc)
    (memory : Nat → UInt8) :
    ∃ dest' src', vectorAppend dest src memory = .ok (dest', src') ∧
      Represents dest' (ldest ++ lsrc) ∧ Represents src' ([] : List (Element n)) := by
  rw [vectorAppend, if_neg (not_not.mpr (hdest.elementSize.trans hsrc.elementSize.symm))]
  by_cases hnone : src.size = 0
  · obtain rfl : lsrc = [] := List.length_eq_zero_iff.mp (hsrc.size.symm.trans hnone)
    rw [if_pos hnone, List.append_nil]
    exact ⟨dest, src, rfl, hdest, hsrc⟩
  rw [if_neg hnone]
  by_cases hempty : dest.size = 0
  · obtain rfl : ldest = [] := List.length_eq_zero_iff.mp (hdest.size.symm.trans hempty)
    rw [if_pos hempty, List.nil_append]
    exact ⟨src, dest, rfl, hsrc, hdest⟩
  rw [if_neg hempty]
  obtain ⟨max, hgrow, hmax, hroom⟩ := growMax_ok hdest.room hdest.fits
    (show src.size ≤ src.size + (dest.maxSize - dest.size) from Nat.le_add_right _ _)
  have hgrown :
      Represents (if dest.maxSize ≠ max then vectorResize dest max memory else dest) ldest ∧
      (if dest.maxSize ≠ max then vectorResize dest max memory else dest).maxSize = max := by
    split
    · exact ⟨hdest.resize hmax memory, rfl⟩
    · exact ⟨hdest, not_not.mp ‹_›⟩
  have hcopy : src.elements.copyOut 0 (src.elementSize * src.size) = .ok (bytes lsrc) := by
    have hle := hsrc.bytes_le
    rw [Block.copyOut, hsrc.elementSize, Nat.zero_add, Nat.mul_comm, hsrc.contents,
      if_pos (by rw [hsrc.size]; exact hle)]
  obtain ⟨new, hstore, hnew⟩ := hgrown.1.store lsrc (by
    rw [hgrown.2, ← hdest.size, ← hsrc.size]
    exact hroom)
  refine ⟨new, vectorEmpty src, ?_, hnew, hsrc.empty⟩
  rw [hgrow, ok_bind, hcopy, ok_bind, hsrc.size, hstore]
  rfl

end

theorem exec_represents (vs : ι → LibtraceVector) (ls : ι → List (Element n)) (op : Operation ι n)
    (h : ∀ i, Represents (vs i) (ls i)) :
    ∃ vs', exec vs op = .ok (vs', (spec ls op).2) ∧ ∀ i, Represents (vs' i) ((spec ls op).1 i) := by
  have hset {vs : ι → LibtraceVector} {ls : ι → List (Element n)} {i : ι} {v : LibtraceVector}
      {l : List (Element n)} (h : ∀ i, Represents (vs i) (ls i)) (hnew : Represents v l) :
      ∀ j, Represents (update vs i v j) (update ls i l j) := by
    intro j
    by_cases hj : j = i
    · subst hj
      rw [update_self, update_self]
      exact hnew
    · rw [update_of_ne hj, update_of_ne hj]
      exact h j
  cases op with
  | pushBack i d memory =>
    obtain ⟨new, hpush, hnew⟩ := (h i).pushBack d memory
    refine ⟨update vs i new, ?_, hset h hnew⟩
    rw [exec, hpush]
    rfl
  | append dest src different memory =>
    obtain ⟨dest', src', happend, hdest, hsrc⟩ := (h dest).append (h src) memory
    refine ⟨update (update vs dest dest') src src', ?_, hset (hset h hdest) hsrc⟩
    rw [exec, happend]
    rfl
  | removeFront i =>
    obtain ⟨new, hremove, hnew⟩ := (h i).removeFront
    refine ⟨update vs i new, ?_, hset h hnew⟩
    rw [exec, hremove]
    rfl
  | empty i => exact ⟨_, rfl, hset h (h i).empty⟩
  | get i location =>
    refine ⟨vs, ?_, h⟩
    rw [exec, (h i).get location]
    rfl
  | getSize i => exact ⟨vs, by rw [exec, (h i).size]; rfl, h⟩

/-- Whatever is done with initialised vectors, no access leaves a block, no assertion fails, the
loop of `append` ends, and results and contents are those of lists. -/
theorem vectors_refine_lists (n : Nat) (memory : ι → Nat → UInt8) (ops : List (Operation ι n)) :
    ∃ vs', execAll exec (fun i => vectorInit n (memory i)) ops =
        .ok (vs', (specAll spec (fun _ => []) ops).2) ∧
      ∀ i, Represents (vs' i) ((specAll spec (fun _ => []) ops).1 i) :=
  execAll_refines
    (R := fun (vs : ι → LibtraceVector) (ls : ι → List (Element n)) =>
      ∀ i, Represents (vs i) (ls i))
    exec_represents (fun i => vectorInit_represents n (memory i)) ops

end Libtrace.VectorBytes
