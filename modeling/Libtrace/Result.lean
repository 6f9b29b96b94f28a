import Mathlib.Order.Basic

/-! Results that per-packet threads publish: `struct libtrace_result_t` and `enum result_types`. -/

namespace Libtrace

instance linearOrderUInt64 : LinearOrder UInt64 where
  le_refl := UInt64.le_refl
  le_trans _ _ _ := UInt64.le_trans
  le_antisymm _ _ := UInt64.le_antisymm
  le_total := UInt64.le_total
  lt_iff_le_not_ge a b := by
    rw [UInt64.lt_iff_toNat_lt, UInt64.le_iff_toNat_le, UInt64.le_iff_toNat_le]
    omega
  toDecidableLE := inferInstance

def uint64Max : UInt64 := 0xFFFFFFFFFFFFFFFF

theorem le_uint64Max (k : UInt64) : k ≤ uint64Max := by
  rw [UInt64.le_iff_toNat_le]
  have h := k.toNat_lt
  have hm : uint64Max.toNat = 2 ^ 64 - 1 := by decide
  omega

theorem zero_le_uint64 (k : UInt64) : 0 ≤ k := by
  simp

inductive ResultType where
  | packet
  | tickInterval
  | tickCount
  | user (code : Nat)
  deriving DecidableEq, Repr

structure Result where
  key : UInt64
  value : UInt64
  type : ResultType
  deriving DecidableEq, Repr

def Result.isTick (r : Result) : Bool :=
  r.type = .tickInterval || r.type = .tickCount

def nonTicks (rs : List Result) : List Result := rs.filter fun r => !r.isTick

@[simp] theorem nonTicks_nil : nonTicks [] = [] := rfl

@[simp] theorem nonTicks_append (xs ys : List Result) :
    nonTicks (xs ++ ys) = nonTicks xs ++ nonTicks ys := List.filter_append ..

variable {r : Result} {n : Nat}

theorem nonTicks_cons_tick (h : r.isTick = true) (rs : List Result) :
    nonTicks (r :: rs) = nonTicks rs := by
  simp [nonTicks, h]

theorem nonTicks_cons_result (h : r.isTick = false) (rs : List Result) :
    nonTicks (r :: rs) = r :: nonTicks rs := by
  simp [nonTicks, h]

theorem mem_nonTicks {rs : List Result} : r ∈ nonTicks rs ↔ r ∈ rs ∧ r.isTick = false := by
  simp [nonTicks]

def resultsOf {n : Nat} (i : Fin n) (ps : List (Fin n × Result)) : List Result :=
  ps.filterMap fun p => if p.1 = i then some p.2 else none

@[simp] theorem resultsOf_nil {n : Nat} (i : Fin n) : resultsOf i [] = [] := rfl

@[simp] theorem resultsOf_append {n : Nat} (i : Fin n) (ps qs : List (Fin n × Result)) :
    resultsOf i (ps ++ qs) = resultsOf i ps ++ resultsOf i qs := List.filterMap_append ..

theorem resultsOf_cons (i : Fin n) (p : Fin n × Result) (ps : List (Fin n × Result)) :
    resultsOf i (p :: ps) = resultsOf i [p] ++ resultsOf i ps := resultsOf_append i [p] ps

theorem resultsOf_single (i j : Fin n) (r : Result) :
    resultsOf i [(j, r)] = if j = i then [r] else [] := by
  by_cases h : j = i <;> simp [resultsOf, h]

theorem mem_resultsOf {ps : List (Fin n × Result)} {i : Fin n} :
    r ∈ resultsOf i ps ↔ (i, r) ∈ ps := by
  simp only [resultsOf, List.mem_filterMap]
  constructor
  · rintro ⟨⟨j, x⟩, hmem, hx⟩
    by_cases hj : j = i
    · simp only [hj, if_true, Option.some.injEq] at hx
      rwa [← hj, ← hx]
    · simp [hj] at hx
  · intro hmem
    exact ⟨(i, r), hmem, by simp⟩

end Libtrace
