import Mathlib.Data.List.Perm.Basic
import Libtrace.Exec
import Libtrace.Protocols
import Libtrace.Schedule

/-! The memory pools that libtrace keeps: `dpdk_alloc_memory` and `dpdk_free_memory`. The four rows
of `mem_pools` follow each other; an address is the distance from the first entry. -/

namespace Libtrace.DpdkPools
open Exec Protocols Schedule Function

/-- The length of a row, and the bytes that a packet takes beside its contents. -/
structure Dpdk where
  maxLcore : Nat
  maxLcore_pos : 0 < maxLcore
  overhead : Nat

/-- `struct rte_mempool`; pools are numbered in the order of their creation. -/
structure Pool where
  id : Nat
  size : Nat
  eltSize : Nat
  deriving DecidableEq, Repr

abbrev Table := Int → Option Pool

section

variable (d : Dpdk)

def address (row : Int) (i : Nat) : Int := row * d.maxLcore + i

def entry (t : Table) (row : Int) (i : Nat) : Decode (Option Pool) :=
  if 0 ≤ address d row i ∧ address d row i < 4 * d.maxLcore then .ok (t (address d row i))
  else .error .outOfRange

/-- From entry `i` on, of which `left` are left: to the first suitable pool, or to the end. -/
def scan (t : Table) (row : Int) (suitable : Pool → Bool) : Nat → Nat → Decode Nat
  | 0, i => .ok i
  | left + 1, i => do
    match ← entry d t row i with
    | none => return i
    | some p => if suitable p then return i else scan t row suitable left (i + 1)

def allocRow (socketId : Int) : Int := if socketId = -1 ∨ 4 < socketId then 0 else socketId

def suitable (n pktSize : Nat) (p : Pool) : Bool := n ≤ p.size ∧ pktSize ≤ p.eltSize

def eltSize (pktSize : Nat) : Nat := (pktSize + d.overhead) % 2 ^ 32

def allocMemory (t : Table) (n pktSize : Nat) (socketId : Int) (fresh : Option Pool) :
    Decode (Option Pool × Table) := do
  let row := allocRow socketId
  let j ← scan d t row (suitable n (eltSize d pktSize)) d.maxLcore 0
  let k ← scan d t row (fun _ => false) (d.maxLcore - j) j
  match ← entry d t row j with
  | some p =>
    let t := update t (address d row j) (t (address d row (k - 1)))
    let t := update t (address d row (k - 1)) none
    let t := update t (address d row j) none
    return (some p, t)
  | none => return (fresh, t)

def freeMemory (t : Table) (p : Pool) (socketId : Int) : Decode Table := do
  let i ← scan d t socketId (fun _ => false) d.maxLcore 0
  return if d.maxLcore ≤ i then t else update t (address d socketId i) (some p)

end

/-- The table, the pools that the callers hold, and those they freed and did not get again. -/
structure State where
  table : Table
  held : List Pool
  freed : List Pool
  next : Nat
  crashed : Bool

inductive Call where
  /-- `created` is the size of a new pool and of its elements, if DPDK has the memory for it. -/
  | alloc (n pktSize : Nat) (created : Option (Nat × Nat))
  | free (i : Nat)
  deriving DecidableEq, Repr

def init : State := ⟨fun _ => none, [], [], 0, false⟩

section

variable (d : Dpdk) (socketId : Int)

def State.fresh (s : State) (created : Option (Nat × Nat)) : Option Pool :=
  created.map fun sizes => ⟨s.next, sizes.1, sizes.2⟩

def step (s : State) : Call → State
  | .alloc n pktSize created =>
    match allocMemory d s.table n pktSize socketId (s.fresh created) with
    | .ok (some p, t) =>
      { s with table := t, held := p :: s.held, freed := s.freed.erase p, next := s.next + 1 }
    | .ok (none, t) => { s with table := t }
    | .error _ => { s with crashed := true }
  | .free i =>
    match s.held[i]? with
    | some p =>
      match freeMemory d s.table p socketId with
      | .ok t => { s with table := t, held := s.held.eraseIdx i, freed := p :: s.freed }
      | .error _ => { s with crashed := true }
    | none => s

def Stored (s : State) (p : Pool) : Prop :=
  ∃ i < d.maxLcore, s.table (address d (allocRow socketId) i) = some p

/-- The row is filled from its start, it has the pools that were freed, and no pool was handed out
twice. -/
structure Proper (s : State) : Prop where
  inside : s.crashed = false
  contiguous : ∃ count, ∀ i < d.maxLcore,
    ((s.table (address d (allocRow socketId) i)).isSome ↔ i < count)
  stored : ∀ p, Stored d socketId s p ↔ p ∈ s.freed
  exclusive : s.held.Nodup

def Room (s : State) : Call → Prop
  | .alloc _ _ _ => True
  | .free _ => s.freed.length < d.maxLcore

/-- Before an allocation only the last pool in the row may be suitable, and the last row is not full
of others. A pool is freed to a row that exists. -/
def Harmless (s : State) : Call → Prop
  | .alloc n pktSize _ =>
    (0 ≤ allocRow socketId ∧ allocRow socketId < 4) ∧
    (∀ i p, i + 1 < d.maxLcore → s.table (address d (allocRow socketId) i) = some p →
      (s.table (address d (allocRow socketId) (i + 1))).isSome →
      suitable n (eltSize d pktSize) p = false) ∧
    (allocRow socketId = 3 →
      ∃ i < d.maxLcore, (s.table (address d (allocRow socketId) i)).all
        (suitable n (eltSize d pktSize)))
  | .free i => i < s.held.length → 0 ≤ socketId ∧ socketId < 4

end

section

variable {d : Dpdk} {row : Int} {xs : List Pool}

def tableOf (d : Dpdk) (row : Int) (xs : List Pool) : Table := fun a =>
  if address d row 0 ≤ a then xs[(a - address d row 0).toNat]? else none

theorem address_eq (row : Int) (i : Nat) : address d row i = address d row 0 + i := by
  rw [address, address]
  omega

variable {i : Nat} {a : Int}

theorem address_inj {j : Nat} (h : address d row i = address d row j) : i = j := by
  rw [address, address] at h
  omega

theorem tableOf_address (row : Int) (xs : List Pool) (i : Nat) :
    tableOf d row xs (address d row i) = xs[i]? := by
  have hsub : (address d row i - address d row 0).toNat = i := by
    rw [address_eq row i]
    omega
  rw [tableOf, if_pos (by rw [address_eq row i]; omega), hsub]

theorem table_ext {t : Table} (hbefore : ∀ a < address d row 0, t a = none)
    (h : ∀ i, t (address d row i) = xs[i]?) : t = tableOf d row xs := by
  funext a
  by_cases ha : address d row 0 ≤ a
  · obtain ⟨i, hi⟩ := Int.eq_ofNat_of_zero_le (Int.sub_nonneg_of_le ha)
    have haddress : a = address d row i := by
      rw [address_eq row i]
      omega
    rw [haddress, h, tableOf_address]
  · rw [hbefore a (by omega), tableOf, if_neg ha]

theorem tableOf_eq_some {p : Pool} (h : tableOf d row xs a = some p) :
    ∃ i, a = address d row i ∧ xs[i]? = some p := by
  rw [tableOf] at h
  split_ifs at h with ha
  refine ⟨(a - address d row 0).toNat, ?_, h⟩
  rw [address_eq row (a - address d row 0).toNat]
  omega

theorem tableOf_before (h : a < address d row 0) : tableOf d row xs a = none :=
  if_neg (by omega)

theorem entry_inside (t : Table) (hrow : 0 ≤ row ∧ row < 4) (hi : i ≤ d.maxLcore)
    (h : i < d.maxLcore ∨ row ≠ 3) : entry d t row i = .ok (t (address d row i)) := by
  have hpos := d.maxLcore_pos
  have hcases : row = 0 ∨ row = 1 ∨ row = 2 ∨ row = 3 := by omega
  refine if_pos ?_
  rw [address]
  obtain rfl | rfl | rfl | rfl := hcases <;> omega

theorem entry_outside (t : Table) (h : ¬ (0 ≤ row ∧ row < 4)) (hi : i < d.maxLcore) :
    entry d t row i = .error .outOfRange := by
  refine if_neg ?_
  rw [address]
  rintro ⟨hlow, hhigh⟩
  by_cases hneg : row < 0
  · have hmul : row * (d.maxLcore : Int) ≤ -1 * d.maxLcore :=
      Int.mul_le_mul_of_nonneg_right (by omega) (Int.natCast_nonneg _)
    omega
  · have hmul : 4 * (d.maxLcore : Int) ≤ row * d.maxLcore :=
      Int.mul_le_mul_of_nonneg_right (by omega) (Int.natCast_nonneg _)
    omega

theorem scan_spec (hrow : 0 ≤ row ∧ row < 4) (fits : Pool → Bool) (hxs : xs.length ≤ d.maxLcore)
    {left : Nat} (hi : i + left = d.maxLcore) (hle : i ≤ xs.length) :
    scan d (tableOf d row xs) row fits left i = .ok (i + (xs.drop i).findIdx fits) := by
  induction left generalizing i with
  | zero =>
    rw [scan, List.drop_of_length_le (by omega)]
    rfl
  | succ left ih =>
    rw [scan, entry_inside _ hrow (by omega) (.inl (by omega)), ok_bind, tableOf_address]
    by_cases hlt : i < xs.length
    · rw [List.getElem?_eq_getElem hlt, List.drop_eq_getElem_cons hlt, List.findIdx_cons]
      dsimp only
      by_cases hfits : fits xs[i] = true
      · rw [if_pos hfits, hfits]
        rfl
      · rw [if_neg hfits, ih (i := i + 1) (by omega) hlt, Bool.eq_false_iff.mpr hfits, cond_false]
        congr 1
        omega
    · rw [List.getElem?_eq_none (by omega), List.drop_of_length_le (by omega)]
      rfl

theorem findIdx_never (xs : List Pool) : xs.findIdx (fun _ => false) = xs.length :=
  List.findIdx_eq_length_of_false fun _ _ => rfl

theorem scan_end (hrow : 0 ≤ row ∧ row < 4) (hxs : xs.length ≤ d.maxLcore) (hle : i ≤ xs.length) :
    scan d (tableOf d row xs) row (fun _ => false) (d.maxLcore - i) i = .ok xs.length := by
  rw [scan_spec hrow _ hxs (by omega) hle, findIdx_never, List.length_drop]
  congr 1
  omega

theorem scan_outside (t : Table) (fits : Pool → Bool) (h : ¬ (0 ≤ row ∧ row < 4)) :
    scan d t row fits d.maxLcore 0 = .error .outOfRange := by
  obtain ⟨left, hleft⟩ := Nat.exists_eq_add_of_lt d.maxLcore_pos
  rw [hleft, Nat.zero_add, scan, entry_outside t h d.maxLcore_pos]
  rfl

end

section

variable {d : Dpdk} {socketId : Int} {xs : List Pool}

theorem allocMemory_eq (hrow : 0 ≤ allocRow socketId ∧ allocRow socketId < 4)
    (hxs : xs.length ≤ d.maxLcore) (n pktSize : Nat) (fresh : Option Pool) :
    let t := tableOf d (allocRow socketId) xs
    let j := xs.findIdx (suitable n (eltSize d pktSize))
    allocMemory d t n pktSize socketId fresh = (do
      match ← entry d t (allocRow socketId) j with
      | some p =>
        return (some p, update (update
          (update t (address d (allocRow socketId) j)
            (t (address d (allocRow socketId) (xs.length - 1))))
          (address d (allocRow socketId) (xs.length - 1)) none)
          (address d (allocRow socketId) j) none)
      | none => return (fresh, t)) := by
  intro t j
  have hj : j ≤ xs.length := List.findIdx_le_length
  rw [allocMemory]
  rw [scan_spec hrow _ hxs (Nat.zero_add _) (Nat.zero_le _), ok_bind, Nat.zero_add, List.drop_zero,
    scan_end hrow hxs hj, ok_bind]

variable {n pktSize : Nat} {row : Int}

section

variable (hrow : 0 ≤ allocRow socketId ∧ allocRow socketId < 4) (hxs : xs.length ≤ d.maxLcore)
include hrow hxs

theorem allocMemory_found {j last : Nat} (hj : xs.findIdx (suitable n (eltSize d pktSize)) = j)
    {p : Pool} (hp : xs[j]? = some p) (hlast : xs.length = last + 1) (fresh : Option Pool) :
    allocMemory d (tableOf d (allocRow socketId) xs) n pktSize socketId fresh =
      .ok (some p, update (update (tableOf d (allocRow socketId) xs)
        (address d (allocRow socketId) last) none) (address d (allocRow socketId) j) none) := by
  have heq := allocMemory_eq hrow hxs n pktSize fresh
  have hlt := (List.getElem?_eq_some_iff.mp hp).1
  rw [heq, hj, entry_inside _ hrow (by omega) (.inl (by omega)), ok_bind, tableOf_address, hp,
    hlast, Nat.add_sub_cancel]
  -- the last pool was moved to the place that is emptied in the end
  have hmoved : ∀ (t : Table) (a b : Int) (x : Option Pool),
      update (update (update t a x) b none) a none =
        update (update t b none) a none := by
    intro t a b x
    funext c
    by_cases hc : c = a
    · rw [hc, update_self, update_self]
    · rw [update_of_ne hc, update_of_ne hc]
      by_cases hc' : c = b
      · rw [hc', update_self, update_self]
      · rw [update_of_ne hc', update_of_ne hc', update_of_ne hc]
  rw [hmoved]
  rfl

theorem allocMemory_fresh (hnone : ∀ p ∈ xs, suitable n (eltSize d pktSize) p = false)
    (h : xs.length < d.maxLcore ∨ allocRow socketId ≠ 3) (fresh : Option Pool) :
    allocMemory d (tableOf d (allocRow socketId) xs) n pktSize socketId fresh =
      .ok (fresh, tableOf d (allocRow socketId) xs) := by
  have heq := allocMemory_eq hrow hxs n pktSize fresh
  rw [heq, List.findIdx_eq_length_of_false hnone, entry_inside _ hrow hxs h, ok_bind,
    tableOf_address, List.getElem?_eq_none (Nat.le_refl _)]
  rfl

end

theorem allocMemory_behind (hrow : allocRow socketId = 3) (hxs : xs.length = d.maxLcore)
    (hnone : ∀ p ∈ xs, suitable n (eltSize d pktSize) p = false) (fresh : Option Pool) :
    allocMemory d (tableOf d (allocRow socketId) xs) n pktSize socketId fresh =
      .error .outOfRange := by
  have hlast : 0 ≤ allocRow socketId ∧ allocRow socketId < 4 := by omega
  have heq := allocMemory_eq hlast (Nat.le_of_eq hxs) n pktSize fresh
  have hout : ∀ t, entry d t (allocRow socketId) d.maxLcore = .error .outOfRange := by
    intro t
    refine if_neg ?_
    rw [hrow, address]
    omega
  rw [heq, List.findIdx_eq_length_of_false hnone, hxs, hout]
  rfl

theorem allocMemory_outside (h : ¬ (0 ≤ allocRow socketId ∧ allocRow socketId < 4)) (t : Table)
    (n pktSize : Nat) (fresh : Option Pool) :
    allocMemory d t n pktSize socketId fresh = .error .outOfRange := by
  rw [allocMemory]
  rw [scan_outside t _ h]
  rfl

theorem update_tableOf {row : Int} {ys : List Pool} {n : Nat} {x : Option Pool}
    (h : ∀ i, ys[i]? = if i = n then x else xs[i]?) :
    update (tableOf d row xs) (address d row n) x = tableOf d row ys := by
  refine table_ext (fun a ha => ?_) fun i => ?_
  · rw [update_of_ne (by rw [address_eq]; omega), tableOf_before ha]
  · rw [h]
    split_ifs with hi
    · rw [hi, update_self]
    · rw [update_of_ne (fun heq => hi (address_inj heq)), tableOf_address]

theorem update_last {row : Int} (ys : List Pool) (p : Pool) :
    update (update (tableOf d row (ys ++ [p])) (address d row ys.length) none)
      (address d row ys.length) none = tableOf d row ys := by
  rw [update_idem]
  refine update_tableOf fun i => ?_
  split_ifs with hi
  · exact List.getElem?_eq_none (Nat.le_of_eq hi.symm)
  · grind

theorem update_end {row : Int} (xs : List Pool) (p : Pool) :
    update (tableOf d row xs) (address d row xs.length) (some p) = tableOf d row (xs ++ [p]) := by
  refine update_tableOf fun i => ?_
  grind

theorem freeMemory_eq (hid : 0 ≤ socketId ∧ socketId < 4) (hxs : xs.length < d.maxLcore)
    (p : Pool) :
    freeMemory d (tableOf d socketId xs) p socketId = .ok (tableOf d socketId (xs ++ [p])) := by
  have hend := scan_end hid (Nat.le_of_lt hxs) (Nat.zero_le xs.length)
  rw [Nat.sub_zero] at hend
  rw [freeMemory, hend, ok_bind, if_neg (by omega), update_end]
  rfl

theorem freeMemory_outside (h : ¬ (0 ≤ socketId ∧ socketId < 4)) (t : Table) (p : Pool) :
    freeMemory d t p socketId = .error .outOfRange := by
  rw [freeMemory, scan_outside t _ h]
  rfl

end

section

variable {d : Dpdk} {socketId : Int} {s : State} {xs : List Pool}

structure Holds (d : Dpdk) (socketId : Int) (s : State) (xs : List Pool) : Prop where
  inside : s.crashed = false
  table : s.table = tableOf d (allocRow socketId) xs
  length_le : xs.length ≤ d.maxLcore
  perm : xs.Perm s.freed
  nodup : (s.held ++ s.freed).Nodup
  known : ∀ p ∈ s.held ++ s.freed, p.id < s.next

/-- The table was left, or a pool that was freed is neither in the table nor held. -/
def Broken (s : State) : Prop :=
  s.crashed = true ∨ ∃ p ∈ s.freed, p ∉ s.held ∧ p.id < s.next ∧ ∀ a, s.table a ≠ some p

theorem holds_init : Holds d socketId init [] where
  inside := rfl
  table := by
    funext a
    rw [tableOf]
    split_ifs <;> rfl
  length_le := Nat.zero_le _
  perm := .nil
  nodup := .nil
  known := List.forall_mem_nil _

theorem Holds.entry_eq (h : Holds d socketId s xs) (i : Nat) :
    s.table (address d (allocRow socketId) i) = xs[i]? := by
  rw [h.table, tableOf_address]

theorem Holds.proper (h : Holds d socketId s xs) : Proper d socketId s where
  inside := h.inside
  contiguous := ⟨xs.length, fun i _ => by rw [h.entry_eq]; simp⟩
  stored p := by
    rw [← h.perm.mem_iff, List.mem_iff_getElem?]
    constructor
    · rintro ⟨i, -, hi⟩
      exact ⟨i, h.entry_eq i ▸ hi⟩
    · rintro ⟨i, hi⟩
      have hlt := (List.getElem?_eq_some_iff.mp hi).1
      exact ⟨i, Nat.lt_of_lt_of_le hlt h.length_le, (h.entry_eq i).trans hi⟩
  exclusive := (List.nodup_append.mp h.nodup).1

theorem Broken.not_proper (h : Broken s) : ¬ Proper d socketId s := by
  intro hproper
  obtain hcrashed | ⟨p, hp, -, -, hlost⟩ := h
  · exact Bool.noConfusion (hcrashed.symm.trans hproper.inside)
  · obtain ⟨i, -, hi⟩ := (hproper.stored p).mpr hp
    exact hlost _ hi

variable {t t' : Table} {n pktSize : Nat} {p : Pool} {ys : List Pool} {created : Option (Nat × Nat)}
  {i : Nat}

theorem allocMemory_sound {fresh r : Option Pool}
    (h : allocMemory d t n pktSize socketId fresh = .ok (r, t')) :
    (∀ a q, t' a = some q → ∃ b, t b = some q) ∧ (r = fresh ∨ ∃ b, r = t b) := by
  obtain ⟨j, -, h⟩ := except_bind_ok.mp h
  obtain ⟨k, -, h⟩ := except_bind_ok.mp h
  obtain ⟨found, hfound, h⟩ := except_bind_ok.mp h
  have hentry : found = t (address d (allocRow socketId) j) := by
    rw [entry] at hfound
    split_ifs at hfound
    exact (Except.ok.inj hfound).symm
  cases found with
  | none =>
    obtain ⟨rfl, rfl⟩ := Prod.mk.inj (Except.ok.inj h)
    exact ⟨fun a q hq => ⟨a, hq⟩, .inl rfl⟩
  | some p =>
    obtain ⟨rfl, rfl⟩ := Prod.mk.inj (Except.ok.inj h)
    refine ⟨fun a q hq => ?_, .inr ⟨_, hentry⟩⟩
    simp only [update_apply] at hq
    split_ifs at hq
    exact ⟨_, hq⟩

theorem freeMemory_sound (h : freeMemory d t p socketId = .ok t') (a : Int) (q : Pool)
    (hq : t' a = some q) : t a = some q ∨ q = p := by
  obtain ⟨i, -, h⟩ := except_bind_ok.mp h
  rw [← Except.ok.inj h] at hq
  split_ifs at hq
  · exact .inl hq
  · rw [update_apply] at hq
    split_ifs at hq
    · exact .inr (Option.some.inj hq).symm
    · exact .inl hq

theorem broken_step (h : Broken s) (call : Call) : Broken (step d socketId s call) := by
  cases call with
  | alloc n pktSize created =>
    rw [step]
    cases halloc : allocMemory d s.table n pktSize socketId (s.fresh created) with
    | error e => exact .inl rfl
    | ok result =>
      obtain ⟨r, t⟩ := result
      obtain ⟨hentries, hr⟩ := allocMemory_sound halloc
      obtain hcrashed | ⟨p, hp, hheld, hknown, hlost⟩ := h
      · cases r <;> exact .inl hcrashed
      · have hgone : ∀ a, t a ≠ some p := fun a ha => (hentries a p ha).elim hlost
        cases r with
        | none => exact .inr ⟨p, hp, hheld, hknown, hgone⟩
        | some q =>
          have hne : p ≠ q := by
            rintro rfl
            obtain hfresh | ⟨b, hb⟩ := hr
            · obtain ⟨sizes, -, hsizes⟩ := Option.map_eq_some_iff.mp hfresh.symm
              rw [← hsizes] at hknown
              exact Nat.lt_irrefl _ hknown
            · exact hlost b hb.symm
          refine .inr ⟨p, (List.mem_erase_of_ne hne).mpr hp, ?_, Nat.lt_succ_of_lt hknown, hgone⟩
          exact fun hmem => (List.mem_cons.mp hmem).elim hne hheld
  | free i =>
    rw [step]
    cases hi : s.held[i]? with
    | none => exact h
    | some q =>
      dsimp only
      cases hfree : freeMemory d s.table q socketId with
      | error e => exact .inl rfl
      | ok t =>
        obtain hcrashed | ⟨p, hp, hheld, hknown, hlost⟩ := h
        · exact .inl hcrashed
        · have hne : p ≠ q := fun heq => hheld (heq ▸ List.mem_of_getElem? hi)
          refine .inr ⟨p, List.mem_cons_of_mem _ hp, ?_, hknown, fun a ha => ?_⟩
          · exact fun hmem => hheld (List.mem_of_mem_eraseIdx hmem)
          · exact (freeMemory_sound hfree a p ha).elim (hlost a) hne

theorem Holds.freed_nodup (h : Holds d socketId s xs) : xs.Nodup :=
  h.perm.nodup_iff.mpr (List.nodup_append.mp h.nodup).2.1

theorem holds_handed (h : Holds d socketId s xs) (ht : t = tableOf d (allocRow socketId) ys)
    (hlen : ys.length ≤ d.maxLcore) (hperm : ys.Perm (s.freed.erase p)) (hheld : p ∉ s.held)
    (hid : p.id ≤ s.next) :
    Holds d socketId
      { s with table := t, held := p :: s.held, freed := s.freed.erase p, next := s.next + 1 }
      ys where
  inside := h.inside
  table := ht
  length_le := hlen
  perm := hperm
  nodup := by
    obtain ⟨hnodup, hfreed, hdisjoint⟩ := List.nodup_append.mp h.nodup
    refine List.nodup_append.mpr ⟨List.nodup_cons.mpr ⟨hheld, hnodup⟩, hfreed.erase p, ?_⟩
    intro q hq q' hq' heq
    obtain rfl | hq := List.mem_cons.mp hq
    · exact hfreed.not_mem_erase (heq ▸ hq')
    · exact hdisjoint q hq q' (List.mem_of_mem_erase hq') heq
  known := by
    intro q hq
    obtain hq | hq := List.mem_append.mp hq
    · obtain rfl | hq := List.mem_cons.mp hq
      · exact Nat.lt_succ_of_le hid
      · exact Nat.lt_succ_of_lt (h.known q (List.mem_append_left _ hq))
    · exact Nat.lt_succ_of_lt (h.known q (List.mem_append_right _ (List.mem_of_mem_erase hq)))

theorem holds_fresh (h : Holds d socketId s xs)
    (halloc : allocMemory d s.table n pktSize socketId (s.fresh created) =
      .ok (s.fresh created, s.table)) :
    Holds d socketId (step d socketId s (.alloc n pktSize created)) xs := by
  rw [step, halloc]
  cases hfresh : s.fresh created with
  | none => exact ⟨h.inside, h.table, h.length_le, h.perm, h.nodup, h.known⟩
  | some p =>
    obtain ⟨sizes, -, rfl⟩ := Option.map_eq_some_iff.mp hfresh
    have hnew : ∀ q ∈ s.held ++ s.freed, q ≠ ⟨s.next, sizes.1, sizes.2⟩ := by
      rintro q hq rfl
      exact Nat.lt_irrefl _ (h.known _ hq)
    have hheld : (⟨s.next, sizes.1, sizes.2⟩ : Pool) ∉ s.held := fun hmem =>
      hnew _ (List.mem_append_left _ hmem) rfl
    have hfreed : (⟨s.next, sizes.1, sizes.2⟩ : Pool) ∉ s.freed := fun hmem =>
      hnew _ (List.mem_append_right _ hmem) rfl
    refine holds_handed h h.table h.length_le ?_ hheld (Nat.le_refl _)
    rw [List.erase_of_not_mem hfreed]
    exact h.perm

theorem holds_last (h : Holds d socketId s (ys ++ [p]))
    (halloc : allocMemory d s.table n pktSize socketId (s.fresh created) =
      .ok (some p, tableOf d (allocRow socketId) ys)) :
    Holds d socketId (step d socketId s (.alloc n pktSize created)) ys := by
  have hp : p ∈ s.freed := h.perm.mem_iff.mp (List.mem_append_right _ (List.mem_singleton_self p))
  have hlen := h.length_le
  rw [List.length_append] at hlen
  rw [step, halloc]
  refine holds_handed h rfl (by omega) ?_ ?_ ?_
  · have hcons : (p :: ys).Perm (p :: s.freed.erase p) :=
      ((List.perm_append_singleton p ys).symm.trans h.perm).trans (List.perm_cons_erase hp)
    exact hcons.cons_inv
  · exact fun hmem => (List.nodup_append.mp h.nodup).2.2 p hmem p hp rfl
  · exact Nat.le_of_lt (h.known p (List.mem_append_right _ hp))

section

variable (h : Holds d socketId s xs) (hok : Harmless d socketId s (.alloc n pktSize created))
include h hok

theorem Holds.unsuitable_of_harmless (hi : i + 1 < xs.length) : suitable n
    (eltSize d pktSize) xs[i] = false := by
  have hlen := h.length_le
  refine hok.2.1 i xs[i] (by omega) ?_ ?_
  · rw [h.entry_eq, List.getElem?_eq_getElem]
  · rw [h.entry_eq, List.getElem?_eq_getElem hi]
    rfl

theorem Holds.room_of_harmless (hnone : ∀ p ∈ xs, suitable n (eltSize d pktSize) p = false) :
    xs.length < d.maxLcore ∨ allocRow socketId ≠ 3 := by
  by_cases hrow : allocRow socketId = 3
  · obtain ⟨i, hi, hall⟩ := hok.2.2 hrow
    rw [h.entry_eq] at hall
    by_cases hlt : i < xs.length
    · rw [List.getElem?_eq_getElem hlt, Option.all_some, hnone _ (List.getElem_mem hlt)] at hall
      cases hall
    · exact .inl (by omega)
  · exact .inr hrow

theorem holds_alloc :
    ∃ ys, Holds d socketId (step d socketId s (.alloc n pktSize created)) ys := by
  by_cases hfound : xs.findIdx (suitable n (eltSize d pktSize)) < xs.length
  · obtain rfl | ⟨ys, p, rfl⟩ := List.eq_nil_or_concat' xs
    · exact absurd hfound (Nat.not_lt_zero _)
    · have hlast : (ys ++ [p]).findIdx (suitable n (eltSize d pktSize)) = ys.length := by
        by_contra hne
        have hlt : (ys ++ [p]).findIdx (suitable n (eltSize d pktSize)) + 1 <
            (ys ++ [p]).length := by
          rw [List.length_append, List.length_singleton] at hfound ⊢
          omega
        have hfalse := h.unsuitable_of_harmless hok hlt
        cases hfalse.symm.trans List.findIdx_getElem
      have halloc := allocMemory_found hok.1 h.length_le hlast List.getElem?_concat_length
        List.length_append (s.fresh created)
      rw [update_last, ← h.table] at halloc
      exact ⟨ys, holds_last h halloc⟩
  · have hnone : ∀ p ∈ xs, suitable n (eltSize d pktSize) p = false := by
      intro p hp
      by_contra htrue
      exact hfound (List.findIdx_lt_length_of_exists ⟨p, hp, Bool.not_eq_false _ ▸ htrue⟩)
    have halloc := allocMemory_fresh hok.1 h.length_le hnone (h.room_of_harmless hok hnone)
      (s.fresh created)
    rw [← h.table] at halloc
    exact ⟨xs, holds_fresh h halloc⟩

end

theorem holds_free (h : Holds d socketId s xs) (hroom : Room d s (.free i))
    (hok : Harmless d socketId s (.free i)) :
    ∃ ys, Holds d socketId (step d socketId s (.free i)) ys := by
  rw [step]
  cases hi : s.held[i]? with
  | none => exact ⟨xs, h⟩
  | some p =>
    have hlt := (List.getElem?_eq_some_iff.mp hi).1
    have hrow : allocRow socketId = socketId := by
      have := hok hlt
      exact if_neg (by omega)
    have hlen : xs.length < d.maxLcore := h.perm.length_eq ▸ hroom
    have hfree := freeMemory_eq (hok hlt) hlen p
    rw [← hrow, ← h.table, hrow] at hfree
    dsimp only
    rw [hfree]
    -- the pool goes from those that are held to those that are freed
    have hmoved : (s.held.eraseIdx i ++ p :: s.freed).Perm (s.held ++ s.freed) := by
      have hheld : (p :: s.held.eraseIdx i).Perm s.held := by
        have hget := (List.getElem?_eq_some_iff.mp hi).2
        exact hget ▸ List.getElem_cons_eraseIdx_perm hlt
      exact List.perm_middle.trans (hheld.append_right _)
    refine ⟨xs ++ [p], h.inside, ?_, ?_, ?_, ?_, fun q hq => ?_⟩
    · rw [hrow]
    · rw [List.length_append, List.length_singleton]
      exact hlen
    · exact (List.perm_append_singleton p xs).trans (h.perm.cons p)
    · exact hmoved.nodup_iff.mpr h.nodup
    · exact h.known q (hmoved.mem_iff.mp hq)

theorem broken_free (hok : ¬ Harmless d socketId s (.free i)) :
    Broken (step d socketId s (.free i)) := by
  obtain ⟨hlt, hid⟩ := Classical.not_imp.mp hok
  rw [step, List.getElem?_eq_getElem hlt]
  dsimp only
  rw [freeMemory_outside hid]
  exact .inl rfl

theorem broken_taken (h : Holds d socketId s xs)
    (hrow : 0 ≤ allocRow socketId ∧ allocRow socketId < 4) (created : Option (Nat × Nat))
    (hi : i + 1 < xs.length) (hfits : suitable n (eltSize d pktSize) xs[i] = true) :
    Broken (step d socketId s (.alloc n pktSize created)) := by
  obtain rfl | ⟨ys, q, rfl⟩ := List.eq_nil_or_concat' xs
  · exact absurd hi (Nat.not_lt_zero _)
  · rw [List.length_append, List.length_singleton, Nat.add_lt_add_iff_right] at hi
    have hj : (ys ++ [q]).findIdx (suitable n (eltSize d pktSize)) < ys.length := by
      by_contra hge
      have hfalse := List.not_of_lt_findIdx (Nat.lt_of_lt_of_le hi (Nat.not_lt.mp hge))
      cases hfits.symm.trans hfalse
    generalize hp : ys[(ys ++ [q]).findIdx (suitable n (eltSize d pktSize))] = p
    have hget : (ys ++ [q])[(ys ++ [q]).findIdx (suitable n (eltSize d pktSize))]? = some p := by
      rw [List.getElem?_append_left hj, List.getElem?_eq_getElem hj, hp]
    have halloc := allocMemory_found hrow h.length_le rfl hget List.length_append (s.fresh created)
    rw [← h.table] at halloc
    rw [step, halloc]
    have hq : q ∈ s.freed := h.perm.mem_iff.mp (List.mem_append_right _ (List.mem_singleton_self q))
    have hnot : q ∉ ys := by
      intro hmem
      exact (List.nodup_append.mp h.freed_nodup).2.2 q hmem q (List.mem_singleton_self q) rfl
    have hne : q ≠ p := fun heq => hnot (heq.trans hp.symm ▸ List.getElem_mem hj)
    have hheld : q ∉ s.held := fun hmem => (List.nodup_append.mp h.nodup).2.2 q hmem q hq rfl
    refine .inr ⟨q, (List.mem_erase_of_ne hne).mpr hq, ?_, ?_, fun a ha => ?_⟩
    · exact fun hmem => (List.mem_cons.mp hmem).elim hne hheld
    · exact Nat.lt_succ_of_lt (h.known q (List.mem_append_right _ hq))
    · simp only [update_apply] at ha
      split_ifs at ha with hfirst hlast
      rw [h.table] at ha
      obtain ⟨k, rfl, hk⟩ := tableOf_eq_some ha
      have hklt : k < ys.length := by
        have hbound := (List.getElem?_eq_some_iff.mp hk).1
        rw [List.length_append, List.length_singleton] at hbound
        have hkne : k ≠ ys.length := fun heq => hlast (heq ▸ rfl)
        omega
      rw [List.getElem?_append_left hklt] at hk
      exact hnot (List.mem_of_getElem? hk)

theorem Holds.full (h : Holds d socketId s xs) {fits : Pool → Bool}
    (hfull : ¬ ∃ i < d.maxLcore, (s.table (address d (allocRow socketId) i)).all fits) :
    xs.length = d.maxLcore ∧ ∀ p ∈ xs, fits p = false := by
  have hall : ∀ i < d.maxLcore, ∃ p, xs[i]? = some p ∧ fits p = false := by
    intro i hi
    have hentry : ¬ (xs[i]?).all fits = true := fun hentry =>
      hfull ⟨i, hi, (h.entry_eq i).symm ▸ hentry⟩
    cases hx : xs[i]? with
    | none => exact absurd (hx ▸ rfl) hentry
    | some p =>
      rw [hx, Option.all_some] at hentry
      exact ⟨p, rfl, Bool.eq_false_iff.mpr hentry⟩
  constructor
  · have hpos := d.maxLcore_pos
    obtain ⟨p, hp, -⟩ := hall (d.maxLcore - 1) (by omega)
    have hlt := (List.getElem?_eq_some_iff.mp hp).1
    have hle := h.length_le
    omega
  · intro p hp
    obtain ⟨i, hi⟩ := List.mem_iff_getElem?.mp hp
    have hlt := (List.getElem?_eq_some_iff.mp hi).1
    obtain ⟨q, hq, hfalse⟩ := hall i (Nat.lt_of_lt_of_le hlt h.length_le)
    exact Option.mem_unique hi hq ▸ hfalse

theorem broken_alloc (h : Holds d socketId s xs)
    (hok : ¬ Harmless d socketId s (.alloc n pktSize created)) :
    Broken (step d socketId s (.alloc n pktSize created)) := by
  by_cases hrow : 0 ≤ allocRow socketId ∧ allocRow socketId < 4
  · by_cases htaken : ∃ i, ∃ hi : i + 1 < xs.length,
        suitable n (eltSize d pktSize) (xs[i]) = true
    · obtain ⟨i, hi, hfits⟩ := htaken
      exact broken_taken h hrow created hi hfits
    · have hinner : ∀ i p, i + 1 < d.maxLcore →
          s.table (address d (allocRow socketId) i) = some p →
          (s.table (address d (allocRow socketId) (i + 1))).isSome →
          suitable n (eltSize d pktSize) p = false := by
        intro i p _ hp hnext
        rw [h.entry_eq] at hp hnext
        obtain ⟨hlt, rfl⟩ := List.getElem?_eq_some_iff.mp hp
        have hi : i + 1 < xs.length := by simpa using hnext
        exact Bool.eq_false_iff.mpr fun hfits => htaken ⟨i, hi, hfits⟩
      obtain ⟨hthree, hfull⟩ := Classical.not_imp.mp fun hlast => hok ⟨hrow, hinner, hlast⟩
      obtain ⟨hlen, hnone⟩ := h.full hfull
      have halloc := allocMemory_behind hthree hlen hnone (s.fresh created)
      rw [← h.table] at halloc
      rw [step, halloc]
      exact .inl rfl
  · rw [step, allocMemory_outside hrow]
    exact .inl rfl

theorem holds_step (h : ∃ xs, Holds d socketId s xs) (call : Call) (hroom : Room d s call)
    (hok : Harmless d socketId s call) : ∃ xs, Holds d socketId (step d socketId s call) xs := by
  obtain ⟨xs, h⟩ := h
  cases call with
  | alloc n pktSize created => exact holds_alloc h hok
  | free i => exact holds_free h hroom hok

theorem broken_of_harmful (h : ∃ xs, Holds d socketId s xs) (call : Call)
    (hok : ¬ Harmless d socketId s call) : Broken (step d socketId s call) := by
  obtain ⟨xs, h⟩ := h
  cases call with
  | alloc n pktSize created => exact broken_alloc h hok
  | free i => exact broken_free hok

end

/-- As long as there is room for the pools that are freed, the table stays in order exactly if all
calls were harmless. -/
theorem pools_kept_iff (d : Dpdk) (socketId : Int) (calls : List Call)
    (hroom : Along (step d socketId) (Room d) init calls) :
    Proper d socketId (calls.foldl (step d socketId) init) ↔
      Along (step d socketId) (Harmless d socketId) init calls := by
  have hinit : ∃ xs, Holds d socketId init xs := ⟨[], holds_init⟩
  constructor
  · intro hproper
    refine (not_bad_iff (fun s => ∃ xs, Holds d socketId s xs) Broken ?_ ?_ ?_ ?_ hinit hroom).mp
      fun hbroken => Broken.not_proper hbroken hproper
    · rintro s ⟨xs, h⟩ hbroken
      exact Broken.not_proper hbroken h.proper
    · exact fun s call h hP hQ => holds_step h call hP hQ
    · exact fun s call h _ hQ => broken_of_harmful h call hQ
    · exact fun s call h => broken_step h call
  · intro hharmless
    obtain ⟨xs, h⟩ := along_inv (fun s => ∃ xs, Holds d socketId s xs)
      (fun s call h hboth => holds_step h call hboth.1 hboth.2) hinit (along_and hroom hharmless)
    exact h.proper

def cores128 : Dpdk := ⟨128, Nat.succ_pos 127, 256⟩

theorem pools_kept_recycled :
    Proper cores128 0 ([.alloc 64 2048 (some (64, 2304)), .free 0,
      .alloc 32 1024 none].foldl (step cores128 0) init) := by
  have hroom : Along (step cores128 0) (Room cores128) init [.alloc 64 2048 (some (64, 2304)),
      .free 0, .alloc 32 1024 none] := ⟨trivial, cores128.maxLcore_pos, trivial, trivial⟩
  have hbehind : ∀ i < 127, ((step cores128 0 (step cores128 0 init
      (.alloc 64 2048 (some (64, 2304)))) (.free 0)).table
        (address cores128 0 (i + 1))).isSome = false := by
    decide +kernel
  refine (pools_kept_iff cores128 0 _ hroom).mpr
    ⟨⟨by decide, ?_, by decide⟩, fun _ => by decide, ⟨by decide, ?_, by decide⟩, trivial⟩
  · exact fun i p _ hp _ => nomatch hp
  · intro i p hi _ hnext
    cases (hbehind i (Nat.lt_of_succ_lt_succ hi)).symm.trans hnext

/-- An allocation after two pools were given back gets the first, and neither is left in the
table. -/
theorem pools_lost : ¬ Proper cores128 0 ([.alloc 64 2048 (some (64, 2304)),
    .alloc 64 2048 (some (64, 2304)), .free 0, .free 0,
    .alloc 64 2048 none].foldl (step cores128 0) init) := by
  intro h
  obtain ⟨i, hi, hentry⟩ := (h.stored ⟨0, 64, 2304⟩).mpr (by decide +kernel)
  revert i
  decide +kernel

end Libtrace.DpdkPools
