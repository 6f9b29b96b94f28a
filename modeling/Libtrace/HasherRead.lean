import Mathlib.Data.List.Basic
import Mathlib.Logic.Function.Basic

/-! `trace_pread_packet_hasher_thread`: how a per-packet thread takes a batch off the ring buffer of
the hasher. The queue holds what the hasher will ever write; how much a call finds is left open. -/

namespace Libtrace.HasherRead
open Function

def readEof : Int := 0

def readError : Int := -1

def readMessage : Int := -2

def readTick : Int := -3

structure Packet (α : Type) where
  error : Int
  body : α
  deriving DecidableEq, Repr

structure Perpkt (α : Type) where
  rbuffer : List (Packet α)
  formatData : Option (Packet α)
  packets : Nat → Option (Packet α)
  freed : List (Packet α)

variable {α : Type}

def Perpkt.recycle (t : Perpkt α) (i : Nat) : Perpkt α :=
  { t with freed := t.freed ++ (t.packets i).toList }

def Perpkt.put (t : Perpkt α) (i : Nat) (p : Option (Packet α)) : Perpkt α :=
  { t with packets := update t.packets i p }

/-- From index `i`, with `left` slots to go and `ready` more packets that `try_read` finds. -/
def fillBatch (first : Packet α) : (left i ready : Nat) → Perpkt α → Nat × Perpkt α
  | 0, i, _, t => (i, t)
  | left + 1, i, ready, t =>
    match ready, t.rbuffer with
    | ready + 1, p :: rest =>
      let t := { t.recycle i with rbuffer := rest }.put i (some p)
      -- the source tests the tick at index 0 here as well, not at index i
      if p.error ≤ 0 ∧ first.error ≠ readTick then
        (i, if p.error ≠ readMessage then { t with formatData := some p } else t)
      else fillBatch first left (i + 1) ready t
    | _, _ => (i, (t.recycle i).put i none)

def preadHasherThread (nbPackets ready : Nat) (t : Perpkt α) : Option (Int × Perpkt α) :=
  match t.formatData with
  | some p => some (p.error, t)
  | none =>
    match t.rbuffer with
    | [] => none
    | p :: rest =>
      let t := { t.recycle 0 with rbuffer := rest }.put 0 (some p)
      if p.error ≤ 0 ∧ p.error ≠ readTick then some (p.error, t)
      else
        let r := fillBatch p (nbPackets - 1) 1 ready t
        some (r.1, r.2)

def batch (n : Nat) (packets : Nat → Option (Packet α)) : List (Packet α) :=
  (List.range n).filterMap packets

/-- What the calls hand out, and what ended them. Call `k` finds `ready k` packets after its first,
and the array as `given k`. -/
def readAll (nbPackets : Nat) (ready : Nat → Nat) (given : Nat → Nat → Option (Packet α)) :
    (calls k : Nat) → Perpkt α → List (List (Packet α)) × Option Int
  | 0, _, _ => ([], none)
  | calls + 1, k, t =>
    match preadHasherThread nbPackets (ready k) { t with packets := given k } with
    | none => ([], none)
    | some (ret, t) =>
      if ret ≤ 0 then ([], some ret)
      else
        let r := readAll nbPackets ready given calls (k + 1) t
        (batch ret.toNat t.packets :: r.1, r.2)

/-- What the hasher writes to a thread: data and ticks, then its last failed read. -/
structure Stream (α : Type) where
  items : List (Packet α)
  last : Packet α
  items_ok : ∀ p ∈ items, 0 < p.error ∨ p.error = readTick
  last_ok : last.error = readEof ∨ last.error = readError

def Stream.start (s : Stream α) : Perpkt α := ⟨s.items ++ [s.last], none, fun _ => none, []⟩

/-- The data and the ticks in order, and then the error of the last packet. -/
def Delivers (nbPackets : Nat) (ready : Nat → Nat) (given : Nat → Nat → Option (Packet α))
    (s : Stream α) : Prop :=
  ∃ calls batches, readAll nbPackets ready given calls 0 s.start = (batches, some s.last.error) ∧
    batches.flatten = s.items

/-- What each call may take: the packet it waits for and those ready after it. -/
def cut (nbPackets : Nat) (ready : Nat → Nat) (k : Nat) : List (Packet α) → List (List (Packet α))
  | [] => []
  | p :: rest =>
    let n := min (nbPackets - 1) (ready k)
    (p :: rest.take n) :: cut nbPackets ready (k + 1) (rest.drop n)
  termination_by l => l.length
  decreasing_by simp only [List.length_cons, List.length_drop]; omega

def Unmixed : List (Packet α) → Prop
  | [] => True
  | p :: rest =>
    if p.error = readTick then ∀ q ∈ rest, 0 < q.error ∨ q.error = readTick
    else ∀ q ∈ rest, q.error ≠ readTick

section

@[simp] theorem batch_zero (packets : Nat → Option (Packet α)) : batch 0 packets = [] := rfl

section

variable (n : Nat) (packets : Nat → Option (Packet α))
include n packets

theorem batch_succ :
    batch (n + 1) packets = batch n packets ++ (packets n).toList := by
  simp only [batch, List.range_succ, List.filterMap_append]
  congr 1

theorem batch_update (p : Option (Packet α)) : batch n (update packets n p) = batch n packets := by
  refine List.filterMap_congr fun i hi => ?_
  rw [update_of_ne (Nat.ne_of_lt (List.mem_range.mp hi))]

theorem batch_put (p : Packet α) :
    batch (n + 1) (update packets n (some p)) = batch n packets ++ [p] := by
  rw [batch_succ, batch_update, update_self, Option.toList_some]

end

def Passes (first p : Packet α) : Prop := ¬ (p.error ≤ 0 ∧ first.error ≠ readTick)

theorem fillBatch_passes (first : Packet α) (left i ready : Nat) (t : Perpkt α)
    (hpass : ∀ p ∈ t.rbuffer.take (min left ready), Passes first p) :
    let r := fillBatch first left i ready t
    r.1 = i + (t.rbuffer.take (min left ready)).length ∧
      batch r.1 r.2.packets = batch i t.packets ++ t.rbuffer.take (min left ready) ∧
      r.2.rbuffer = t.rbuffer.drop (min left ready) ∧ r.2.formatData = t.formatData := by
  induction left generalizing i ready t with
  | zero => simp [fillBatch]
  | succ left ih =>
    cases ready with
    | zero => simp [fillBatch, Perpkt.put, Perpkt.recycle, batch_update]
    | succ ready =>
      cases hq : t.rbuffer with
      | nil => simp [fillBatch, hq, Perpkt.put, Perpkt.recycle, batch_update]
      | cons p rest =>
        rw [hq, Nat.succ_min_succ, List.take_succ_cons] at hpass
        have hp : Passes first p := hpass p List.mem_cons_self
        simp only [fillBatch, hq, if_neg hp]
        obtain ⟨h1, h2, h3, h4⟩ := ih (i + 1) ready
          ({ t.recycle i with rbuffer := rest }.put i (some p))
          fun q hmem => hpass q (List.mem_cons_of_mem _ hmem)
        refine ⟨?_, ?_, ?_, h4⟩
        · rw [h1, Nat.succ_min_succ, List.take_succ_cons, List.length_cons]
          simp only [Perpkt.put]
          omega
        · rw [h2, Nat.succ_min_succ, List.take_succ_cons]
          simp only [Perpkt.put, Perpkt.recycle, batch_put, List.append_assoc,
            List.singleton_append]
        · rw [h3, Nat.succ_min_succ, List.drop_succ_cons]
          rfl

theorem fillBatch_stops (first : Packet α) (left i ready : Nat) (t : Perpkt α)
    {pre post : List (Packet α)} {q : Packet α} (hq : t.rbuffer = pre ++ q :: post)
    (hpre : ∀ p ∈ pre, Passes first p) (hstop : ¬ Passes first q) (hmsg : q.error ≠ readMessage)
    (hlen : pre.length < min left ready) :
    let r := fillBatch first left i ready t
    r.1 = i + pre.length ∧ batch r.1 r.2.packets = batch i t.packets ++ pre ∧
      r.2.formatData = some q := by
  have hstop' : q.error ≤ 0 ∧ first.error ≠ readTick := not_not.mp hstop
  induction pre generalizing left i ready t with
  | nil =>
    obtain ⟨left, rfl⟩ : ∃ l, left = l + 1 := ⟨left - 1, by simp at hlen; omega⟩
    obtain ⟨ready, rfl⟩ : ∃ l, ready = l + 1 := ⟨ready - 1, by simp at hlen; omega⟩
    simp [fillBatch, hq, hstop', hmsg, Perpkt.put, Perpkt.recycle, batch_update]
  | cons p pre ih =>
    obtain ⟨left, rfl⟩ : ∃ l, left = l + 1 := ⟨left - 1, by simp at hlen; omega⟩
    obtain ⟨ready, rfl⟩ : ∃ l, ready = l + 1 := ⟨ready - 1, by simp at hlen; omega⟩
    rw [List.cons_append] at hq
    have hp : Passes first p := hpre p List.mem_cons_self
    simp only [fillBatch, hq, if_neg hp]
    obtain ⟨h1, h2, h3⟩ := ih left (i + 1) ready
      ({ t.recycle i with rbuffer := pre ++ q :: post }.put i (some p)) rfl
      (fun x hx => hpre x (List.mem_cons_of_mem _ hx))
      (by simp only [List.length_cons] at hlen; omega)
    refine ⟨?_, ?_, h3⟩
    · rw [h1, List.length_cons]
      omega
    · rw [h2]
      simp only [Perpkt.put, Perpkt.recycle, batch_put, List.append_assoc, List.singleton_append]

end

end Libtrace.HasherRead
