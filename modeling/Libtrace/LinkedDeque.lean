import Libtrace.Exec
import Mathlib.Data.List.Nodup
import Mathlib.Order.Lattice.Nat

/-! `data-struct/deque.c` and `data-struct/linked_list.c`: nodes in a heap, linked both ways. The
operations are atomic under the lock. -/

namespace Libtrace.LinkedDeque
open Exec Function

inductive Fault where
  | nullPointer
  /-- A node that is not allocated, or not any more. -/
  | dangling
  | assertion
  | unfinished
  deriving DecidableEq, Repr

inductive Side where
  | front
  | back
  deriving DecidableEq, Repr

def Side.other : Side → Side
  | front => back
  | back => front

structure Node (α : Type) where
  data : α
  links : Side → Option Nat

abbrev Heap (α : Type) := Nat → Option (Node α)

structure State (α : Type) where
  heap : Heap α
  ends : Side → Option Nat
  size : Nat

structure Malloc (α : Type) where
  run : Heap α → Nat
  unused : ∀ heap : Heap α, (∃ bound, ∀ p, bound ≤ p → heap p = none) → heap (run heap) = none

variable {α : Type}

noncomputable def leastUnused : Malloc α where
  run heap := sInf {p | heap p = none}
  unused heap h := by
    obtain ⟨bound, hbound⟩ := h
    exact Nat.sInf_mem (s := {p | heap p = none}) ⟨bound, hbound bound (Nat.le_refl _)⟩

def State.init : State α := ⟨fun _ => none, fun _ => none, 0⟩

def deref (heap : Heap α) : Option Nat → Except Fault (Node α)
  | none => .error .nullPointer
  | some p => (heap p).elim (.error .dangling) .ok

def setLink (heap : Heap α) (p : Option Nat) (side : Side) (target : Option Nat) :
    Except Fault (Heap α) := do
  let node ← deref heap p
  return update heap (p.getD 0)
    (some { node with links := update node.links side target })

def pushEmpty (malloc : Malloc α) (other : Side) (d : α) (s : State α) :
    Except Fault (State α) :=
  if s.ends other = none ∧ s.size = 0 then
    .ok ⟨update s.heap (malloc.run s.heap) (some ⟨d, fun _ => none⟩),
      fun _ => some (malloc.run s.heap), s.size + 1⟩
  else .error .assertion

def pushLinked (malloc : Malloc α) (side : Side) (d : α) (s : State α) :
    Except Fault (State α) := do
  let new := malloc.run s.heap
  let heap ← setLink s.heap (s.ends side) side (some new)
  return ⟨update heap new
      (some ⟨d, update (fun _ => none) side.other (s.ends side)⟩),
    update s.ends side (some new), s.size + 1⟩

def dequePushBack (malloc : Malloc α) (d : α) (s : State α) : Except Fault (State α) :=
  if s.ends .front = none then pushEmpty malloc .back d s
  else if s.ends .back = none then .error .assertion
  else pushLinked malloc .back d s

def dequePushFront (malloc : Malloc α) (d : α) (s : State α) : Except Fault (State α) :=
  if s.ends .front = none then pushEmpty malloc .back d s
  else if s.ends .front = none then .error .assertion
  else pushLinked malloc .front d s

def listPushFront (malloc : Malloc α) (d : α) (s : State α) : Except Fault (State α) :=
  if s.ends .front = none then pushEmpty malloc .back d s else pushLinked malloc .front d s

def listPushBack (malloc : Malloc α) (d : α) (s : State α) : Except Fault (State α) :=
  if s.ends .back = none then pushEmpty malloc .front d s else pushLinked malloc .back d s

def unlink (heap : Heap α) (inner : Option Nat) (side : Side) : Except Fault (Heap α) :=
  if inner = none then .ok heap else setLink heap inner side none

def pop (side : Side) (s : State α) : Except Fault (State α × Option α) :=
  if s.ends side = none then .ok (s, none)
  else do
    let first ← deref s.heap (s.ends side)
    let inner := first.links side.other
    let heap ← unlink s.heap inner side
    let ends := update s.ends side inner
    let ends := if s.size - 1 ≤ 1 then update ends side.other inner else ends
    -- The data is copied, and the node freed.
    let n ← deref heap (s.ends side)
    return (⟨update heap ((s.ends side).getD 0) none, ends, s.size - 1⟩, some n.data)

def dequePopFront (s : State α) : Except Fault (State α × Option α) := pop .front s

def dequePopTail (s : State α) : Except Fault (State α × Option α) := pop .back s

def listPopFront (s : State α) : Except Fault (State α × Option α) := pop .front s

def listPopBack (s : State α) : Except Fault (State α × Option α) := pop .back s

def dataAt (heap : Heap α) (p : Option Nat) : Except Fault (Option α) :=
  if p = none then .ok none
  else do
    let node ← deref heap p
    return some node.data

def dequePeekFront (s : State α) : Except Fault (Option α) := dataAt s.heap (s.ends .front)

def dequePeekTail (s : State α) : Except Fault (Option α) := dataAt s.heap (s.ends .back)

def follow (heap : Heap α) : Nat → Option Nat → Except Fault (Option Nat)
  | 0, p => .ok p
  | index + 1, p => do
    let node ← deref heap p
    if node.links .back = none then .error .assertion else follow heap index (node.links .back)

def listGetIndex (index : Nat) (s : State α) : Except Fault (Option Nat) :=
  if index ≥ s.size then .ok none else follow s.heap index (s.ends .front)

inductive Kind where
  | deque
  | list
  deriving DecidableEq, Repr

def push (malloc : Malloc α) : Kind → Side → α → State α → Except Fault (State α)
  | .deque, .front => dequePushFront malloc
  | .deque, .back => dequePushBack malloc
  | .list, .front => listPushFront malloc
  | .list, .back => listPushBack malloc

def popAt : Kind → Side → State α → Except Fault (State α × Option α)
  | .deque, .front => dequePopFront
  | .deque, .back => dequePopTail
  | .list, .front => listPopFront
  | .list, .back => listPopBack

def peekAt : Side → State α → Except Fault (Option α)
  | .front => dequePeekFront
  | .back => dequePeekTail

inductive Operation (α : Type) : Kind → Type where
  | push {kind : Kind} (side : Side) (d : α) : Operation α kind
  | pop {kind : Kind} (side : Side) : Operation α kind
  | getSize {kind : Kind} : Operation α kind
  | peek (side : Side) : Operation α .deque
  | getIndex (index : Nat) : Operation α .list

inductive Result (α : Type) where
  | done
  | element (d : Option α)
  | size (n : Nat)
  deriving DecidableEq

def exec (malloc : Malloc α) {kind : Kind} (s : State α) :
    Operation α kind → Except Fault (State α × Result α)
  | .push side d => do
    let s ← push malloc kind side d s
    return (s, .done)
  | .pop side => do
    let popped ← popAt kind side s
    return (popped.1, .element popped.2)
  | .getSize => .ok (s, .size s.size)
  | .peek side => do
    let d ← peekAt side s
    return (s, .element d)
  | .getIndex index => do
    let p ← listGetIndex index s
    let d ← dataAt s.heap p
    return (s, .element d)

def seen {β : Type} : Side → List β → List β
  | .front, l => l
  | .back, l => l.reverse

def spec {kind : Kind} (l : List α) : Operation α kind → List α × Result α
  | .push .front d => (d :: l, .done)
  | .push .back d => (l ++ [d], .done)
  | .pop .front => (l.tail, .element l.head?)
  | .pop .back => (l.dropLast, .element l.getLast?)
  | .getSize => (l, .size l.length)
  | .peek .front => (l, .element l.head?)
  | .peek .back => (l, .element l.getLast?)
  | .getIndex index => (l, .element l[index]?)

def walk (heap : Heap α) (side : Side) : Nat → Option Nat → Except Fault (List (Nat × α))
  | _, none => .ok []
  | 0, some _ => .error .unfinished
  | fuel + 1, some p => do
    let node ← deref heap (some p)
    let rest ← walk heap side fuel (node.links side.other)
    return (p, node.data) :: rest

structure WellFormed (s : State α) (l : List α) : Prop where
  size : s.size = l.length
  empty : ∀ side, s.ends side = none ↔ s.size = 0
  walks : ∃ cells : List (Nat × α), cells.map Prod.snd = l ∧
    walk s.heap .front s.size (s.ends .front) = .ok cells ∧
    walk s.heap .back s.size (s.ends .back) = .ok cells.reverse ∧
    s.ends .front = cells.head?.map Prod.fst ∧ s.ends .back = cells.getLast?.map Prod.fst

def NodeAt (heap : Heap α) (side : Side) (outer : Option Nat) (c : Nat × α) (inner : Option Nat) :
    Prop :=
  ∃ node, heap c.1 = some node ∧ node.data = c.2 ∧ node.links side = outer ∧
    node.links side.other = inner

def Chain (heap : Heap α) (side : Side) : Option Nat → List (Nat × α) → Option Nat → Prop
  | _, [], _ => True
  | outer, c :: cells, far =>
    NodeAt heap side outer c ((cells.head?.map Prod.fst).or far) ∧
      Chain heap side (some c.1) cells far

structure Linked (side : Side) (s : State α) (cells : List (Nat × α)) : Prop where
  chain : Chain s.heap side none cells none
  near : s.ends side = cells.head?.map Prod.fst
  far : s.ends side.other = cells.getLast?.map Prod.fst
  size : s.size = cells.length
  distinct : (cells.map Prod.fst).Nodup
  bounded : ∃ bound, ∀ p, bound ≤ p → s.heap p = none

section

variable {heap heap' : Heap α} {side : Side} {outer far : Option Nat} {c : Nat × α}
  {cells : List (Nat × α)}

@[simp] theorem other_other (side : Side) : side.other.other = side := by cases side <;> rfl

theorem other_ne (side : Side) : side.other ≠ side := by cases side <;> decide

theorem chain_congr (heq : ∀ c ∈ cells, heap' c.1 = heap c.1)
    (h : Chain heap side outer cells far) : Chain heap' side outer cells far := by
  induction cells generalizing outer with
  | nil => trivial
  | cons c cells ih =>
    obtain ⟨hc, hcells⟩ := List.forall_mem_cons.mp heq
    obtain ⟨⟨node, hnode, hrest⟩, hchain⟩ := h
    exact ⟨⟨node, hc.trans hnode, hrest⟩, ih hcells hchain⟩

theorem chain_concat : Chain heap side outer (cells ++ [c]) far ↔
    Chain heap side outer cells (some c.1) ∧
      NodeAt heap side ((cells.getLast?.map Prod.fst).or outer) c far := by
  induction cells generalizing outer with
  | nil => simp [Chain]
  | cons b cells ih =>
    have hhead : ((cells ++ [c]).head?.map Prod.fst).or far =
        (cells.head?.map Prod.fst).or (some c.1) := by
      cases cells <;> rfl
    have hlast : (cells.getLast?.map Prod.fst).or (some b.1) =
        ((b :: cells).getLast?.map Prod.fst).or outer := by
      rw [List.getLast?_cons]
      cases cells.getLast? <;> rfl
    rw [List.cons_append, Chain, hhead, ih, hlast, Chain, and_assoc]

theorem chain_allocated (h : Chain heap side outer cells far) (hc : c ∈ cells) :
    heap c.1 ≠ none := by
  induction cells generalizing outer with
  | nil => exact absurd hc List.not_mem_nil
  | cons b cells ih =>
    rcases List.mem_cons.mp hc with rfl | hmem
    · obtain ⟨node, hnode, -⟩ := h.1
      rw [hnode]
      exact Option.some_ne_none node
    · exact ih h.2 hmem

theorem nodeAt_flip {inner : Option Nat} :
    NodeAt heap side outer c inner ↔ NodeAt heap side.other inner c outer := by
  simp only [NodeAt, other_other]
  exact exists_congr fun node => and_congr_right fun _ => and_congr_right fun _ => and_comm

theorem chain_reverse : Chain heap side outer cells far ↔
    Chain heap side.other far cells.reverse outer := by
  induction cells generalizing outer with
  | nil => exact Iff.rfl
  | cons c cells ih =>
    rw [List.reverse_cons, chain_concat, ← ih, List.getLast?_reverse, ← nodeAt_flip]
    exact and_comm

theorem Linked.reverse {s : State α} (h : Linked side s cells) :
    Linked side.other s cells.reverse where
  chain := chain_reverse.mp h.chain
  near := by rw [List.head?_reverse]; exact h.far
  far := by rw [List.getLast?_reverse, other_other]; exact h.near
  size := by rw [List.length_reverse]; exact h.size
  distinct := by rw [List.map_reverse, List.nodup_reverse]; exact h.distinct
  bounded := h.bounded

end

section

variable {side : Side} {s : State α} {cells : List (Nat × α)} {c : Nat × α}

theorem Linked.ends_eq_none (h : Linked side s cells) (e : Side) :
    s.ends e = none ↔ cells = [] := by
  by_cases he : e = side
  · rw [he, h.near, Option.map_eq_none_iff, List.head?_eq_none_iff]
  · obtain rfl : e = side.other := by
      cases side <;> cases e <;> first | rfl | exact absurd rfl he
    rw [h.far, Option.map_eq_none_iff, List.getLast?_eq_none_iff]

variable {heap : Heap α} {p : Nat} {node : Node α} {outer far : Option Nat}

theorem deref_some (h : heap p = some node) : deref heap (some p) = .ok node := by
  rw [deref, h]
  rfl

theorem dataAt_some (h : heap p = some node) : dataAt heap (some p) = .ok (some node.data) := by
  rw [dataAt, if_neg (Option.some_ne_none _), deref_some h]
  rfl

theorem setLink_some (h : heap p = some node) (side : Side) (target : Option Nat) :
    setLink heap (some p) side target = .ok (update heap p
      (some { node with links := update node.links side target })) := by
  rw [setLink, deref_some h]
  rfl

theorem bounded_update (h : ∃ bound, ∀ p, bound ≤ p → heap p = none) (p : Nat)
    (node : Option (Node α)) : ∃ bound, ∀ q, bound ≤ q → update heap p node q = none := by
  obtain ⟨bound, hbound⟩ := h
  refine ⟨max bound (p + 1), fun q hq => ?_⟩
  rw [update_of_ne (by omega)]
  exact hbound q (by omega)

theorem chain_setLink (target : Option Nat) (h : Chain heap side outer (c :: cells) far)
    (hc : c.1 ∉ cells.map Prod.fst) :
    ∃ node, setLink heap (some c.1) side target = .ok (update heap c.1 (some node)) ∧
      Chain (update heap c.1 (some node)) side target (c :: cells) far := by
  obtain ⟨⟨node, hnode, hdata, -, hinner⟩, hchain⟩ := h
  refine ⟨_, setLink_some hnode side target, ⟨_, update_self .., hdata, ?_, ?_⟩, ?_⟩
  · exact update_self ..
  · exact (update_of_ne (other_ne side) ..).trans hinner
  · refine chain_congr (fun b hb => update_of_ne ?_ ..) hchain
    exact fun heq => hc (heq ▸ List.mem_map_of_mem hb)

theorem Linked.pushEmpty (malloc : Malloc α) (h : Linked side s []) (other : Side) (d : α) :
    ∃ s', pushEmpty malloc other d s = .ok s' ∧
      Linked side s' [(malloc.run s.heap, d)] := by
  refine ⟨_, if_pos ⟨(h.ends_eq_none other).mpr rfl, h.size⟩, ?_⟩
  refine ⟨⟨⟨_, update_self .., rfl, rfl, rfl⟩, trivial⟩, rfl, rfl, ?_,
    List.nodup_singleton _, bounded_update h.bounded _ _⟩
  rw [h.size]
  rfl

theorem Linked.pushLinked (malloc : Malloc α) (h : Linked side s (c :: cells)) (d : α) :
    ∃ s', pushLinked malloc side d s = .ok s' ∧
      Linked side s' ((malloc.run s.heap, d) :: c :: cells) := by
  have hunused := malloc.unused s.heap h.bounded
  have hnew : ∀ b ∈ c :: cells, b.1 ≠ malloc.run s.heap := fun b hb heq =>
    chain_allocated h.chain hb (heq ▸ hunused)
  have hnear : s.ends side = some c.1 := h.near
  obtain ⟨node, hset, hchain⟩ := chain_setLink (some (malloc.run s.heap)) h.chain
    (List.nodup_cons.mp h.distinct).1
  refine ⟨_, by rw [LinkedDeque.pushLinked, hnear, hset]; rfl, ?_⟩
  refine ⟨⟨⟨_, update_self .., rfl, ?_, ?_⟩, ?_⟩, update_self .., ?_, ?_, ?_, ?_⟩
  · dsimp only
    rw [update_of_ne (other_ne side).symm]
  · dsimp only
    rw [update_self]
    rfl
  · exact chain_congr (fun b hb => update_of_ne (hnew b hb) ..) hchain
  · exact (update_of_ne (other_ne side) ..).trans h.far
  · exact congrArg (· + 1) h.size
  · refine List.nodup_cons.mpr ⟨fun hmem => ?_, h.distinct⟩
    obtain ⟨b, hb, heq⟩ := List.mem_map.mp hmem
    exact hnew b hb heq
  · exact bounded_update (bounded_update h.bounded _ _) _ _

theorem unlink_chain (h : Chain heap side outer cells far) (hdistinct : (cells.map Prod.fst).Nodup)
    (hbounded : ∃ bound, ∀ p, bound ≤ p → heap p = none) :
    ∃ heap', unlink heap (cells.head?.map Prod.fst) side = .ok heap' ∧
      Chain heap' side none cells far ∧ (∀ p, p ∉ cells.map Prod.fst → heap' p = heap p) ∧
      ∃ bound, ∀ p, bound ≤ p → heap' p = none := by
  cases cells with
  | nil => exact ⟨heap, rfl, trivial, fun _ _ => rfl, hbounded⟩
  | cons c cells =>
    obtain ⟨node, hset, hchain⟩ := chain_setLink none h (List.nodup_cons.mp hdistinct).1
    refine ⟨_, hset, hchain, fun p hp => update_of_ne ?_ .., bounded_update hbounded _ _⟩
    exact fun heq => hp (heq ▸ List.mem_cons_self)

theorem Linked.pop (h : Linked side s cells) :
    ∃ s', pop side s = .ok (s', cells.head?.map Prod.snd) ∧ Linked side s' cells.tail := by
  cases cells with
  | nil => exact ⟨s, if_pos h.near, h⟩
  | cons c cells =>
    have hnear : s.ends side = some c.1 := h.near
    obtain ⟨hc, hdistinct⟩ := List.nodup_cons.mp h.distinct
    obtain ⟨⟨node, hnode, hdata, -, hinner⟩, hchain⟩ := h.chain
    rw [Option.or_none] at hinner
    obtain ⟨heap', hunlink, hchain', hframe, hbounded⟩ := unlink_chain hchain hdistinct h.bounded
    have hkept : heap' c.1 = some node := (hframe c.1 hc).trans hnode
    have hsize : s.size - 1 = cells.length := by rw [h.size]; rfl
    refine ⟨_, by
      rw [LinkedDeque.pop, hnear, if_neg (Option.some_ne_none _), deref_some hnode, ok_bind]
      simp only [hinner, hunlink, ok_bind, deref_some hkept, hsize, hdata]
      rfl, ?_⟩
    refine ⟨?_, ?_, ?_, rfl, hdistinct, bounded_update hbounded _ _⟩
    · refine chain_congr (fun b hb => update_of_ne ?_ ..) hchain'
      exact fun (heq : b.1 = c.1) => hc (heq ▸ List.mem_map_of_mem hb)
    · dsimp only
      split
      · rw [update_of_ne (other_ne side).symm, update_self]
        rfl
      · exact update_self ..
    · -- With at most one node left both ends are the same.
      dsimp only
      split
      · rw [update_self]
        cases cells with
        | nil => rfl
        | cons b cells =>
          obtain rfl : cells = [] := List.length_eq_zero_iff.mp (Nat.le_zero.mp
            (Nat.le_of_succ_le_succ ‹_›))
          rfl
      · rename_i hmore
        rw [update_of_ne (other_ne side), h.far]
        cases cells with
        | nil => exact absurd (Nat.zero_le 1) hmore
        | cons b cells => rfl

theorem Linked.dataAt (h : Linked side s cells) :
    dataAt s.heap (s.ends side) = .ok (cells.head?.map Prod.snd) := by
  rw [h.near]
  cases cells with
  | nil => rfl
  | cons c cells =>
    obtain ⟨node, hnode, hdata, -⟩ := h.chain.1
    rw [List.head?_cons, Option.map_some, Option.map_some, dataAt_some hnode, hdata]

theorem walk_chain (h : Chain heap side outer cells none) :
    walk heap side cells.length (cells.head?.map Prod.fst) = .ok cells := by
  induction cells generalizing outer with
  | nil => rfl
  | cons c cells ih =>
    obtain ⟨⟨node, hnode, hdata, -, hinner⟩, hchain⟩ := h
    rw [Option.or_none] at hinner
    rw [List.head?_cons, Option.map_some, List.length_cons, walk, deref_some hnode, ok_bind, hinner,
      ih hchain, hdata]
    rfl

theorem follow_chain {index : Nat} (h : Chain heap .front outer cells none)
    (hindex : index < cells.length) :
    ∃ p, follow heap index (cells.head?.map Prod.fst) = .ok (some p) ∧
      LinkedDeque.dataAt heap (some p) = .ok (cells[index]?.map Prod.snd) := by
  induction cells generalizing outer index with
  | nil => exact absurd hindex (Nat.not_lt_zero index)
  | cons c cells ih =>
    obtain ⟨⟨node, hnode, hdata, -, hinner⟩, hchain⟩ := h
    rw [Option.or_none] at hinner
    cases index with
    | zero =>
      refine ⟨c.1, rfl, ?_⟩
      rw [dataAt_some hnode, hdata]
      rfl
    | succ index =>
      have hlt : index < cells.length := Nat.lt_of_succ_lt_succ hindex
      obtain ⟨p, hfollow, hp⟩ := ih hchain hlt
      refine ⟨p, ?_, hp⟩
      have hsome : cells.head?.map Prod.fst ≠ none := by
        cases cells with
        | nil => exact absurd hlt (Nat.not_lt_zero index)
        | cons b cells => exact Option.some_ne_none _
      change node.links .back = cells.head?.map Prod.fst at hinner
      rw [List.head?_cons, Option.map_some, follow, deref_some hnode, ok_bind, hinner,
        if_neg hsome, hfollow]

end

theorem seen_seen {β : Type} (side : Side) (l : List β) : seen side (seen side l) = l := by
  cases side
  · rfl
  · exact List.reverse_reverse l

variable {s : State α} {cells : List (Nat × α)}

theorem Linked.seen (side : Side) : Linked .front s cells ↔ Linked side s (seen side cells) := by
  cases side with
  | front => exact Iff.rfl
  | back =>
    refine ⟨fun h => h.reverse, fun h => ?_⟩
    have hback := h.reverse
    rwa [LinkedDeque.seen, List.reverse_reverse] at hback

section

variable (malloc : Malloc α) (kind : Kind) (side : Side) (d : α)
include malloc kind side d

theorem push_empty (h : ∀ e, s.ends e = none) :
    ∃ other, push malloc kind side d s = pushEmpty malloc other d s := by
  cases kind <;> cases side
  · exact ⟨.back, if_pos (h .front)⟩
  · exact ⟨.back, if_pos (h .front)⟩
  · exact ⟨.back, if_pos (h .front)⟩
  · exact ⟨.front, if_pos (h .back)⟩

theorem push_linked (h : ∀ e, s.ends e ≠ none) :
    push malloc kind side d s = pushLinked malloc side d s := by
  cases kind <;> cases side <;>
    simp [push, dequePushFront, dequePushBack, listPushFront, listPushBack, h]

theorem Linked.push (h : Linked side s cells) :
    ∃ s', push malloc kind side d s = .ok s' ∧
      Linked side s' ((malloc.run s.heap, d) :: cells) := by
  cases cells with
  | nil =>
    obtain ⟨other, heq⟩ := push_empty malloc kind side d fun e => (h.ends_eq_none e).mpr rfl
    rw [heq]
    exact h.pushEmpty malloc other d
  | cons c cells =>
    rw [push_linked malloc kind side d fun e hnone =>
      absurd ((h.ends_eq_none e).mp hnone) (List.cons_ne_nil _ _)]
    exact h.pushLinked malloc d

end

theorem popAt_eq (kind : Kind) (side : Side) : popAt kind side = pop (α := α) side := by
  cases kind <;> cases side <;> rfl

theorem peekAt_eq (side : Side) (s : State α) : peekAt side s = dataAt s.heap (s.ends side) := by
  cases side <;> rfl

theorem exec_linked (malloc : Malloc α) {kind : Kind} (s : State α) (l : List α)
    (op : Operation α kind) (h : ∃ cells, Linked .front s cells ∧ cells.map Prod.snd = l) :
    ∃ s', exec malloc s op = .ok (s', (spec l op).2) ∧
      ∃ cells, Linked .front s' cells ∧ cells.map Prod.snd = (spec l op).1 := by
  obtain ⟨cells, h, rfl⟩ := h
  cases op with
  | push side d =>
    obtain ⟨s', hpush, h'⟩ := ((Linked.seen side).mp h).push malloc kind side d
    refine ⟨s', ?_, LinkedDeque.seen side ((malloc.run s.heap, d) :: LinkedDeque.seen side cells),
      (Linked.seen side).mpr (by rw [seen_seen]; exact h'), ?_⟩
    · rw [exec, hpush]
      cases side <;> rfl
    · cases side <;> simp [LinkedDeque.seen, spec]
  | pop side =>
    obtain ⟨s', hpop, h'⟩ := ((Linked.seen side).mp h).pop
    refine ⟨s', ?_, LinkedDeque.seen side (LinkedDeque.seen side cells).tail,
      (Linked.seen side).mpr (by rw [seen_seen]; exact h'), ?_⟩
    · rw [exec, popAt_eq, hpop]
      cases side <;> simp [LinkedDeque.seen, spec]
    · cases side <;> simp [LinkedDeque.seen, spec]
  | getSize =>
    refine ⟨s, ?_, cells, h, rfl⟩
    rw [exec, h.size, spec, List.length_map]
  | peek side =>
    refine ⟨s, ?_, cells, h, by cases side <;> rfl⟩
    rw [exec, peekAt_eq, ((Linked.seen side).mp h).dataAt]
    cases side <;> simp [LinkedDeque.seen, spec]
  | getIndex index =>
    refine ⟨s, ?_, cells, h, rfl⟩
    rw [exec, listGetIndex, h.size, spec, List.getElem?_map]
    by_cases hlt : index < cells.length
    · obtain ⟨p, hfollow, hp⟩ := follow_chain h.chain hlt
      rw [if_neg (Nat.not_le_of_lt hlt), h.near, hfollow, ok_bind, hp]
      rfl
    · rw [if_pos (Nat.le_of_not_lt hlt), List.getElem?_eq_none (Nat.le_of_not_lt hlt)]
      rfl

theorem Linked.wellFormed (h : Linked .front s cells) : WellFormed s (cells.map Prod.snd) where
  size := by rw [List.length_map]; exact h.size
  empty side := by
    rw [h.ends_eq_none, h.size, List.length_eq_zero_iff]
  walks := by
    have hforth := walk_chain h.chain
    have hback := walk_chain h.reverse.chain
    rw [← h.size, ← h.near] at hforth
    rw [← h.reverse.size, ← h.reverse.near] at hback
    exact ⟨cells, rfl, hforth, hback, h.near, h.far⟩

/-- Whatever is done with a new deque or list, no assertion fails, no node is used that is not
allocated, the results are those of a list, and the nodes stay linked both ways. -/
theorem linked_refines_list (malloc : Malloc α) (kind : Kind) (ops : List (Operation α kind)) :
    ∃ s', execAll (exec malloc) State.init ops = .ok (s', (specAll spec [] ops).2) ∧
      WellFormed s' (specAll spec [] ops).1 := by
  have hinit : Linked .front (State.init (α := α)) [] :=
    ⟨trivial, rfl, rfl, rfl, List.nodup_nil, 0, fun _ _ => rfl⟩
  obtain ⟨s', hrun, cells, h, hcells⟩ :=
    execAll_refines (exec_linked malloc) ⟨[], hinit, rfl⟩ ops
  exact ⟨s', hrun, hcells ▸ h.wellFormed⟩

theorem leastUnused_refines_list :
    ∃ s', execAll (exec leastUnused) State.init
        ([.push .front 1, .push .back 2, .pop .front, .peek .back] : List (Operation Nat .deque)) =
      .ok (s', [.done, .done, .element (some 1), .element (some 2)]) ∧ WellFormed s' [2] :=
  linked_refines_list leastUnused .deque [.push .front 1, .push .back 2, .pop .front, .peek .back]

end Libtrace.LinkedDeque
