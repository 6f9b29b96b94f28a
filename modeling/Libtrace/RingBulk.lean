import Libtrace.RingBuffer

/-! `write_bulk` and `read_bulk` of `data-struct/ring_buffer.c`, with one writer and one reader.
Each mention of `start` or `end` in `is_full`, `is_empty`, `nb_full` and `nb_empty` is a load of its
own. -/

namespace Libtrace.RingBulk
open RingFifo RingBuffer

def addSize (a b : Nat) : Nat := (a + b) % 2 ^ 64

def subSize (a b : Nat) : Nat := (a + 2 ^ 64 - b) % 2 ^ 64

def nbFull (size : Nat) (below : Bool) (s e : Nat) : Nat :=
  if below then subSize (addSize e size) s else subSize e s

def nbEmpty (size : Nat) (below : Bool) (s e : Nat) : Nat :=
  if below then subSize (subSize (addSize s size) e) 1 else subSize (subSize s e) 1

def filledSlots (size s e : Nat) : Nat := (e + size - s) % size

def freeSlots (size s e : Nat) : Nat := (s + size - e - 1) % size

/-- A side moves the index `own` and looks at the index `other`. -/
structure Side (α : Type) where
  own : RingQueue α → Nat
  other : RingQueue α → Nat
  blocked : (size own other : Nat) → Bool
  /-- The comparison that chooses the branch of `nb_empty` or `nb_full`. -/
  below : (own other : Nat) → Bool
  count : (size : Nat) → (below : Bool) → (own other : Nat) → Nat
  /-- The slots that the side may use, by the two indices of one moment. -/
  slots : (size own other : Nat) → Nat
  touch : RingQueue α → Nat → α → RingQueue α
  setOwn : RingQueue α → Nat → RingQueue α
  mark : Bool

variable {α : Type}

def writeBulk : Side α where
  own q := q.end_
  other q := q.start
  blocked size e s := decide (isFull size s e)
  below e s := decide (s ≤ e)
  count size below e s := nbEmpty size below s e
  slots size e s := freeSlots size s e
  touch := RingQueue.store
  setOwn := RingQueue.setEnd
  mark := true

def readBulk : Side α where
  own q := q.start
  other q := q.end_
  blocked _ s e := decide (isEmpty s e)
  below s e := decide (e < s)
  count size below s e := nbFull size below s e
  slots size s e := filledSlots size s e
  touch q s _ := q.load s
  setOwn := RingQueue.setStart
  mark := false

inductive Pair where
  | fresh
  | gotOwn (w : Nat)
  | gotOther (o : Nat)
  deriving DecidableEq, Repr

variable (side : Side α)

def Pair.next (q : RingQueue α) (ownFirst : Bool) : Pair → Pair ⊕ (Nat × Nat)
  | .fresh => .inl (if ownFirst then .gotOwn (side.own q) else .gotOther (side.other q))
  | .gotOwn w => .inr (w, side.other q)
  | .gotOther o => .inr (side.own q, o)

structure Call (α : Type) where
  values : Nat → α
  nb : Nat
  min : Nat

inductive BulkPc (α : Type) where
  | idle
  | early (c : Call α) (l : Pair)
  | wait (c : Call α) (i : Nat) (l : Pair)
  | compare (c : Call α) (i : Nat) (l : Pair)
  | count (c : Call α) (i : Nat) (below : Bool) (l : Pair)
  | load (c : Call α) (i ready : Nat)
  | touch (c : Call α) (i ready x : Nat)
  | set (c : Call α) (i x : Nat)

structure Shared (α : Type) where
  ring : RingQueue α
  filled : Nat → Bool

def nbReady (size : Nat) (c : Call α) (i : Nat) (below : Bool) (w o : Nat) : Nat :=
  min (side.count size below w o) (c.nb - i)

/-- One load, store or element access; an idle thread makes `call`, unless the assertion on its
arguments stops it. -/
def bulkStep (size : Nat) (call : Call α) (ownFirst : Bool) (m : Shared α) :
    BulkPc α → Shared α × BulkPc α
  | .idle =>
    if call.min ≤ call.nb then
      (m, if call.min = 0 then .early call .fresh else .wait call 0 .fresh)
    else (m, .idle)
  | .early c l =>
    match l.next side m.ring ownFirst with
    | .inl l => (m, .early c l)
    | .inr (w, o) => (m, if side.blocked size w o then .idle else .wait c 0 .fresh)
  | .wait c i l =>
    match l.next side m.ring ownFirst with
    | .inl l => (m, .wait c i l)
    | .inr (w, o) => (m, if side.blocked size w o then .wait c i .fresh else .compare c i .fresh)
  | .compare c i l =>
    match l.next side m.ring ownFirst with
    | .inl l => (m, .compare c i l)
    | .inr (w, o) => (m, .count c i (side.below w o) .fresh)
  | .count c i below l =>
    match l.next side m.ring ownFirst with
    | .inl l => (m, .count c i below l)
    | .inr (w, o) => (m, .load c i (nbReady side size c i below w o + i))
  | .load c i ready =>
    (m, if i < ready then .touch c i ready (side.own m.ring) else .set c i (side.own m.ring))
  | .touch c i ready x =>
    (⟨side.touch m.ring x (c.values i), Function.update m.filled x side.mark⟩,
      if i + 1 < ready then .touch c (i + 1) ready ((x + 1) % size)
      else .set c (i + 1) ((x + 1) % size))
  | .set c i x =>
    ({ m with ring := side.setOwn m.ring x }, if i < c.min then .wait c i .fresh else .idle)

structure State (α : Type) where
  shared : Shared α
  writer : BulkPc α
  reader : BulkPc α

def bulkInit (memory : Nat → α) : State α :=
  ⟨⟨RingQueue.empty memory, fun _ => false⟩, .idle, .idle⟩

inductive Action (α : Type) where
  | writer (call : Call α) (ownFirst : Bool)
  | reader (call : Call α) (ownFirst : Bool)

def step (size : Nat) (s : State α) : Action α → State α
  | .writer call ownFirst =>
    let r := bulkStep writeBulk size call ownFirst s.shared s.writer
    ⟨r.1, r.2, s.reader⟩
  | .reader call ownFirst =>
    let r := bulkStep readBulk size call ownFirst s.shared s.reader
    ⟨r.1, s.writer, r.2⟩

/-- The next element access finds its slot as it must be, and the count is within the slots there
are. -/
def Keeps (size : Nat) (ownFirst : Bool) (m : Shared α) : BulkPc α → Prop
  | .count c i below l =>
    match l.next side m.ring ownFirst with
    | .inl _ => True
    | .inr (w, o) =>
      nbReady side size c i below w o ≤ side.slots size (side.own m.ring) (side.other m.ring)
  | .touch _ _ _ x => m.filled x = !side.mark
  | _ => True

/-- Unless `nb_empty` or `nb_full` is in its `else` branch, the other index is still where the
comparison saw it, or the call asks for no more than is there. -/
def Steady (size : Nat) (ownFirst : Bool) (m : Shared α) : BulkPc α → Prop
  | .count c i below l =>
    match l.next side m.ring ownFirst with
    | .inl _ => True
    | .inr (w, o) => below = true ∨ side.below w o = false ∨
        c.nb - i ≤ side.slots size (side.own m.ring) (side.other m.ring)
  | _ => True

instance (side : Side α) (size : Nat) (ownFirst : Bool) (m : Shared α) (pc : BulkPc α) :
    Decidable (Keeps side size ownFirst m pc) := by
  unfold Keeps
  split
  · split <;> infer_instance
  · infer_instance
  · infer_instance

def NoClobber (size : Nat) (s : State α) : Action α → Prop
  | .writer _ ownFirst => Keeps writeBulk size ownFirst s.shared s.writer
  | .reader _ ownFirst => Keeps readBulk size ownFirst s.shared s.reader

def Unturned (size : Nat) (s : State α) : Action α → Prop
  | .writer _ ownFirst => Steady writeBulk size ownFirst s.shared s.writer
  | .reader _ ownFirst => Steady readBulk size ownFirst s.shared s.reader

instance (size : Nat) (s : State α) : (a : Action α) → Decidable (NoClobber size s a)
  | .writer .. => inferInstanceAs (Decidable (Keeps ..))
  | .reader .. => inferInstanceAs (Decidable (Keeps ..))

end Libtrace.RingBulk
