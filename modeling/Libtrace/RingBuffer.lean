import Libtrace.RingFifo

/-! `data-struct/ring_buffer.c` with its default mutexes: any number of writers in `swrite`,
`try_swrite` and `try_swrite_bl`, and readers in `sread`, `try_sread` and `try_sread_bl`. A step is
one load or store of `start`, `end` or an element, or one lock operation. The condition variables of
`LIBTRACE_RINGBUFFER_BLOCKING` only make a thread wait longer, and are left out. -/

namespace Libtrace.RingBuffer
open RingFifo

/-- C leaves the order of the two loads of `is_full` and `is_empty` open. -/
inductive Loads where
  | fresh
  | gotStart (s : Nat)
  | gotEnd (e : Nat)
  deriving DecidableEq, Repr

def Loads.next {α : Type} (ring : RingQueue α) (endFirst : Bool) : Loads → Loads ⊕ (Nat × Nat)
  | .fresh => .inl (if endFirst then .gotEnd ring.end_ else .gotStart ring.start)
  | .gotStart s => .inr (s, ring.end_)
  | .gotEnd e => .inr (ring.start, e)

def isFull (size s e : Nat) : Prop := s = (e + 1) % size

def isEmpty (s e : Nat) : Prop := s = e

instance (size s e : Nat) : Decidable (isFull size s e) := inferInstanceAs (Decidable (_ = _))

instance (s e : Nat) : Decidable (isEmpty s e) := inferInstanceAs (Decidable (_ = _))

inductive WriteOp where
  | swrite
  | trySwrite
  | trySwriteBl
  deriving DecidableEq, Repr

inductive ReadOp where
  | sread
  | trySread
  | trySreadBl
  deriving DecidableEq, Repr

inductive WriterPc (α : Type) where
  | idle
  | early (op : WriteOp) (v : α) (l : Loads)
  | lock (op : WriteOp) (v : α)
  | tryFull (v : α) (l : Loads)
  | waitForEmpty (v : α) (l : Loads)
  | loadEnd (v : α)
  | storeElement (v : α) (e : Nat)
  | reloadEnd
  | storeEnd (e : Nat)
  | unlock

inductive ReaderPc (α : Type) where
  | idle
  | early (op : ReadOp) (l : Loads)
  | lock (op : ReadOp)
  | tryEmpty (l : Loads)
  | waitForFull (l : Loads)
  | loadStart
  | loadElement (s : Nat)
  | reloadStart (v : α)
  | storeStart (v : α) (s : Nat)
  /-- With the value that the call returns, if it read one. -/
  | unlock (v : Option α)

structure State (ω ρ α : Type) where
  ring : RingQueue α
  wlock : Option ω
  rlock : Option ρ
  writers : ω → WriterPc α
  readers : ρ → ReaderPc α
  /-- The values that reads returned, in the order in which they held `rlock`. -/
  answered : List α

variable {ω ρ α : Type} [DecidableEq ω] [DecidableEq ρ]

def ringbufferInit (memory : Nat → α) : State ω ρ α :=
  ⟨RingQueue.empty memory, none, none, fun _ => .idle, fun _ => .idle, []⟩

def State.setWriter (s : State ω ρ α) (w : ω) (pc : WriterPc α) : State ω ρ α :=
  { s with writers := Function.update s.writers w pc }

def State.setReader (s : State ω ρ α) (r : ρ) (pc : ReaderPc α) : State ω ρ α :=
  { s with readers := Function.update s.readers r pc }

/-- An idle writer calls `op` with `v`. `TRY_LOCK` takes the lock like `LOCK`, but returns 0 when
`pthread_mutex_lock` fails. -/
def writerStep (size : Nat) (s : State ω ρ α) (w : ω) (op : WriteOp) (v : α)
    (endFirst lockFails : Bool) : State ω ρ α :=
  match s.writers w with
  | .idle => s.setWriter w (if op = .swrite then .lock op v else .early op v .fresh)
  | .early op v l =>
    match l.next s.ring endFirst with
    | .inl l => s.setWriter w (.early op v l)
    | .inr (st, en) => s.setWriter w (if isFull size st en then .idle else .lock op v)
  | .lock op v =>
    if op = .trySwrite ∧ lockFails = true then s.setWriter w .idle
    else if s.wlock = none then
      { s.setWriter w (if op = .swrite then .waitForEmpty v .fresh else .tryFull v .fresh) with
        wlock := some w }
    else s
  | .tryFull v l =>
    match l.next s.ring endFirst with
    | .inl l => s.setWriter w (.tryFull v l)
    | .inr (st, en) =>
      s.setWriter w (if isFull size st en then .unlock else .waitForEmpty v .fresh)
  | .waitForEmpty v l =>
    match l.next s.ring endFirst with
    | .inl l => s.setWriter w (.waitForEmpty v l)
    | .inr (st, en) =>
      s.setWriter w (if isFull size st en then .waitForEmpty v .fresh else .loadEnd v)
  | .loadEnd v => s.setWriter w (.storeElement v s.ring.end_)
  | .storeElement v e => { s.setWriter w .reloadEnd with ring := s.ring.store e v }
  | .reloadEnd => s.setWriter w (.storeEnd s.ring.end_)
  | .storeEnd e => { s.setWriter w .unlock with ring := s.ring.setEnd ((e + 1) % size) }
  | .unlock => { s.setWriter w .idle with wlock := none }

def readerStep (size : Nat) (s : State ω ρ α) (r : ρ) (op : ReadOp)
    (endFirst lockFails : Bool) : State ω ρ α :=
  match s.readers r with
  | .idle => s.setReader r (if op = .sread then .lock op else .early op .fresh)
  | .early op l =>
    match l.next s.ring endFirst with
    | .inl l => s.setReader r (.early op l)
    | .inr (st, en) => s.setReader r (if isEmpty st en then .idle else .lock op)
  | .lock op =>
    if op = .trySread ∧ lockFails = true then s.setReader r .idle
    else if s.rlock = none then
      { s.setReader r (if op = .sread then .waitForFull .fresh else .tryEmpty .fresh) with
        rlock := some r }
    else s
  | .tryEmpty l =>
    match l.next s.ring endFirst with
    | .inl l => s.setReader r (.tryEmpty l)
    | .inr (st, en) =>
      s.setReader r (if isEmpty st en then .unlock none else .waitForFull .fresh)
  | .waitForFull l =>
    match l.next s.ring endFirst with
    | .inl l => s.setReader r (.waitForFull l)
    | .inr (st, en) =>
      s.setReader r (if isEmpty st en then .waitForFull .fresh else .loadStart)
  | .loadStart => s.setReader r (.loadElement s.ring.start)
  | .loadElement i =>
    { s.setReader r (.reloadStart (s.ring.elements i)) with ring := s.ring.load i }
  | .reloadStart v => s.setReader r (.storeStart v s.ring.start)
  | .storeStart v i =>
    { s.setReader r (.unlock (some v)) with ring := s.ring.setStart ((i + 1) % size) }
  | .unlock v =>
    { s.setReader r .idle with rlock := none, answered := s.answered ++ v.toList }

inductive Action (ω ρ α : Type) where
  | writer (w : ω) (op : WriteOp) (v : α) (endFirst lockFails : Bool)
  | reader (r : ρ) (op : ReadOp) (endFirst lockFails : Bool)

def step (size : Nat) (s : State ω ρ α) : Action ω ρ α → State ω ρ α
  | .writer w op v endFirst lockFails => writerStep size s w op v endFirst lockFails
  | .reader r op endFirst lockFails => readerStep size s r op endFirst lockFails

def run (capacity : Nat) (memory : Nat → α) (schedule : List (Action ω ρ α)) : State ω ρ α :=
  schedule.foldl (step (capacity + 1)) (ringbufferInit memory)

end Libtrace.RingBuffer
