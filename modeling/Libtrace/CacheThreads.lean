import Libtrace.ObjectCache
import Mathlib.Data.Multiset.AddSub
import Mathlib.Logic.Function.Basic

/-! Threads that share one object cache. A step is one request of a call or one round of a bulk
operation on the ring, during which a thread holds a lock of the ring. Objects are numbered as they
are made. -/

namespace Libtrace.CacheThreads
open ObjectCache

variable {τ ρ : Type} [DecidableEq τ]

structure Shared (τ : Type) where
  ring : List Nat
  reader : Option τ
  writer : Option τ
  currentAllocations : Nat
  made : Nat
  destroyed : List Nat

def readRound (t : τ) (s : Shared τ) (into : Place) (snap : Snap) (nb min : Nat)
    (k : List Nat → Call ρ) : Shared τ × Call ρ :=
  if s.reader ≠ none ∧ s.reader ≠ some t then (s, .ask (.sreadBulk into snap nb min) k)
  else if nb < min then (s, fail)
  else if s.ring = [] then
    if min = 0 then ({ s with reader := none }, k [])
    else ({ s with reader := some t }, .ask (.sreadBulk into snap nb min) k)
  else
    let values := s.ring.take nb
    let ring := s.ring.drop nb
    if values.length < min then
      ({ s with ring := ring, reader := some t },
        .ask (.sreadBulk into (snap.add into values) (nb - values.length) (min - values.length))
          fun more : List Nat => k (values ++ more))
    else ({ s with ring := ring, reader := none }, k values)

variable (cfg : Config)

def writeRound (t : τ) (s : Shared τ) (source : Place) (snap : Snap) (values : List Nat) (min : Nat)
    (k : Nat → Call ρ) : Shared τ × Call ρ :=
  let room := cfg.bufferSize - s.ring.length
  if s.writer ≠ none ∧ s.writer ≠ some t then (s, .ask (.swriteBulk source snap values min) k)
  else if values.length < min then (s, fail)
  else if room = 0 then
    if min = 0 then ({ s with writer := none }, k 0)
    else ({ s with writer := some t }, .ask (.swriteBulk source snap values min) k)
  else
    let n := Nat.min room values.length
    let ring := s.ring ++ values.take n
    if n < min then
      ({ s with ring := ring, writer := some t },
        .ask (.swriteBulk source snap (values.drop n) (min - n)) fun more : Nat => k (n + more))
    else ({ s with ring := ring, writer := none }, k n)

def advance (t : τ) (s : Shared τ) : (op : Op) → (op.Ans → Call ρ) → Shared τ × Call ρ
  | .sreadBulk into snap nb min, k => readRound t s into snap nb min k
  | .swriteBulk source snap values min, k => writeRound cfg t s source snap values min k
  | .tryAlloc _, k =>
    (s, k !(decide (cfg.maxAllocations ≠ 0) &&
      decide (cfg.maxAllocations ≤ s.currentAllocations)))
  | .reserve _ want, k =>
    let n := Nat.min (cfg.maxAllocations - s.currentAllocations) want
    ({ s with currentAllocations := s.currentAllocations + n }, k n)
  | .alloc _, k => ({ s with made := s.made + 1 }, k s.made)
  | .free _ object, k => ({ s with destroyed := s.destroyed ++ [object] }, k ())
  | .fail, k => (s, .ask .fail k)

inductive Activity where
  | idle
  | allocating (nb min : Nat) (task : Call (List Nat × List Nat))
  | freeing (values : List Nat) (min : Nat) (task : Call (Nat × List Nat))

/-- `cache` is the local cache between calls, `hands` are the objects that the callers on this
thread hold. -/
structure Thread where
  cache : List Nat
  hands : List Nat
  activity : Activity

def Thread.run (t : τ) (s : Shared τ) (th : Thread) : Shared τ × Thread :=
  match th.activity with
  | .idle => (s, th)
  | .allocating _ _ (.ret r) => (s, ⟨r.2, th.hands ++ r.1, .idle⟩)
  | .allocating nb min (.ask op k) =>
    let next := advance cfg t s op k
    (next.1, { th with activity := .allocating nb min next.2 })
  | .freeing values _ (.ret r) => (s, ⟨r.2, th.hands ++ values.drop r.1, .idle⟩)
  | .freeing values min (.ask op k) =>
    let next := advance cfg t s op k
    (next.1, { th with activity := .freeing values min next.2 })

def Thread.give (th : Thread) (object : Nat) : Thread :=
  { th with hands := th.hands.erase object }

def Thread.receive (th : Thread) (object : Nat) : Thread :=
  { th with hands := th.hands ++ [object] }

structure State (τ : Type) where
  shared : Shared τ
  threads : τ → Thread

inductive Action (τ : Type) where
  | alloc (t : τ) (nb min : Nat)
  | free (t : τ) (values : List Nat) (min : Nat)
  | run (t : τ)
  | pass (t u : τ) (object : Nat)

def State.init : State τ where
  shared := ⟨[], none, none, 0, 0, []⟩
  threads := fun _ => ⟨[], [], .idle⟩

def State.setThread (s : State τ) (t : τ) (th : Thread) : State τ :=
  { s with threads := Function.update s.threads t th }

def step (s : State τ) : Action τ → State τ
  | .alloc t nb min =>
    let th := s.threads t
    match th.activity with
    | .idle => s.setThread t
        ⟨[], th.hands, .allocating nb min (ocacheAlloc cfg th.cache nb min)⟩
    | _ => s
  | .free t values min =>
    let th := s.threads t
    match th.activity with
    | .idle => s.setThread t
        ⟨[], th.hands.diff values, .freeing values min (ocacheFree cfg th.cache values min)⟩
    | _ => s
  | .run t =>
    let next := (s.threads t).run cfg t s.shared
    { s.setThread t next.2 with shared := next.1 }
  | .pass t u object =>
    if object ∈ (s.threads t).hands then
      let s := s.setThread t ((s.threads t).give object)
      s.setThread u ((s.threads u).receive object)
    else s

/-- An `alloc` or `free` with `min` at most `nb`, below the limit if there is one, and a `free` of
different objects that the caller holds. -/
def Allowed (s : State τ) : Action τ → Prop
  | .alloc _ nb min => min ≤ nb ∧ (cfg.limitSize = true → nb < cfg.bufferSize)
  | .free t values min => min ≤ values.length ∧
      (cfg.limitSize = true → values.length < cfg.bufferSize) ∧ values.Nodup ∧
      ∀ object ∈ values, object ∈ (s.threads t).hands
  | _ => True

instance (cfg : Config) (s : State τ) (a : Action τ) : Decidable (Allowed cfg s a) := by
  cases a <;> unfold Allowed <;> infer_instance

section

def callSnap (fin : ρ → Snap) : Call ρ → Snap
  | .ret r => fin r
  | .ask op _ => op.snap

def Activity.snap : Activity → Snap
  | .idle => ⟨[], []⟩
  | .allocating _ _ task => callSnap (fun r => ⟨r.2, r.1⟩) task
  | .freeing values _ task => callSnap (fun r => ⟨r.2, values.drop r.1⟩) task

def Thread.cached (th : Thread) : List Nat := th.cache ++ th.activity.snap.cached

def Thread.held (th : Thread) : List Nat := th.hands ++ th.activity.snap.hands

end

end Libtrace.CacheThreads
