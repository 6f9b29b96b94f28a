import Libtrace.Census
import Mathlib.Algebra.Group.Int.Defs

/-! `data-struct/message_queue.c`: a pipe that holds the messages and a counter under a spin lock.
Any number of threads call `put`, `get` and `try_get`; a step is one pipe operation, lock operation
or access to the counter. The pipe moves whole messages, as `message_len <= PIPE_BUF` makes it
do. -/

namespace Libtrace.MessageQueue

def mqFailed : Int := -2 ^ 31

inductive Call (μ : Type) where
  | put (m : μ)
  | get
  | tryGet
  deriving DecidableEq, Repr

inductive Pc (μ : Type) where
  | idle
  /-- `put`: before the pipe write, then around the increment. -/
  | putWrite (m : μ)
  | putLock
  | putCount
  | putUnlock (ret : Int)
  /-- `get`: the decrement comes first, the read after the lock is given back. -/
  | getLock
  | getCount
  | getUnlock (ret : Int)
  | getRead (ret : Int)
  /-- `try_get`: the look at the counter without the lock, then all of it locked. -/
  | tryPeek
  | tryLock
  | tryCheck
  | tryRead (ret : Int)
  | tryUnlock (ret : Int) (message : Option μ)
  | returned (ret : Int) (message : Option μ)
  deriving DecidableEq, Repr

structure State (τ μ : Type) where
  pipe : List μ
  messageCount : Int
  spin : Option τ
  pcs : τ → Pc μ
  written : List μ
  read : List μ

variable {τ μ : Type} [DecidableEq τ]

def messageQueueInit : State τ μ := ⟨[], 0, none, fun _ => .idle, [], []⟩

variable (s : State τ μ)

def State.setPc (t : τ) (pc : Pc μ) : State τ μ :=
  { s with pcs := Function.update s.pcs t pc }

def Call.entry : Call μ → Pc μ
  | .put m => .putWrite m
  | .get => .getLock
  | .tryGet => .tryPeek

def State.lock (t : τ) (next : Pc μ) : State τ μ :=
  if s.spin = none then { s.setPc t next with spin := some t } else s

def State.unlock (t : τ) (next : Pc μ) : State τ μ :=
  { s.setPc t next with spin := none }

def State.pipeWrite (room : Nat) (t : τ) (m : μ) (next : Pc μ) : State τ μ :=
  if s.pipe.length < room then
    { s.setPc t next with pipe := s.pipe ++ [m], written := s.written ++ [m] }
  else s

def State.pipeRead (t : τ) (next : μ → Pc μ) : State τ μ :=
  match s.pipe with
  | [] => s
  | m :: rest => { s.setPc t (next m) with pipe := rest, read := s.read ++ [m] }

def step (room : Nat) (s : State τ μ) (action : τ × Call μ) : State τ μ :=
  let t := action.1
  match s.pcs t with
  | .idle | .returned _ _ => s.setPc t action.2.entry
  | .putWrite m => s.pipeWrite room t m .putLock
  | .putLock => s.lock t .putCount
  | .putCount =>
    { s.setPc t (.putUnlock (s.messageCount + 1)) with messageCount := s.messageCount + 1 }
  | .putUnlock ret => s.unlock t (.returned ret none)
  | .getLock => s.lock t .getCount
  | .getCount =>
    { s.setPc t (.getUnlock s.messageCount) with messageCount := s.messageCount - 1 }
  | .getUnlock ret => s.unlock t (.getRead ret)
  | .getRead ret => s.pipeRead t fun m => .returned ret (some m)
  | .tryPeek => s.setPc t (if s.messageCount ≤ 0 then .returned mqFailed none else .tryLock)
  | .tryLock => s.lock t .tryCheck
  | .tryCheck =>
    if 0 < s.messageCount then
      { s.setPc t (.tryRead (s.messageCount - 1)) with messageCount := s.messageCount - 1 }
    else s.setPc t (.tryUnlock mqFailed none)
  | .tryRead ret => s.pipeRead t fun m => .tryUnlock ret (some m)
  | .tryUnlock ret message => s.unlock t (.returned ret message)

def run (room : Nat) (schedule : List (τ × Call μ)) : State τ μ :=
  schedule.foldl (step room) messageQueueInit

/-- A call that has counted its message but not read it yet. -/
def Pc.owesRead : Pc μ → Bool
  | .getUnlock _ | .getRead _ | .tryRead _ => true
  | _ => false

def Pc.owesCount : Pc μ → Bool
  | .putLock | .putCount => true
  | _ => false

def Pc.locked : Pc μ → Bool
  | .putCount | .putUnlock _ | .getCount | .getUnlock _ => true
  | .tryCheck | .tryRead _ | .tryUnlock _ _ => true
  | _ => false

end Libtrace.MessageQueue
