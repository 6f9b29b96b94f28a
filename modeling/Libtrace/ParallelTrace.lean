import Mathlib.Logic.Function.Basic
import Mathlib.Algebra.Group.Int.Defs

/-! The fields of `libtrace_t` by which the threads of a trace are started, paused and stopped, with
`libtrace_change_state` and `thread_change_state`. -/

namespace Libtrace.ParallelTrace
open Function

inductive TraceState where
  | new | running | pausing | paused | finished | finishing | destroyed | joined | error
  deriving DecidableEq, Repr

def TraceState.name : TraceState → String
  | .new => "STATE_NEW"
  | .running => "STATE_RUNNING"
  | .pausing => "STATE_PAUSING"
  | .paused => "STATE_PAUSED"
  | .finished => "STATE_FINISHED"
  | .finishing => "STATE_FINISHING"
  | .destroyed => "STATE_DESTROYED"
  | .joined => "STATE_JOINED"
  | .error => "STATE_ERROR"

inductive ThreadType where
  | empty | hasher | perpkt | reporter | keepalive
  deriving DecidableEq, Repr

def ThreadType.number : ThreadType → Nat
  | .empty => 0
  | .hasher => 1
  | .perpkt => 2
  | .reporter => 3
  | .keepalive => 4

inductive ThreadState where
  | running | finishing | finished | paused
  deriving DecidableEq, Repr

structure Thread where
  type : ThreadType
  state : ThreadState
  deriving DecidableEq, Repr

inductive ThreadId where
  | hasher
  | perpkt (i : Nat)
  | reporter
  | keepalive
  deriving DecidableEq, Repr

def ThreadId.type : ThreadId → ThreadType
  | .hasher => .hasher
  | .perpkt _ => .perpkt
  | .reporter => .reporter
  | .keepalive => .keepalive

def zeroThread (t : Thread) : Thread := { t with type := .empty }

inductive ErrNum where
  | initFailed
  | badState
  | errno
  deriving DecidableEq, Repr

inductive Pread where
  | null
  | wrapper
  | firstInFirstServed
  | hasherThread
  deriving DecidableEq, Repr

structure Trace where
  state : TraceState
  started : Bool
  err : Option (ErrNum × String)
  perpktThreadStates : ThreadState → Int
  perpktThreadCount : Nat
  hasherThread : Thread
  perpktThreads : Option (Nat → Thread)
  reporterThread : Thread
  keepaliveThread : Thread
  firstPackets : Bool
  perpktCbs : Bool
  reporterCbs : Bool
  pread : Pread

def emptyThread : Thread := ⟨.empty, .running⟩

def traceCreate : Trace where
  state := .new
  started := false
  err := none
  perpktThreadStates _ := 0
  perpktThreadCount := 0
  hasherThread := emptyThread
  perpktThreads := none
  reporterThread := emptyThread
  keepaliveThread := emptyThread
  firstPackets := false
  perpktCbs := false
  reporterCbs := false
  pread := .null

namespace Trace

variable (tr : Trace)

def isErr : Bool := tr.err.isSome

def setErr (num : ErrNum) (problem : String) : Trace :=
  { tr with err := some (num, problem) }

def hasDedicatedHasher : Bool := tr.hasherThread.type == .hasher

def thread : ThreadId → Thread
  | .hasher => tr.hasherThread
  | .perpkt i => (tr.perpktThreads.getD fun _ => emptyThread) i
  | .reporter => tr.reporterThread
  | .keepalive => tr.keepaliveThread

def setThread (id : ThreadId) (t : Thread) : Trace :=
  match id with
  | .hasher => { tr with hasherThread := t }
  | .perpkt i =>
    { tr with perpktThreads := tr.perpktThreads.map fun table => update table i t }
  | .reporter => { tr with reporterThread := t }
  | .keepalive => { tr with keepaliveThread := t }

def changeState (s : TraceState) : Trace := { tr with state := s }

def addTo (counts : ThreadState → Int) (s : ThreadState) (d : Int) : ThreadState → Int :=
  update counts s (counts s + d)

def threadChangeState (id : ThreadId) (s : ThreadState) : Trace :=
  let prev := tr.thread id
  let moved := tr.setThread id { prev with state := s }
  let counted :=
    if prev.type = .perpkt then
      { moved with
        perpktThreadStates := addTo (addTo moved.perpktThreadStates prev.state (-1)) s 1 }
    else moved
  if counted.perpktThreadStates .finished = counted.perpktThreadCount then
    counted.changeState .finished
  else counted

end Trace

namespace Trace

section

variable (tr : Trace) (id : ThreadId) (t : Thread)

@[simp] theorem setThread_counts :
    (tr.setThread id t).perpktThreadStates = tr.perpktThreadStates := by cases id <;> rfl

@[simp] theorem setThread_count :
    (tr.setThread id t).perpktThreadCount = tr.perpktThreadCount := by cases id <;> rfl

@[simp] theorem setThread_state : (tr.setThread id t).state = tr.state := by cases id <;> rfl

@[simp] theorem setThread_isSome :
    (tr.setThread id t).perpktThreads.isSome = tr.perpktThreads.isSome := by
  cases id <;> simp [setThread]

theorem setThread_thread {j : ThreadId} (hj : j ≠ id) :
    (tr.setThread id t).thread j = tr.thread j := by
  cases id <;> cases j <;> simp only [thread, setThread] <;> try exact absurd rfl hj
  next i j =>
    have hne : j ≠ i := fun he => hj (he ▸ rfl)
    cases tr.perpktThreads with
    | none => rfl
    | some table => simp [update_of_ne hne]

theorem setThread_self : (tr.setThread id t).thread id = t ∨
    (tr.setThread id t).thread id = tr.thread id := by
  cases id with
  | hasher | reporter | keepalive => exact .inl rfl
  | perpkt i =>
    simp only [thread, setThread]
    cases tr.perpktThreads with
    | none => exact .inr rfl
    | some table => exact .inl (by simp)

end

section

variable (tr : Trace) (id : ThreadId) (s : ThreadState)

@[simp] theorem threadChangeState_type (j : ThreadId) :
    ((tr.threadChangeState id s).thread j).type = (tr.thread j).type := by
  have key : ((tr.setThread id { tr.thread id with state := s }).thread j).type =
      (tr.thread j).type := by
    by_cases hj : j = id
    · subst hj
      rcases setThread_self tr j { tr.thread j with state := s } with h | h <;> rw [h]
    · rw [setThread_thread _ _ _ hj]
  unfold threadChangeState
  dsimp only
  split <;> split <;> exact key

@[simp] theorem threadChangeState_count :
    (tr.threadChangeState id s).perpktThreadCount = tr.perpktThreadCount := by
  unfold threadChangeState
  dsimp only
  split <;> split <;> exact setThread_count _ _ _

@[simp] theorem threadChangeState_isSome :
    (tr.threadChangeState id s).perpktThreads.isSome = tr.perpktThreads.isSome := by
  unfold threadChangeState
  dsimp only
  split <;> split <;> exact setThread_isSome _ _ _

theorem threadChangeState_thread {j : ThreadId} (hj : j ≠ id) :
    (tr.threadChangeState id s).thread j = tr.thread j := by
  unfold threadChangeState
  dsimp only
  split <;> split <;> exact setThread_thread _ _ _ hj

theorem threadChangeState_perpkt (h : (tr.thread id).type = .perpkt) :
    (tr.threadChangeState id s).perpktThreadStates =
        addTo (addTo tr.perpktThreadStates (tr.thread id).state (-1)) s 1 ∧
      (tr.threadChangeState id s).state =
        if addTo (addTo tr.perpktThreadStates (tr.thread id).state (-1)) s 1 .finished =
          tr.perpktThreadCount then .finished else tr.state := by
  simp only [threadChangeState, if_pos h, setThread_counts, setThread_count]
  split
  · exact ⟨rfl, rfl⟩
  · exact ⟨rfl, setThread_state _ _ _⟩

theorem threadChangeState_other (h : (tr.thread id).type ≠ .perpkt) :
    (tr.threadChangeState id s).perpktThreadStates = tr.perpktThreadStates ∧
      (tr.threadChangeState id s).state =
        if tr.perpktThreadStates .finished = tr.perpktThreadCount then .finished
        else tr.state := by
  simp only [threadChangeState, if_neg h, setThread_counts, setThread_count]
  split
  · exact ⟨setThread_counts _ _ _, rfl⟩
  · exact ⟨setThread_counts _ _ _, setThread_state _ _ _⟩

theorem threadChangeState_state :
    (tr.threadChangeState id s).state =
      if (tr.threadChangeState id s).perpktThreadStates .finished = tr.perpktThreadCount then
        .finished
      else tr.state := by
  by_cases h : (tr.thread id).type = .perpkt
  · obtain ⟨hcounts, hstate⟩ := threadChangeState_perpkt tr id s h
    rw [hstate, hcounts]
  · obtain ⟨hcounts, hstate⟩ := threadChangeState_other tr id s h
    rw [hstate, hcounts]

@[simp] theorem threadChangeState_started :
    (tr.threadChangeState id s).started = tr.started := by
  unfold threadChangeState
  cases id <;> dsimp only <;> split <;> split <;> rfl

theorem threadChangeState_self (h : tr.perpktThreads.isSome = true) :
    (tr.threadChangeState id s).thread id = ⟨(tr.thread id).type, s⟩ := by
  have key : (tr.setThread id { tr.thread id with state := s }).thread id =
      ⟨(tr.thread id).type, s⟩ := by
    cases id with
    | perpkt i =>
      obtain ⟨table, ht⟩ := Option.isSome_iff_exists.mp h
      simp [thread, setThread, ht]
    | _ => rfl
  unfold threadChangeState
  dsimp only
  split <;> split <;> exact key

theorem addTo_apply (counts : ThreadState → Int) (s st : ThreadState) (d : Int) :
    addTo counts s d st = counts st + if s = st then d else 0 := by
  unfold addTo
  by_cases h : st = s
  · subst h
    simp
  · rw [update_of_ne h, if_neg (Ne.symm h), add_zero]

end

def Proper (tr : Trace) : Prop :=
  ∀ id, (tr.thread id).type = .empty ∨ (tr.thread id).type = id.type

theorem Proper.setThread {tr : Trace} (h : Proper tr) {id : ThreadId} {t : Thread}
    (ht : t.type = .empty ∨ t.type = id.type) : Proper (tr.setThread id t) := by
  intro j
  by_cases hj : j = id
  · subst hj
    rcases setThread_self tr j t with he | he
    · rw [he]
      exact ht
    · rw [he]
      exact h j
  · rw [setThread_thread _ _ _ hj]
    exact h j

theorem Proper.threadChangeState {tr : Trace} (h : Proper tr) (id : ThreadId) (s : ThreadState) :
    Proper (tr.threadChangeState id s) := by
  intro j
  rw [threadChangeState_type]
  exact h j

end Trace

structure Setup where
  perpktThreads : Int
  nbCores : Int
  hasher : Bool
  reporterCbs : Bool
  tickInterval : Nat

def Setup.threadCount (c : Setup) : Nat :=
  if c.perpktThreads ≤ 0 then (if c.nbCores ≤ 0 then 1 else c.nbCores.toNat)
  else c.perpktThreads.toNat

theorem Setup.threadCount_pos (c : Setup) : 0 < c.threadCount := by
  unfold Setup.threadCount
  split
  · split <;> omega
  · omega

/-- A hasher with one thread is not worth a thread of its own. -/
def verifyConfiguration (c : Setup) (tr : Trace) : Trace :=
  { tr with
    perpktThreadCount := c.threadCount
    hasherThread :=
      if c.hasher = true ∧ 1 < c.threadCount then { tr.hasherThread with type := .hasher }
      else tr.hasherThread }

end Libtrace.ParallelTrace
