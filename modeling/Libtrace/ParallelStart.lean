import Libtrace.ParallelTrace

/-! `trace_pstart` from the point where the format is started: the threads are created under the
lock, and after a failure those that exist run into `STATE_ERROR` and are joined. A thread begins
with a critical section in which it looks at the state, so its part of the roll-back is one step. -/

namespace Libtrace.ParallelStart
open ParallelTrace

inductive FailurePoint where
  | hasher
  | table
  | perpkt (i : Nat)
  | reporter
  | keepalive
  | firstPackets
  | ocache
  deriving DecidableEq, Repr

inductive Label where
  | cleanupStarted
  | cleanupThreads
  deriving DecidableEq, Repr

def traceStartThread (tr : Trace) (id : ThreadId) (fails : Bool) : Except Trace Trace :=
  if fails then
    .error ((tr.setThread id (zeroThread ⟨id.type, .running⟩)).setErr .errno
      s!"Failed to create a thread of type={id.type.number}\n")
  else .ok (tr.setThread id ⟨id.type, .running⟩)

def startHasher (point : Option FailurePoint) (tr : Trace) : Except (Label × Trace) Trace :=
  let needed := tr.hasDedicatedHasher
  let tr := tr.setThread .hasher (zeroThread tr.hasherThread)
  if needed then
    match traceStartThread tr .hasher (point = some .hasher) with
    | .error tr => .error (.cleanupStarted, tr)
    | .ok tr => .ok { tr with pread := .hasherThread }
  else .ok tr

def allocTable (point : Option FailurePoint) (tr : Trace) : Except (Label × Trace) Trace :=
  if point = some .table then
    .error (.cleanupThreads, tr.setErr .errno "trace_pstart failed to allocate memory.")
  else .ok { tr with perpktThreads := some fun _ => emptyThread }

def startPerpkts (point : Option FailurePoint) :
    (left i : Nat) → Trace → Except (Label × Trace) Trace
  | 0, _, tr => .ok tr
  | left + 1, i, tr =>
    match traceStartThread tr (.perpkt i) (point = some (.perpkt i)) with
    | .error tr => .error (.cleanupThreads, tr)
    | .ok tr => startPerpkts point left (i + 1) tr

variable (c : Setup)

def startReporter (point : Option FailurePoint) (tr : Trace) : Except (Label × Trace) Trace :=
  if c.reporterCbs then
    match traceStartThread tr .reporter (point = some .reporter) with
    | .error tr => .error (.cleanupThreads, tr)
    | .ok tr => .ok tr
  else .ok tr

def startKeepalive (point : Option FailurePoint) (tr : Trace) : Except (Label × Trace) Trace :=
  if 0 < c.tickInterval then
    match traceStartThread tr .keepalive (point = some .keepalive) with
    | .error tr => .error (.cleanupThreads, tr)
    | .ok tr => .ok tr
  else .ok tr

/-- The counter of running threads is set here, after all of them were created. -/
def initStructures (point : Option FailurePoint) (tr : Trace) : Except (Label × Trace) Trace :=
  let tr := { tr with
    perpktThreadStates :=
      Function.update tr.perpktThreadStates .running tr.perpktThreadCount }
  if point = some .firstPackets then
    .error (.cleanupThreads, tr.setErr .errno "trace_pstart failed to allocate memory.")
  else if point = some .ocache then
    .error (.cleanupThreads,
      { tr with firstPackets := true }.setErr .initFailed "trace_pstart failed to allocate ocache.")
  else .ok { tr with firstPackets := true }

def launch (point : Option FailurePoint) (tr : Trace) : Except (Label × Trace) Trace := do
  let tr ← startHasher point tr
  let tr ← allocTable point tr
  let tr ← startPerpkts point tr.perpktThreadCount 0 tr
  let tr ← startReporter c point tr
  let tr ← startKeepalive c point tr
  initStructures point tr

def prepare (tr : Trace) : Trace :=
  verifyConfiguration c
    { tr with
      perpktCbs := true
      reporterCbs := tr.reporterCbs || c.reporterCbs
      perpktThreadStates := fun _ => 0
      firstPackets := false
      perpktThreads := none }

inductive ThreadPc where
  | absent
  | gate
  | leaving
  | exited
  deriving DecidableEq, Repr

inductive MainPc where
  | joinHasher
  | joinPerpkt (i : Nat)
  | joinReporter
  | joinKeepalive
  | relock
  | finish
  | returned (ret : Int)
  deriving DecidableEq, Repr

inductive Fault where
  | assertion
  /-- A thread goes on to an object cache that is not initialised and follows a null pointer. -/
  | noCache
  deriving DecidableEq, Repr

structure Machine where
  trace : Trace
  locked : Bool
  main : MainPc
  pcs : ThreadId → ThreadPc
  fault : Option Fault

def created (tr : Trace) (id : ThreadId) : ThreadPc :=
  if (tr.thread id).type = id.type then .gate else .absent

/-- For `cleanup_threads` from the unlock on. -/
def afterLaunch : Except (Label × Trace) Trace → Machine
  | .ok tr =>
    ⟨{ tr with started := true }.changeState .running, false, .returned 0, created tr, none⟩
  | .error (.cleanupStarted, tr) => ⟨tr, false, .returned (-1), created tr, none⟩
  | .error (.cleanupThreads, tr) =>
    ⟨{ tr with firstPackets := false }.changeState .error, false, .joinHasher, created tr, none⟩

variable (m : Machine)

def Machine.setPc (id : ThreadId) (pc : ThreadPc) : Machine :=
  { m with pcs := Function.update m.pcs id pc }

def findsItself (tr : Trace) : ThreadId → Bool
  | .hasher => tr.hasherThread.type == .hasher
  | .perpkt i => tr.perpktThreads.isSome && decide (i < tr.perpktThreadCount)
  | .reporter | .keepalive => true

def threadStep (id : ThreadId) : Machine :=
  match m.pcs id with
  | .absent | .exited => m
  | .gate =>
    if m.locked then m
    else if findsItself m.trace id = false then { m with fault := some .assertion }
    else if m.trace.state = .error then
      { m.setPc id .exited with trace := m.trace.threadChangeState id .finished }
    else
      match id with
      | .hasher | .perpkt _ => { m with fault := some .noCache }
      | .reporter | .keepalive => m.setPc id .leaving
  | .leaving =>
    -- the loops of both entry functions end when the trace is finished
    if m.locked = false ∧ m.trace.state = .finished then
      { m.setPc id .exited with trace := m.trace.threadChangeState id .finished }
    else m

def join (id : ThreadId) (next : MainPc) : Machine :=
  if (m.trace.thread id).type = id.type then
    if m.pcs id = .exited then
      { m with
        trace := m.trace.setThread id (zeroThread (m.trace.thread id))
        main := next }
    else m
  else { m with main := next }

/-- It ends at the first record that is not that of a thread. -/
def joinPerpkt (m : Machine) (i : Nat) : Machine :=
  match m.trace.perpktThreads with
  | none => { m with main := .joinReporter }
  | some table =>
    if i < m.trace.perpktThreadCount ∧ (table i).type = .perpkt then
      join m (.perpkt i) (.joinPerpkt (i + 1))
    else { m with trace := { m.trace with perpktThreads := none }, main := .joinReporter }

def mainStep : Machine :=
  match m.main with
  | .joinHasher => join m .hasher (.joinPerpkt 0)
  | .joinPerpkt i => joinPerpkt m i
  | .joinReporter => join m .reporter .joinKeepalive
  | .joinKeepalive => join m .keepalive .relock
  | .relock => { m with locked := true, main := .finish }
  | .finish =>
    let tr := m.trace.changeState .new
    if tr.perpktThreadStates .running = 0 then
      { m with
        trace := { tr with
          perpktThreadStates := Function.update tr.perpktThreadStates .finished 0 }
        locked := false
        main := .returned (-1) }
    else { m with trace := tr, fault := some .assertion }
  | .returned _ => m

inductive Action where
  | main
  | thread (id : ThreadId)
  deriving DecidableEq, Repr

def step (a : Action) : Machine :=
  if m.fault = none then
    match a with
    | .main => mainStep m
    | .thread id => threadStep m id
  else m

def pstart (point : FailurePoint) : Machine :=
  afterLaunch (launch c (some point) (prepare c traceCreate))

def runPstart (point : FailurePoint) (schedule : List Action) : Machine :=
  schedule.foldl step (pstart c point)

def Reached : FailurePoint → Prop
  | .hasher => c.hasher = true ∧ 1 < c.threadCount
  | .perpkt i => i < c.threadCount
  | .reporter => c.reporterCbs = true
  | .keepalive => 0 < c.tickInterval
  | .table | .firstPackets | .ocache => True

instance (c : Setup) : (point : FailurePoint) → Decidable (Reached c point)
  | .hasher => inferInstanceAs (Decidable (_ ∧ _))
  | .perpkt _ => inferInstanceAs (Decidable (_ < _))
  | .reporter => inferInstanceAs (Decidable (_ = _))
  | .keepalive => inferInstanceAs (Decidable (_ < _))
  | .table | .firstPackets | .ocache => inferInstanceAs (Decidable True)

def Finished : Prop := m.fault ≠ none ∨ ∃ ret, m.main = .returned ret

structure RolledBack (m : Machine) : Prop where
  fault : m.fault = none
  main : m.main = .returned (-1)
  locked : m.locked = false
  state : m.trace.state = .new
  counts : ∀ s, m.trace.perpktThreadStates s = 0

def HasherSeesError (a : Action) : Prop :=
  a = .thread .hasher → m.pcs .hasher = .gate → m.trace.state = .error

instance (m : Machine) (a : Action) : Decidable (HasherSeesError m a) :=
  inferInstanceAs (Decidable (_ → _ → _))

/-- The counters agree with the threads that exist when the failure comes. -/
def CountersAgree : FailurePoint → Prop
  | .perpkt i => i = 0
  | .reporter | .keepalive => False
  | .hasher | .table | .firstPackets | .ocache => True

end Libtrace.ParallelStart
