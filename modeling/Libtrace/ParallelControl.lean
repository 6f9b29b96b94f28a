import Libtrace.Exec
import Libtrace.ParallelStart

/-! `trace_pstart`, `trace_ppause` and `trace_pstop` as their caller runs them. What the other
threads do is a script of arbitrary changes, one whenever the caller takes the lock, waits or looks
at the trace without the lock. -/

namespace Libtrace.ParallelControl
open Exec ParallelTrace ParallelStart

inductive Stop where
  /-- It locks a mutex that it already holds. -/
  | deadlock
  | assertion
  /-- It calls a function that the format does not have. -/
  | nullCall
  /-- It waits for a change that does not come. -/
  | waits
  deriving DecidableEq, Repr

inductive Message where
  | doPause
  | doStop
  deriving DecidableEq, Repr

structure World where
  trace : Trace
  uridata : String
  holds : Bool
  others : List (Trace → Trace)
  sent : List (ThreadId × Message)
  nudged : List Nat

abbrev Call (α : Type) := Prog Stop World α

def World.interfered (w : World) : World :=
  match w.others with
  | [] => w
  | f :: rest => { w with trace := f w.trace, others := rest }

def getTrace : Call Trace := do return (← get).trace

def modifyTrace (f : Trace → Trace) : Call Unit := modify fun w => { w with trace := f w.trace }

def look : Call Trace := do
  modify World.interfered
  getTrace

def lock : Call Unit := do
  if (← get).holds then throw .deadlock
  modify fun w => { w.interfered with holds := true }

def unlock : Call Unit := do
  if (← get).holds then modify fun w => { w with holds := false } else throw .assertion

def waitFor (p : Trace → Bool) :
    List (Trace → Trace) → Trace → Option (Trace × List (Trace → Trace))
  | [], tr => if p tr then none else some (tr, [])
  | f :: rest, tr => if p tr then waitFor p rest (f tr) else some (tr, f :: rest)

def waitWhile (p : Trace → Bool) : Call Unit := do
  let w ← get
  match waitFor p w.others w.trace with
  | none => throw .waits
  | some (tr, others) => modify fun w => { w with trace := tr, others := others }

def messageThread (id : ThreadId) (message : Message) : Call Unit :=
  modify fun w => { w with sent := w.sent ++ [(id, message)] }

def nudge (i : Nat) : Call Unit := modify fun w => { w with nudged := w.nudged ++ [i] }

def changeStateLocked (s : TraceState) : Call Unit := do
  lock
  modifyTrace fun tr => tr.changeState s
  unlock

def threadChangeStateLocked (id : ThreadId) (s : ThreadState) : Call Unit := do
  lock
  modifyTrace fun tr => tr.threadChangeState id s
  unlock

structure Format where
  pstartInput : Option Int
  startInput : Option Int

def Trace.isParallel (tr : Trace) (fmt : Format) : Bool :=
  if tr.state = .new then fmt.pstartInput.isSome else tr.pread == .wrapper

structure StartCall where
  setup : Setup
  format : Format
  perpktCbs : Option Bool
  point : Option FailurePoint

def tracePrestart (a : StartCall) : Call Int := do
  let tr ← getTrace
  if tr.state ≠ .paused then
    modify fun w => { w with
      trace := w.trace.setErr .badState s!"trace({w.uridata}) is not currently paused" }
    return -1
  if tr.perpktThreadStates .running ≠ 0 then throw .assertion
  modifyTrace fun tr => { tr with
    perpktCbs := tr.perpktCbs || a.perpktCbs.isSome
    reporterCbs := tr.reporterCbs || a.setup.reporterCbs }
  let err ←
    if Trace.isParallel tr a.format then
      match a.format.pstartInput with
      | some ret => pure ret
      | none => throw .nullCall
    else pure (a.format.startInput.getD 0)
  if err = 0 then
    modifyTrace fun tr => { tr with started := true }.changeState .running
  return err

variable (fmt : Format)

def startFormat (tr : Trace) : Int × Trace :=
  let first : Int × Trace :=
    match fmt.pstartInput with
    | some ret => if tr.hasDedicatedHasher then (-1, tr) else (ret, { tr with pread := .wrapper })
    | none => (-1, tr)
  if first.1 = 0 then first
  else (fmt.startInput.getD first.1, { first.2 with
    pread := if 1 < tr.perpktThreadCount then .firstInFirstServed else .null })

def joinAll (tr : Trace) : Trace :=
  { tr with
    hasherThread := zeroThread tr.hasherThread
    perpktThreads := none
    reporterThread := zeroThread tr.reporterThread
    keepaliveThread := zeroThread tr.keepaliveThread }

def cleanupThreads (tr : Trace) : Call Unit := do
  modifyTrace fun _ => { tr with firstPackets := false }.changeState .error
  unlock
  modify World.interfered
  modifyTrace joinAll
  lock
  modifyTrace fun tr => tr.changeState .new
  if (← getTrace).perpktThreadStates .running ≠ 0 then throw .assertion
  modifyTrace fun tr =>
    { tr with perpktThreadStates := Function.update tr.perpktThreadStates .finished 0 }

def tracePstart (a : StartCall) : Call Int := do
  lock
  let tr ← getTrace
  if tr.isErr then
    unlock
    return -1
  if tr.state = .paused then
    let ret ← tracePrestart a
    unlock
    return ret
  if tr.state ≠ .new then
    modifyTrace fun tr => tr.setErr .badState (s!"trace_pstart should be called on a NEW or " ++
      s!"PAUSED trace but instead was called from {tr.state.name}")
    unlock
    return -1
  match a.perpktCbs with
  | none =>
    modifyTrace fun tr => tr.setErr .initFailed
      "trace_pstart requires a non-NULL set of per packet callbacks."
    unlock
    return -1
  | some false =>
    modifyTrace fun tr => tr.setErr .initFailed ("The per packet callbacks must include a " ++
      "handler for a packet. Please set this using trace_set_packet_cb().")
    unlock
    return -1
  | some true =>
    let (ret, tr) := startFormat a.format (prepare a.setup tr)
    modifyTrace fun _ => tr
    if ret ≠ 0 then
      unlock
      return ret
    match launch a.setup a.point tr with
    | .ok tr =>
      modifyTrace fun _ => { tr with started := true }.changeState .running
      unlock
      return 0
    | .error (.cleanupStarted, tr) =>
      modifyTrace fun _ => tr
      unlock
      return -1
    | .error (.cleanupThreads, tr) =>
      cleanupThreads tr
      unlock
      return -1

inductive Caller where
  | main
  | perpkt (i : Nat)
  | reporter
  deriving DecidableEq, Repr

def pauseHasher : Call Unit := do
  if (← look).hasDedicatedHasher then
    messageThread .hasher .doPause
    lock
    waitWhile fun tr => tr.hasherThread.state == .running
    unlock

variable (caller : Caller)

/-- Every per-packet thread but the caller is asked to pause; with a hasher it also gets a
packet. -/
def askPerpkts : Call Unit := do
  let tr ← look
  (List.range tr.perpktThreadCount).forM fun i => do
    if caller ≠ .perpkt i then
      messageThread (.perpkt i) .doPause
      if (← look).hasDedicatedHasher then nudge i

def pauseCaller : Caller → Call Unit
  | .perpkt i => threadChangeStateLocked (.perpkt i) .paused
  | .main | .reporter => pure ()

def waitPerpkts : Call Unit := do
  lock
  waitWhile fun tr => tr.perpktThreadStates .running != 0
  unlock

def pauseReporter : Call Unit := do
  let tr ← look
  -- the assertion of trace_has_reporter
  if tr.state = .new then throw .assertion
  if tr.reporterThread.type = .reporter ∧ tr.reporterCbs = true then
    if caller = .reporter then threadChangeStateLocked .reporter .paused
    else
      messageThread .reporter .doPause
      lock
      waitWhile fun tr => tr.reporterThread.state == .running
      unlock

def tracePause : Call Int := do
  if (← look).started = false then
    modifyTrace fun tr =>
      tr.setErr .badState "You must call trace_start() before calling trace_pause()"
    return -1
  modifyTrace fun tr => { tr with started := false }
  return 0

def pauseFormat : Call Int := do
  if Trace.isParallel (← look) fmt then
    modifyTrace fun tr => { tr with started := false }
    return 0
  tracePause

def pauseRunning : Call Int := do
  modifyTrace fun tr => tr.changeState .pausing
  unlock
  pauseHasher
  askPerpkts caller
  pauseCaller caller
  waitPerpkts
  pauseReporter caller
  let err ← pauseFormat fmt
  if err ≠ 0 then return err
  changeStateLocked .paused
  return 0

def tracePpause : Call Int := do
  lock
  let tr ← getTrace
  if tr.state = .paused then
    unlock
    return 0
  if tr.started = false ∨ tr.state ≠ .running then
    modifyTrace fun tr =>
      tr.setErr .badState "You must call trace_start() before calling trace_ppause()"
    return -1
  pauseRunning fmt caller

def messagePerpkts (message : Message) : Call Unit := do
  let tr ← look
  (List.range tr.perpktThreadCount).forM fun i => do
    let t := (← look).thread (.perpkt i)
    if t.state = .running ∨ t.state = .paused then messageThread (.perpkt i) message

def stopPaused : Call Unit := do
  messagePerpkts .doStop
  if (← look).hasDedicatedHasher then messageThread .hasher .doStop
  (List.range (← look).perpktThreadCount).forM fun i => messageThread (.perpkt i) .doStop
  changeStateLocked .finishing

def tracePstop : Call Int := do
  let err ← tracePpause fmt caller
  if err ≠ 0 then return err
  stopPaused
  return 0

inductive Control where
  | pstart (a : StartCall)
  | ppause (fmt : Format) (caller : Caller)
  | pstop (fmt : Format) (caller : Caller)

def Control.run : Control → Call Int
  | .pstart a => tracePstart a
  | .ppause fmt caller => tracePpause fmt caller
  | .pstop fmt caller => tracePstop fmt caller

def Releases (c : Control) (w : World) : Prop :=
  ∀ ret w', c.run w = .ok (ret, w') →
    w'.holds = false ∧ ∀ later : Control, later.run w' ≠ .error .deadlock

def Pausable (tr : Trace) : Prop :=
  tr.state = .paused ∨ (tr.started = true ∧ tr.state = .running)

/-- `trace_ppause` and `trace_pstop` find a trace that can be paused when they take the
lock. -/
def Permitted (w : World) : Control → Prop
  | .pstart _ => True
  | .ppause .. | .pstop .. => Pausable w.interfered.trace

end Libtrace.ParallelControl
