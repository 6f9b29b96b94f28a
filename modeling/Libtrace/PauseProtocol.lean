import Libtrace.ParallelControl
import Libtrace.Schedule

/-! The threads of a parallel trace while the main thread pauses, resumes and stops it:
`trace_ppause`, the resuming part of `trace_pstart`, `trace_pstop`, and the loops of `hasher_entry`,
`perpkt_threads_entry` and `reporter_entry`. A step is a critical section, one message, or one look
at the trace without the lock. What a read brings is part of the schedule. -/

namespace Libtrace.PauseProtocol
open ParallelTrace Function
open ParallelControl (Message)

section

inductive Place where
  | loop
  | pausing
  | waiting
  /-- The two assertions of the hasher thread on `MESSAGE_DO_STOP`. -/
  | assertStarted
  | assertState
  | failing
  | leaving
  | exited
  deriving DecidableEq, Repr

/-- Where the main thread is in `trace_ppause`, and from `stopPerpkts` on in `trace_pstop`. -/
inductive MainPlace where
  | idle
  | tellHasher
  | awaitHasher
  | tellPerpkt (i : Nat)
  | awaitPerpkts
  | tellReporter
  | awaitReporter
  | pauseFormat
  | setPaused
  | stopPerpkts
  | stopHasher
  | stopPerpkt (i : Nat)
  | setFinishing
  deriving DecidableEq, Repr

inductive Fault where
  /-- `trace->started == false` in `hasher_entry`. -/
  | hasherStarted
  /-- `trace->state == STATE_FINISHED` in `hasher_entry`. -/
  | hasherState
  /-- The hasher thread has a packet for a thread that has finished. -/
  | dropped
  | prestart
  deriving DecidableEq, Repr

structure System where
  trace : Trace
  held : Bool
  main : MainPlace
  stopping : Bool
  places : ThreadId → Place
  messages : ThreadId → List Message
  fault : Option Fault

namespace System

variable (s : System)

def move (id : ThreadId) (p : Place) : System :=
  { s with places := update s.places id p }

def enter (id : ThreadId) (st : ThreadState) (p : Place) : System :=
  { s with
    trace := s.trace.threadChangeState id st
    places := update s.places id p }

def goTo (main : MainPlace) : System := { s with main := main }

def send (id : ThreadId) (message : Message) : System :=
  { s with messages := update s.messages id (s.messages id ++ [message]) }

def take (id : ThreadId) : System :=
  { s with messages := update s.messages id (s.messages id).tail }

def locked (f : System → System) : System := if s.held then s else f s

def messagePerpkts (message : Message) : System :=
  { s with messages := fun id =>
      match id with
      | .perpkt i =>
        let state := (s.trace.thread id).state
        if i < s.trace.perpktThreadCount ∧ (state = .running ∨ state = .paused) then
          s.messages id ++ [message]
        else s.messages id
      | _ => s.messages id }

end System

def wake (id : ThreadId) (s : System) : System :=
  if s.trace.state = .paused ∨ s.trace.state = .pausing then s else s.enter id .running .loop

def pauseThread (id : ThreadId) (s : System) : System := wake id (s.enter id .paused .waiting)

def finish (id : ThreadId) (s : System) : System := s.enter id .finished .exited

inductive Supply where
  | packet (hash : Nat)
  | last
  | halt
  deriving DecidableEq, Repr

def hashNext (supply : Supply) (s : System) : System :=
  if s.trace.isErr then s.move .hasher .leaving
  else if s.trace.started = false then
    { s with
      trace := s.trace.setErr .badState
        "You must call libtrace_start() before trace_read_packet()\n" }.move .hasher .leaving
  else match supply with
    | .packet hash =>
      let target := s.trace.thread (.perpkt (hash % s.trace.perpktThreadCount))
      if target.state = .finished then { s with fault := some .dropped } else s
    | .last | .halt => s.move .hasher .leaving

def hasherStep (supply : Supply) (s : System) : System :=
  match s.places .hasher with
  | .loop =>
    if supply = .halt then s.move .hasher .leaving
    else match s.messages .hasher with
      | .doPause :: _ => (s.take .hasher).move .hasher .pausing
      | .doStop :: _ => (s.take .hasher).move .hasher .assertStarted
      | [] => hashNext supply s
  | .pausing => s.locked (pauseThread .hasher)
  | .waiting => s.locked (wake .hasher)
  | .assertStarted =>
    if s.trace.started = false then s.move .hasher .assertState
    else { s with fault := some .hasherStarted }
  | .assertState =>
    -- with the packet marked as the end of the trace, it goes on
    if s.trace.state = .finished then s.move .hasher .loop
    else { s with fault := some .hasherState }
  | .leaving => s.locked (finish .hasher)
  | .failing | .exited => s

inductive Batch where
  | packets
  | eof
  | error
  deriving DecidableEq, Repr

def perpktStep (i : Nat) (batch : Batch) (s : System) : System :=
  match s.places (.perpkt i) with
  | .loop =>
    match s.messages (.perpkt i) with
    | .doPause :: _ => (s.take (.perpkt i)).move (.perpkt i) .pausing
    | .doStop :: _ => (s.take (.perpkt i)).move (.perpkt i) .leaving
    | [] =>
      match batch with
      | .packets => s
      | .eof => s.move (.perpkt i) .leaving
      | .error => s.move (.perpkt i) .failing
  | .pausing =>
    -- the ring buffer is emptied first
    if batch = .packets then s.locked (pauseThread (.perpkt i))
    else s.move (.perpkt i) .failing
  | .waiting => s.locked (wake (.perpkt i))
  | .failing => (s.messagePerpkts .doStop).move (.perpkt i) .leaving
  | .leaving => s.locked (finish (.perpkt i))
  | .assertStarted | .assertState | .exited => s

def reporterStep (s : System) : System :=
  match s.places .reporter with
  | .loop =>
    -- trace_has_finished
    if s.trace.state = .finished ∨ s.trace.state = .joined then s.move .reporter .leaving
    else match s.messages .reporter with
      | .doPause :: _ => (s.take .reporter).move .reporter .pausing
      | .doStop :: _ => s.take .reporter
      | [] => s
  | .pausing => s.locked (pauseThread .reporter)
  | .waiting => s.locked (wake .reporter)
  | .leaving => s.locked (finish .reporter)
  | .assertStarted | .assertState | .failing | .exited => s

def callPause (stopping : Bool) (s : System) : System :=
  if s.trace.state = .paused then
    if stopping then s.goTo .stopPerpkts else s
  else if s.trace.started = false ∨ s.trace.state ≠ .running then
    { s with
      trace := s.trace.setErr .badState
        "You must call trace_start() before calling trace_ppause()"
      held := true }
  else { s with trace := s.trace.changeState .pausing, main := .tellHasher, stopping := stopping }

def callResume (err : Int) (s : System) : System :=
  if s.trace.isErr then s
  else if s.trace.state = .paused then
    if s.trace.perpktThreadStates .running ≠ 0 then { s with fault := some .prestart }
    else if err = 0 then
      { s with trace := { s.trace with started := true }.changeState .running }
    else s
  else
    { s with
      trace := s.trace.setErr .badState (s!"trace_pstart should be called on a NEW or " ++
        s!"PAUSED trace but instead was called from {s.trace.state.name}") }

def mainStep (s : System) : System :=
  match s.main with
  | .idle => s
  | .tellHasher =>
    if s.trace.hasDedicatedHasher then (s.send .hasher .doPause).goTo .awaitHasher
    else s.goTo (.tellPerpkt 0)
  | .awaitHasher =>
    if s.trace.hasherThread.state = .running then s else s.goTo (.tellPerpkt 0)
  | .tellPerpkt i =>
    if i < s.trace.perpktThreadCount then (s.send (.perpkt i) .doPause).goTo (.tellPerpkt (i + 1))
    else s.goTo .awaitPerpkts
  | .awaitPerpkts =>
    if s.trace.perpktThreadStates .running ≠ 0 then s else s.goTo .tellReporter
  | .tellReporter =>
    if s.trace.reporterThread.type = .reporter ∧ s.trace.reporterCbs = true then
      (s.send .reporter .doPause).goTo .awaitReporter
    else s.goTo .pauseFormat
  | .awaitReporter =>
    if s.trace.reporterThread.state = .running then s else s.goTo .pauseFormat
  | .pauseFormat =>
    if s.trace.pread = .wrapper ∨ s.trace.started = true then
      { s with trace := { s.trace with started := false }, main := .setPaused }
    else
      { s with
        trace := s.trace.setErr .badState
          "You must call trace_start() before calling trace_pause()"
        main := .idle }
  | .setPaused =>
    { s with
      trace := s.trace.changeState .paused
      main := if s.stopping then .stopPerpkts else .idle }
  | .stopPerpkts => (s.messagePerpkts .doStop).goTo .stopHasher
  | .stopHasher =>
    if s.trace.hasDedicatedHasher then (s.send .hasher .doStop).goTo (.stopPerpkt 0)
    else s.goTo (.stopPerpkt 0)
  | .stopPerpkt i =>
    if i < s.trace.perpktThreadCount then (s.send (.perpkt i) .doStop).goTo (.stopPerpkt (i + 1))
    else s.goTo .setFinishing
  | .setFinishing => { s with trace := s.trace.changeState .finishing, main := .idle }

inductive Call where
  | ppause
  | pstart (err : Int)
  | pstop
  deriving DecidableEq, Repr

def call (c : Call) (s : System) : System :=
  match c with
  | .ppause => callPause false s
  | .pstart err => callResume err s
  | .pstop => callPause true s

inductive Action where
  | call (c : Call)
  | main
  | hasher (supply : Supply)
  | perpkt (i : Nat) (batch : Batch)
  | reporter
  deriving DecidableEq, Repr

/-- Nothing happens once an assertion has failed. A call waits for the one before, for ever if that
left the lock locked. -/
def step (s : System) (a : Action) : System :=
  if s.fault ≠ none then s
  else match a with
    | .call c => if s.main = .idle then s.locked (call c) else s
    | .main => mainStep s
    | .hasher supply => hasherStep supply s
    | .perpkt i batch => perpktStep i batch s
    | .reporter => reporterStep s

def start (c : Setup) : System :=
  let tr := (ParallelStart.afterLaunch
    (ParallelStart.launch c none (ParallelStart.prepare c traceCreate))).trace
  { trace := tr
    held := false
    main := .idle
    stopping := false
    places := fun id => if (tr.thread id).type = id.type then .loop else .exited
    messages := fun _ => []
    fault := none }

def run (c : Setup) (schedule : List Action) : System := schedule.foldl step (start c)

end

end Libtrace.PauseProtocol
