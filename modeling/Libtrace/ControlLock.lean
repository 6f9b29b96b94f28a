import Libtrace.ParallelControl

/-! Lock discipline of the calls that control a trace. Only the second return of `trace_ppause` does
not fit. -/

namespace Libtrace.ControlLock
open Exec ParallelTrace ParallelStart ParallelControl

variable {α β : Type} {b : Bool}

/-- `m` takes a caller that holds the lock as `b` says to one that holds it as `b'` says. -/
def Moves (b b' : Bool) (m : Call α) : Prop :=
  Carries (· ≠ Stop.deadlock) (fun w => w.holds = b) m fun w => w.holds = b'

section

theorem moves_bind {c d : Bool} {m : Call α} {f : α → Call β} (hm : Moves b c m)
    (hf : ∀ a, Moves c d (f a)) : Moves b d (m >>= f) := carries_bind hm hf

theorem moves_pure (a : α) : Moves b b (pure a : Call α) := carries_pure a

theorem interfered_holds (w : World) : w.interfered.holds = w.holds := by
  unfold World.interfered
  split <;> rfl

theorem moves_getTrace : Moves b b getTrace := carries_bind carries_get fun _ => carries_pure _

theorem moves_modifyTrace (f : Trace → Trace) : Moves b b (modifyTrace f) :=
  carries_modify fun _ h => h

theorem moves_modify {c : Bool} {f : Trace → Trace} {k : α → Call α} (hk : ∀ a, Moves b c (k a))
    {a : α} : Moves b c (modifyTrace f >>= fun _ => k a) :=
  moves_bind (moves_modifyTrace f) fun _ => hk a

theorem moves_interfere : Moves b b (modify World.interfered : Call Unit) :=
  carries_modify fun w h => (interfered_holds w).trans h

theorem moves_look : Moves b b look := moves_bind moves_interfere fun _ => moves_getTrace

def acquired (w : World) : World := { w.interfered with holds := true }

theorem lock_eq {w : World} (hw : w.holds = false) : lock w = .ok ((), acquired w) := by
  simp [lock, acquired, hw, bind, StateT.bind, Except.bind, get, getThe, MonadStateOf.get,
    StateT.get, modify, modifyGet, MonadStateOf.modifyGet, StateT.modifyGet, pure, Except.pure]

theorem moves_lock : Moves false true lock := by
  intro w hw
  simp only [Spec, lock_eq hw, acquired]

theorem moves_unlock : Moves true false unlock := by
  intro w hw
  simp [Spec, unlock, hw, bind, StateT.bind, Except.bind, get, getThe, MonadStateOf.get,
    StateT.get, modify, modifyGet, MonadStateOf.modifyGet, StateT.modifyGet, pure, Except.pure]

theorem moves_waitWhile (p : Trace → Bool) : Moves b b (waitWhile p) := by
  refine carries_bind carries_get fun w => ?_
  split
  · exact carries_throw nofun
  · exact carries_modify fun _ h => h

theorem moves_messageThread (id : ThreadId) (message : Message) :
    Moves b b (messageThread id message) := carries_modify fun _ h => h

theorem moves_nudge (i : Nat) : Moves b b (nudge i) := carries_modify fun _ h => h

theorem moves_section {m : Call Unit} (hm : Moves true true m) :
    Moves false false (do lock; m; unlock) :=
  moves_bind moves_lock fun _ => moves_bind hm fun _ => moves_unlock

theorem moves_changeStateLocked (s : TraceState) : Moves false false (changeStateLocked s) :=
  moves_section (moves_modifyTrace _)

theorem moves_threadChangeStateLocked (id : ThreadId) (s : ThreadState) :
    Moves false false (threadChangeStateLocked id s) := moves_section (moves_modifyTrace _)

theorem moves_unlock_return (ret : Int) : Moves true false (do unlock; return ret) :=
  moves_bind moves_unlock fun _ => moves_pure ret

end

section

theorem moves_tracePrestart (a : StartCall) : Moves true true (tracePrestart a) := by
  have hend : ∀ err : Int, Moves true true (do
      if err = 0 then
        modifyTrace fun tr => { tr with started := true }.changeState .running
      return err) := fun err =>
    carries_ite (moves_modify moves_pure) (moves_pure _)
  refine moves_bind moves_getTrace fun tr => ?_
  refine carries_ite (carries_bind (carries_modify fun _ h => h) fun _ => moves_pure _) ?_
  refine carries_ite (carries_throw_bind nofun _) ?_
  refine moves_bind (moves_modifyTrace _) fun _ => carries_ite ?_ (hend _)
  split
  · exact hend _
  · exact carries_throw_bind nofun _

theorem moves_cleanupThreads (tr : Trace) : Moves true true (cleanupThreads tr) := by
  refine moves_bind (moves_modifyTrace _) fun _ => moves_bind moves_unlock fun _ => ?_
  refine moves_bind moves_interfere fun _ => moves_bind (moves_modifyTrace _) fun _ => ?_
  refine moves_bind moves_lock fun _ => moves_bind (moves_modifyTrace _) fun _ => ?_
  refine moves_bind moves_getTrace fun tr => ?_
  exact carries_ite (carries_throw_bind nofun _) (moves_modifyTrace _)

theorem moves_tracePstart (a : StartCall) : Moves false false (tracePstart a) := by
  refine moves_bind moves_lock fun _ => moves_bind moves_getTrace fun tr => ?_
  refine carries_ite (moves_unlock_return _) ?_
  refine carries_ite (moves_bind (moves_tracePrestart a) fun _ => moves_unlock_return _) ?_
  refine carries_ite (moves_modify moves_unlock_return) ?_
  split
  · exact moves_modify moves_unlock_return
  · exact moves_modify moves_unlock_return
  · refine moves_bind (moves_modifyTrace _) fun _ => carries_ite (moves_unlock_return _) ?_
    split
    · exact moves_modify moves_unlock_return
    · exact moves_modify moves_unlock_return
    · exact moves_bind (moves_cleanupThreads _) fun _ => moves_unlock_return _

end

section

theorem moves_pauseHasher : Moves false false pauseHasher := by
  refine moves_bind moves_look fun tr => carries_ite ?_ (moves_pure _)
  exact moves_bind (moves_messageThread _ _) fun _ => moves_section (moves_waitWhile _)

theorem moves_askPerpkts (caller : Caller) : Moves false false (askPerpkts caller) := by
  refine moves_bind moves_look fun tr => carries_forM (fun i => ?_) _
  refine carries_ite (moves_bind (moves_messageThread _ _) fun _ => ?_) (moves_pure _)
  exact moves_bind moves_look fun tr => carries_ite (moves_nudge i) (moves_pure _)

theorem moves_pauseCaller (caller : Caller) : Moves false false (pauseCaller caller) := by
  cases caller with
  | perpkt i => exact moves_threadChangeStateLocked _ _
  | main | reporter => exact moves_pure _

theorem moves_waitPerpkts : Moves false false waitPerpkts := moves_section (moves_waitWhile _)

theorem moves_pauseReporter (caller : Caller) : Moves false false (pauseReporter caller) := by
  refine moves_bind moves_look fun tr => carries_ite (carries_throw_bind nofun _) ?_
  refine carries_ite (carries_ite (moves_threadChangeStateLocked _ _) ?_) (moves_pure _)
  exact moves_bind (moves_messageThread _ _) fun _ => moves_section (moves_waitWhile _)

theorem moves_tracePause : Moves b b tracePause := by
  refine moves_bind moves_look fun tr => carries_ite ?_ ?_
  · exact moves_modify moves_pure
  · exact moves_modify moves_pure

theorem moves_pauseFormat (fmt : Format) : Moves b b (pauseFormat fmt) := by
  refine moves_bind moves_look fun tr => carries_ite ?_ moves_tracePause
  exact moves_modify moves_pure

theorem moves_pauseRunning (fmt : Format) (caller : Caller) :
    Moves true false (pauseRunning fmt caller) := by
  refine moves_bind (moves_modifyTrace _) fun _ => moves_bind moves_unlock fun _ => ?_
  refine moves_bind moves_pauseHasher fun _ => moves_bind (moves_askPerpkts caller) fun _ => ?_
  refine moves_bind (moves_pauseCaller caller) fun _ => moves_bind moves_waitPerpkts fun _ => ?_
  refine moves_bind (moves_pauseReporter caller) fun _ => ?_
  refine moves_bind (moves_pauseFormat fmt) fun err => carries_ite (moves_pure _) ?_
  exact moves_bind (moves_changeStateLocked _) fun _ => moves_pure _

theorem moves_messagePerpkts (message : Message) : Moves b b (messagePerpkts message) := by
  refine moves_bind moves_look fun tr => carries_forM (fun i => ?_) _
  exact moves_bind moves_look fun tr => carries_ite (moves_messageThread _ _) (moves_pure _)

theorem moves_stopPaused : Moves false false stopPaused := by
  have hend : ∀ tr : Trace, Moves false false (do
      (List.range tr.perpktThreadCount).forM fun i => messageThread (.perpkt i) .doStop
      changeStateLocked .finishing) := fun tr =>
    moves_bind (carries_forM (fun i => moves_messageThread _ _) _) fun _ =>
      moves_changeStateLocked _
  refine moves_bind (moves_messagePerpkts _) fun _ => moves_bind moves_look fun tr => ?_
  refine carries_ite (moves_bind (moves_messageThread _ _) fun _ => ?_) ?_
  · exact moves_bind moves_look hend
  · exact moves_bind moves_look hend

end

section

variable {w : World}

def refused (w : World) : World :=
  { acquired w with
    trace := w.interfered.trace.setErr .badState
      "You must call trace_start() before calling trace_ppause()" }

theorem tracePpause_eq (fmt : Format) (caller : Caller) (hw : w.holds = false) :
    tracePpause fmt caller w =
      if w.interfered.trace.state = .paused then .ok (0, { acquired w with holds := false })
      else if w.interfered.trace.started = false ∨ w.interfered.trace.state ≠ .running then
        .ok (-1, refused w)
      else pauseRunning fmt caller (acquired w) := by
  unfold tracePpause
  rw [bind_of_ok (lock_eq hw), bind_of_ok (a := w.interfered.trace) rfl]
  split
  · rfl
  · split <;> rfl

theorem not_pausable_iff {tr : Trace} :
    ¬ Pausable tr ↔ tr.state ≠ .paused ∧ (tr.started = false ∨ tr.state ≠ .running) := by
  simp only [Pausable, not_or, not_and_or, Bool.not_eq_true]

theorem tracePpause_refused (fmt : Format) (caller : Caller) (hw : w.holds = false)
    (h : ¬ Pausable w.interfered.trace) : tracePpause fmt caller w = .ok (-1, refused w) := by
  obtain ⟨hpaused, hrunning⟩ := not_pausable_iff.mp h
  rw [tracePpause_eq fmt caller hw, if_neg hpaused, if_pos hrunning]

theorem tracePpause_releases (fmt : Format) (caller : Caller) (hw : w.holds = false)
    (h : Pausable w.interfered.trace) :
    Spec (tracePpause fmt caller) w (fun _ w' => w'.holds = false) (· ≠ .deadlock) := by
  unfold Spec
  rw [tracePpause_eq fmt caller hw]
  by_cases hpaused : w.interfered.trace.state = .paused
  · simp only [if_pos hpaused]
  · have hrunning : ¬ (w.interfered.trace.started = false ∨ w.interfered.trace.state ≠ .running) :=
      fun hr => not_pausable_iff.mpr ⟨hpaused, hr⟩ h
    simp only [if_neg hpaused, if_neg hrunning]
    exact moves_pauseRunning fmt caller _ rfl

section

variable (c : Control) (hw : w.holds = false)
include c hw

theorem run_releases (h : Permitted w c) :
    Spec c.run w (fun _ w' => w'.holds = false) (· ≠ .deadlock) := by
  cases c with
  | pstart a => exact moves_tracePstart a w hw
  | ppause fmt caller => exact tracePpause_releases fmt caller hw h
  | pstop fmt caller =>
    refine spec_seq (tracePpause_releases fmt caller hw h) fun err w' hw' => ?_
    have hend : Moves false false (do stopPaused; return (0 : Int)) :=
      moves_bind moves_stopPaused fun _ => moves_pure _
    exact carries_ite (moves_pure err) hend w' hw'

theorem run_refused (h : ¬ Permitted w c) : c.run w = .ok (-1, refused w) := by
  cases c with
  | pstart a => exact absurd trivial h
  | ppause fmt caller => exact tracePpause_refused fmt caller hw h
  | pstop fmt caller =>
    change tracePstop fmt caller w = _
    unfold tracePstop
    rw [bind_of_ok (tracePpause_refused fmt caller hw h)]
    rfl

theorem run_ne_deadlock : c.run w ≠ .error .deadlock := by
  by_cases h : Permitted w c
  · intro hrun
    have hspec := run_releases c hw h
    simp only [Spec, hrun, ne_eq, not_true_eq_false] at hspec
  · simp [run_refused c hw h]

end

/-- The three calls give the lock back, unless `trace_ppause`, also from `trace_pstop`, finds
nothing to pause: it then only sets the error and keeps the lock. -/
theorem releases_iff_permitted (c : Control) (w : World) (hw : w.holds = false) :
    (Releases c w ↔ Permitted w c) ∧
      (¬ Permitted w c → ∃ w', c.run w = .ok (-1, w') ∧ w'.holds = true ∧
        w'.trace = { w.interfered.trace with err := w'.trace.err }) := by
  refine ⟨⟨fun hreleases => ?_, fun h ret w' hrun => ?_⟩, fun h => ?_⟩
  · by_contra h
    have hheld := (hreleases _ _ (run_refused c hw h)).1
    exact absurd hheld nofun
  · have hfree : w'.holds = false := by simpa only [Spec, hrun] using run_releases c hw h
    exact ⟨hfree, fun later => run_ne_deadlock later hfree⟩
  · exact ⟨refused w, run_refused c hw h, rfl, rfl⟩

def quiet (tr : Trace) : World where
  trace := tr
  uridata := "trace.pcap"
  holds := false
  others := []
  sent := []
  nudged := []

def fileFormat : Format where
  pstartInput := none
  startInput := some 0

theorem releases_iff_permitted_running :
    let w := quiet { traceCreate with state := .running, started := true }
    Releases (.pstop fileFormat .main) w ∧
      ∃ w', (Control.pstop fileFormat .main).run w = .ok (0, w') ∧ w'.trace.state = .finishing :=
  ⟨(releases_iff_permitted _ _ rfl).1.mpr (.inr ⟨rfl, rfl⟩), _, rfl, rfl⟩

/-- Pausing a trace that was never started returns `-1`; the thread's next call does not return. -/
theorem releases_fails :
    ∃ w', (Control.ppause fileFormat .main).run (quiet traceCreate) = .ok (-1, w') ∧
      w'.holds = true ∧ ∀ later : Control, later.run w' = .error .deadlock :=
  ⟨refused (quiet traceCreate), rfl, rfl, fun later => by cases later <;> rfl⟩

end

end Libtrace.ControlLock
