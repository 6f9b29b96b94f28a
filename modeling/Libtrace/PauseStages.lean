import Libtrace.PauseProtocol
import Libtrace.ThreadTally

/-! What holds while a trace is paused, resumed and stopped: the place of the main thread says which
state the trace is in. -/

namespace Libtrace.PauseStages
open ParallelTrace PauseProtocol ThreadTally Function

section

variable {n : Nat} {s : System}

def stateAt : Place → ThreadState
  | .waiting => .paused
  | .exited => .finished
  | .loop | .pausing | .assertStarted | .assertState | .failing | .leaving => .running

theorem stateAt_finished {p : Place} : stateAt p = .finished ↔ p = .exited := by
  cases p <;> decide

def Stage (n : Nat) (main : MainPlace) (tr : Trace) : Prop :=
  match main with
  | .idle => tr.state = .running ∧ tr.started = true ∨
      tr.state = .paused ∧ tr.started = false ∧ Quiet n tr ∨
      tr.state = .finishing ∧ tr.started = false ∨ tr.state = .finished
  | .tellHasher | .awaitHasher | .tellPerpkt _ | .awaitPerpkts =>
    tr.state = .pausing ∧ tr.started = true
  | .tellReporter | .awaitReporter | .pauseFormat =>
    tr.state = .pausing ∧ tr.started = true ∧ Quiet n tr
  | .setPaused => tr.state = .pausing ∧ tr.started = false ∧ Quiet n tr
  | .stopPerpkts | .stopHasher | .stopPerpkt _ | .setFinishing =>
    tr.state = .paused ∧ tr.started = false ∧ Quiet n tr

def Stopped (main : MainPlace) (tr : Trace) : Prop :=
  match main with
  | .stopPerpkt _ | .setFinishing => True
  | .idle => tr.started = false ∧ (tr.state = .finishing ∨ tr.state = .finished)
  | _ => False

def Asked (s : System) : Prop :=
  .doStop ∈ s.messages .hasher ∨ s.places .hasher = .assertStarted ∨
    s.places .hasher = .assertState

structure Inv (n : Nat) (s : System) : Prop where
  fault : s.fault = none
  tallied : Tallied n s.trace
  linked : ∀ i < n, (s.trace.thread (.perpkt i)).state = stateAt (s.places (.perpkt i))
  absent : ∀ i, n ≤ i → s.places (.perpkt i) = .exited
  finished : s.trace.state = .finished ↔ AllFinished n s.trace
  stage : Stage n s.main s.trace
  asked : Asked s → Stopped s.main s.trace

variable {main : MainPlace} {tr : Trace}

theorem Stage.keep {tr' : Trace} (h : Stage n main tr) (hstarted : tr'.started = tr.started)
    (hstate : tr'.state = tr.state ∨ main = .idle ∧ tr'.state = .finished)
    (hquiet : tr.state = .paused ∨ tr.state = .pausing → Quiet n tr → Quiet n tr') :
    Stage n main tr' := by
  rcases hstate with hstate | ⟨rfl, hstate⟩
  · cases main with
    | idle =>
      simp only [Stage, hstate, hstarted]
      rcases h with h | ⟨hp, hs, hq⟩ | h
      · exact .inl h
      · exact .inr (.inl ⟨hp, hs, hquiet (.inl hp) hq⟩)
      · exact .inr (.inr h)
    | tellHasher | awaitHasher | tellPerpkt _ | awaitPerpkts =>
      simp only [Stage, hstate, hstarted]
      exact h
    | tellReporter | awaitReporter | pauseFormat | setPaused =>
      simp only [Stage, hstate, hstarted]
      exact ⟨h.1, h.2.1, hquiet (.inr h.1) h.2.2⟩
    | stopPerpkts | stopHasher | stopPerpkt _ | setFinishing =>
      simp only [Stage, hstate, hstarted]
      exact ⟨h.1, h.2.1, hquiet (.inl h.1) h.2.2⟩
  · exact .inr (.inr (.inr hstate))

theorem Stage.idle_or (h : Stage n main tr) : main = .idle ∨ tr.state = .pausing ∨ Quiet n tr := by
  cases main with
  | idle => exact .inl rfl
  | stopPerpkts | stopHasher | stopPerpkt _ | setFinishing => exact .inr (.inr h.2.2)
  | _ => exact .inr (.inl h.1)

theorem Stage.paused (h : Stage n .idle tr) (hpaused : tr.state = .paused) :
    tr.started = false ∧ Quiet n tr := by
  rcases h with ⟨hs, -⟩ | ⟨-, hs⟩ | ⟨hs, -⟩ | hs
  · rw [hpaused] at hs
    cases hs
  · exact hs
  · rw [hpaused] at hs
    cases hs
  · rw [hpaused] at hs
    cases hs

theorem not_stopped_of_paused (hpaused : tr.state = .paused) : ¬ Stopped .idle tr := by
  rintro ⟨-, hs | hs⟩ <;> rw [hpaused] at hs <;> cases hs

theorem Stopped.keep {tr' : Trace} (h : Stopped main tr) (hstarted : tr'.started = tr.started)
    (hstate : tr'.state = tr.state ∨ main = .idle ∧ tr'.state = .finished) : Stopped main tr' := by
  rcases hstate with hstate | ⟨rfl, hstate⟩
  · cases main with
    | idle =>
      simp only [Stopped, hstate, hstarted]
      exact h
    | _ => exact h
  · exact ⟨hstarted.trans h.1, .inr hstate⟩

theorem Inv.not_started (h : Inv n s) (hasked : Asked s) : s.trace.started = false := by
  have hstopped := h.asked hasked
  have hstage := h.stage
  cases hmain : s.main with
  | idle =>
    rw [hmain] at hstopped
    exact hstopped.1
  | stopPerpkt i | setFinishing =>
    rw [hmain] at hstage
    exact hstage.2.1
  | _ =>
    rw [hmain] at hstopped
    exact hstopped.elim

end

section

variable {n : Nat} {s : System} {id : ThreadId}

section

variable (h : Inv n s)
include h

theorem Inv.move {p : Place} (hp : stateAt p = stateAt (s.places id))
    (hasked : id = .hasher → p = .assertStarted ∨ p = .assertState → Asked s) :
    Inv n (s.move id p) := by
  have hplace (j : ThreadId) : stateAt ((s.move id p).places j) = stateAt (s.places j) := by
    by_cases hj : j = id
    · subst hj
      simp only [System.move, update_self, hp]
    · simp only [System.move, update_of_ne hj]
  refine ⟨h.fault, h.tallied, fun i hi => (h.linked i hi).trans (hplace _).symm, fun i hi => ?_,
    h.finished, h.stage, fun ha => h.asked ?_⟩
  · rw [← stateAt_finished, hplace, stateAt_finished]
    exact h.absent i hi
  · rcases ha with ha | ha
    · exact .inl ha
    · by_cases hid : id = .hasher
      · subst hid
        exact hasked rfl ha
      · simp only [System.move, update_of_ne (Ne.symm hid)] at ha
        exact .inr ha

theorem Inv.take : Inv n (s.take id) := by
  refine ⟨h.fault, h.tallied, h.linked, h.absent, h.finished, h.stage, fun ha => h.asked ?_⟩
  rcases ha with ha | ha
  · by_cases hid : id = .hasher
    · subst hid
      exact .inl (List.mem_of_mem_tail ha)
    · simp only [System.take, update_of_ne (Ne.symm hid)] at ha
      exact .inl ha
  · exact .inr ha

theorem Inv.send {message : ParallelControl.Message}
    (hstop : id = .hasher → message = .doStop → Stopped s.main s.trace) :
    Inv n (s.send id message) := by
  refine ⟨h.fault, h.tallied, h.linked, h.absent, h.finished, h.stage, fun ha => ?_⟩
  rcases ha with ha | ha
  · by_cases hid : id = .hasher
    · subst hid
      simp only [System.send, update_self, List.mem_append, List.mem_singleton] at ha
      rcases ha with ha | ha
      · exact h.asked (.inl ha)
      · exact hstop rfl ha.symm
    · simp only [System.send, update_of_ne (Ne.symm hid)] at ha
      exact h.asked (.inl ha)
  · exact h.asked (.inr ha)

theorem Inv.messagePerpkts (message : ParallelControl.Message) : Inv n (s.messagePerpkts message) :=
  ⟨h.fault, h.tallied, h.linked, h.absent, h.finished, h.stage, h.asked⟩

theorem Inv.setErr (num : ErrNum) (problem : String) (held : Bool) :
    Inv n { s with trace := s.trace.setErr num problem, held := held } :=
  ⟨h.fault, ⟨h.tallied.count, h.tallied.table, h.tallied.proper, h.tallied.types,
    h.tallied.counts⟩, h.linked, h.absent, h.finished, h.stage, h.asked⟩

theorem Inv.goTo (main : MainPlace) (hstage : Stage n main s.trace)
    (hstopped : Stopped s.main s.trace → Stopped main s.trace) : Inv n (s.goTo main) :=
  ⟨h.fault, h.tallied, h.linked, h.absent, h.finished, hstage, fun ha => hstopped (h.asked ha)⟩

theorem Inv.advance (state : TraceState) (started : Bool) (main : MainPlace)
    (stopping : Bool) (hstate : s.trace.state ≠ .finished ∧ state ≠ .finished)
    (hstage : Stage n main { s.trace with state := state, started := started })
    (hstopped : Stopped s.main s.trace →
      Stopped main { s.trace with state := state, started := started }) :
    Inv n { s with
      trace := { s.trace with state := state, started := started }
      main := main
      stopping := stopping } :=
  ⟨h.fault, ⟨h.tallied.count, h.tallied.table, h.tallied.proper, h.tallied.types,
    h.tallied.counts⟩, h.linked, h.absent,
    iff_of_false hstate.2 fun hall => hstate.1 (h.finished.mpr hall), hstage,
    fun ha => hstopped (h.asked ha)⟩

theorem Inv.present {i : Nat} (hplace : s.places (.perpkt i) ≠ .exited) : i < n := by
  by_contra hle
  exact hplace (h.absent i (by omega))

theorem Inv.not_allFinished {i : Nat} (hplace : s.places (.perpkt i) ≠ .exited) :
    ¬ AllFinished n s.trace := by
  intro hall
  have hlinked := h.linked i (h.present hplace)
  rw [hall i (h.present hplace)] at hlinked
  exact hplace (stateAt_finished.mp hlinked.symm)

theorem Inv.change (hplace : s.places id ≠ .exited) (st : ThreadState) :
    Tallied n (s.trace.threadChangeState id st) ∧
      ((s.trace.threadChangeState id st).state = .finished ↔
        AllFinished n (s.trace.threadChangeState id st)) ∧
      ((s.trace.threadChangeState id st).state = s.trace.state ∨
        (∃ i, id = .perpkt i) ∧ AllFinished n (s.trace.threadChangeState id st)) := by
  have hlt : ∀ i, id = .perpkt i → i < n := fun i hi => h.present (hi ▸ hplace)
  refine ⟨h.tallied.change hlt st, ?_⟩
  rw [h.tallied.change_state hlt]
  by_cases hperpkt : ∃ i, id = .perpkt i
  · obtain ⟨i, rfl⟩ := hperpkt
    split_ifs with hnow
    · exact ⟨iff_of_true rfl hnow, .inr ⟨⟨i, rfl⟩, hnow⟩⟩
    · have hnot : s.trace.state ≠ .finished := fun hold =>
        h.not_allFinished hplace (h.finished.mp hold)
      exact ⟨iff_of_false hnot hnow, .inl rfl⟩
  · have hsame : AllFinished n (s.trace.threadChangeState id st) ↔ s.trace.state = .finished :=
      (allFinished_other fun i hi => hperpkt ⟨i, hi⟩).trans h.finished.symm
    split_ifs with hnow
    · exact ⟨iff_of_true rfl hnow, .inl (hsame.mp hnow).symm⟩
    · exact ⟨hsame.symm, .inl rfl⟩

theorem Inv.enter {p : Place} (hplace : s.places id ≠ .exited)
    (hp : p ≠ .assertStarted ∧ p ≠ .assertState)
    (hrun : stateAt p = .running → ¬ (s.trace.state = .paused ∨ s.trace.state = .pausing))
    (hlast : ∀ i, id = .perpkt i → AllFinished n (s.trace.threadChangeState id (stateAt p)) →
      s.main = .idle) :
    Inv n (s.enter id (stateAt p) p) := by
  obtain ⟨htallied, hfinished, hstate⟩ := h.change hplace (stateAt p)
  have hother {j : ThreadId} (hj : j ≠ id) :=
    Trace.threadChangeState_thread s.trace id (stateAt p) hj
  have hself := Trace.threadChangeState_self s.trace id (stateAt p) h.tallied.table
  have hstarted := Trace.threadChangeState_started s.trace id (stateAt p)
  have hkeeps : (s.trace.threadChangeState id (stateAt p)).state = s.trace.state ∨
      s.main = .idle ∧ (s.trace.threadChangeState id (stateAt p)).state = .finished :=
    hstate.imp_right fun ⟨⟨i, hi⟩, hall⟩ => ⟨hlast i hi hall, hfinished.mpr hall⟩
  refine ⟨h.fault, htallied, fun i hi => ?_, fun i hi => ?_, hfinished,
    h.stage.keep hstarted hkeeps fun hpaused hquiet i hi => ?_, fun ha => ?_⟩
  · by_cases hii : .perpkt i = id
    · subst hii
      simp only [System.enter, update_self, hself]
    · simp only [System.enter, update_of_ne hii, hother hii]
      exact h.linked i hi
  · have hii : .perpkt i ≠ id := fun hii => hplace (hii ▸ h.absent i hi)
    simp only [System.enter, update_of_ne hii]
    exact h.absent i hi
  · by_cases hii : .perpkt i = id
    · subst hii
      simp only [System.enter, hself]
      exact fun hr => hrun hr hpaused
    · simp only [System.enter, hother hii]
      exact hquiet i hi
  · refine (h.asked ?_).keep hstarted hkeeps
    rcases ha with ha | ha
    · exact .inl ha
    · by_cases hhasher : .hasher = id
      · subst hhasher
        exact absurd ha (not_or.mpr hp)
      · simp only [System.enter, update_of_ne hhasher] at ha
        exact .inr ha

theorem Inv.goOn {m : MainPlace} (hmain : s.main = m) (hm : ¬ Stopped m s.trace) (main : MainPlace)
    (hstage : Stage n main s.trace) : Inv n (s.goTo main) :=
  h.goTo main hstage fun hs => absurd (hmain ▸ hs) hm

end

end

end Libtrace.PauseStages
