import Libtrace.PauseStages

/-! Every step keeps what holds while a trace is paused, resumed and stopped. -/

namespace Libtrace.PauseSteps
open ParallelTrace PauseProtocol ThreadTally PauseStages

section

variable {n : Nat} {s : System} {id : ThreadId}

theorem locked_inv (h : Inv n s) {f : System → System} (hf : s.held = false → Inv n (f s)) :
    Inv n (s.locked f) := by
  unfold System.locked
  split_ifs with hheld
  · exact h
  · exact hf (Bool.eq_false_iff.mpr hheld)

theorem not_allFinished (h : Inv n s) {p : Place} (hp : stateAt p ≠ .finished) {i : Nat}
    (hi : i < n) : ¬ AllFinished n (s.trace.threadChangeState (.perpkt i) (stateAt p)) := by
  intro hall
  have hself := hall i hi
  rw [Trace.threadChangeState_self _ _ _ h.tallied.table] at hself
  exact hp hself

section

variable (h : Inv n s) (hplace : s.places id ≠ .exited)
include h hplace

theorem wake_inv : Inv n (wake id s) := by
  unfold wake
  split_ifs with hpaused
  · exact h
  · refine h.enter (p := .loop) hplace ⟨nofun, nofun⟩ (fun _ => hpaused) ?_
    rintro i rfl hall
    exact absurd hall (not_allFinished h (by decide) (h.present hplace))

theorem pauseThread_inv :
    Inv n (pauseThread id s) := by
  have hentered : Inv n (s.enter id .paused .waiting) := by
    refine h.enter (p := .waiting) hplace ⟨nofun, nofun⟩ nofun ?_
    rintro i rfl hall
    exact absurd hall (not_allFinished h (by decide) (h.present hplace))
  refine wake_inv hentered ?_
  simp only [System.enter, Function.update_self]
  decide

theorem finish_inv
    (hlast : ∀ i, id = .perpkt i → AllFinished n (s.trace.threadChangeState id .finished) →
      s.main = .idle) : Inv n (finish id s) :=
  h.enter (p := .exited) hplace ⟨nofun, nofun⟩ nofun hlast

end

def Fine (n : Nat) (s : System) : Prop := Inv n s ∨ s.fault = some .dropped

section

variable (h : Inv n s)
include h

theorem hashNext_fine (hplace : s.places .hasher = .loop) (supply : Supply) :
    Fine n (hashNext supply s) := by
  have hleaves : stateAt .leaving = stateAt (s.places .hasher) := hplace ▸ rfl
  unfold hashNext
  split_ifs
  · exact .inl (h.move hleaves nofun)
  · exact .inl ((h.setErr _ _ s.held).move hleaves nofun)
  · cases supply with
    | packet hash =>
      dsimp only
      split_ifs
      · exact .inr rfl
      · exact .inl h
    | last | halt => exact .inl (h.move hleaves nofun)

theorem hasherStep_fine (supply : Supply)
    (hlooks : s.places .hasher = .assertState → AllFinished n s.trace) :
    Fine n (hasherStep supply s) := by
  cases hplace : s.places .hasher with
  | loop =>
    simp only [hasherStep, hplace]
    split_ifs
    · exact .inl (h.move (hplace ▸ rfl) nofun)
    · split
      · exact .inl (h.take.move (hplace ▸ rfl) nofun)
      · next hmessages =>
        -- the message is in the queue until it is taken
        have hasked : Asked s := .inl (hmessages ▸ List.mem_cons_self)
        exact .inl (h.move (hplace ▸ rfl) fun _ _ => hasked).take
      · exact hashNext_fine h hplace supply
  | pausing =>
    simp only [hasherStep, hplace]
    exact .inl (locked_inv h fun _ => pauseThread_inv h (by rw [hplace]; decide))
  | waiting =>
    simp only [hasherStep, hplace]
    exact .inl (locked_inv h fun _ => wake_inv h (by rw [hplace]; decide))
  | assertStarted =>
    have hasked : Asked s := .inr (.inl hplace)
    simp only [hasherStep, hplace, if_pos (h.not_started hasked)]
    exact .inl (h.move (hplace ▸ rfl) fun _ _ => hasked)
  | assertState =>
    simp only [hasherStep, hplace, if_pos (h.finished.mpr (hlooks hplace))]
    exact .inl (h.move (hplace ▸ rfl) nofun)
  | failing =>
    simp only [hasherStep, hplace]
    exact .inl h
  | leaving =>
    simp only [hasherStep, hplace]
    exact .inl (locked_inv h fun _ => finish_inv h (by rw [hplace]; decide) nofun)
  | exited =>
    simp only [hasherStep, hplace]
    exact .inl h

theorem perpktStep_inv (i : Nat) (batch : Batch)
    (hlast : s.places (.perpkt i) = .leaving → s.held = false →
      AllFinished n (s.trace.threadChangeState (.perpkt i) .finished) → s.main = .idle) :
    Inv n (perpktStep i batch s) := by
  cases hplace : s.places (.perpkt i) with
  | loop =>
    simp only [perpktStep, hplace]
    split
    · exact h.take.move (hplace ▸ rfl) nofun
    · exact h.take.move (hplace ▸ rfl) nofun
    · cases batch with
      | packets => exact h
      | eof | error => exact h.move (hplace ▸ rfl) nofun
  | pausing =>
    simp only [perpktStep, hplace]
    split_ifs
    · exact locked_inv h fun _ => pauseThread_inv h (by rw [hplace]; decide)
    · exact h.move (by rw [hplace]; rfl) nofun
  | waiting =>
    simp only [perpktStep, hplace]
    exact locked_inv h fun _ => wake_inv h (by rw [hplace]; decide)
  | failing =>
    simp only [perpktStep, hplace]
    exact (h.messagePerpkts .doStop).move (by simp only [System.messagePerpkts, hplace]; rfl) nofun
  | leaving =>
    simp only [perpktStep, hplace]
    exact locked_inv h fun hheld => finish_inv h (by rw [hplace]; decide) fun _ _ =>
      hlast hplace hheld
  | assertStarted | assertState | exited =>
    simp only [perpktStep, hplace]
    exact h

theorem reporterStep_inv : Inv n (reporterStep s) := by
  cases hplace : s.places .reporter with
  | loop =>
    simp only [reporterStep, hplace]
    split_ifs
    · exact h.move (hplace ▸ rfl) nofun
    · split
      · exact h.take.move (hplace ▸ rfl) nofun
      · exact h.take
      · exact h
  | pausing =>
    simp only [reporterStep, hplace]
    exact locked_inv h fun _ => pauseThread_inv h (by rw [hplace]; decide)
  | waiting =>
    simp only [reporterStep, hplace]
    exact locked_inv h fun _ => wake_inv h (by rw [hplace]; decide)
  | leaving =>
    simp only [reporterStep, hplace]
    exact locked_inv h fun _ => finish_inv h (by rw [hplace]; decide) nofun
  | assertStarted | assertState | failing | exited =>
    simp only [reporterStep, hplace]
    exact h

theorem mainStep_inv_asking
    (hmain : s.main = .tellHasher ∨ s.main = .awaitHasher ∨ (∃ i, s.main = .tellPerpkt i) ∨
      s.main = .awaitPerpkts) : Inv n (mainStep s) := by
  have hstage := h.stage
  rcases hmain with hmain | hmain | ⟨i, hmain⟩ | hmain <;> rw [hmain] at hstage <;>
    simp only [mainStep, hmain]
  · split_ifs
    · exact (h.goOn hmain id .awaitHasher hstage).send nofun
    · exact h.goOn hmain id _ hstage
  · split_ifs
    · exact h
    · exact h.goOn hmain id _ hstage
  · split_ifs
    · exact (h.goOn hmain id (.tellPerpkt (i + 1)) hstage).send nofun
    · exact h.goOn hmain id _ hstage
  · split_ifs with hrunning
    · exact h
    · have hquiet := h.tallied.quiet_iff.mp (not_not.mp hrunning)
      exact h.goOn hmain id _ ⟨hstage.1, hstage.2, hquiet⟩

theorem mainStep_inv_pausing
    (hmain : s.main = .tellReporter ∨ s.main = .awaitReporter ∨ s.main = .pauseFormat ∨
      s.main = .setPaused) : Inv n (mainStep s) := by
  have hstage := h.stage
  rcases hmain with hmain | hmain | hmain | hmain <;> rw [hmain] at hstage <;>
    have hne : s.trace.state ≠ .finished := by rw [hstage.1]; decide
  · simp only [mainStep, hmain]
    split_ifs
    · exact (h.goOn hmain id .awaitReporter hstage).send nofun
    · exact h.goOn hmain id _ hstage
  · simp only [mainStep, hmain]
    split_ifs
    · exact h
    · exact h.goOn hmain id _ hstage
  · simp only [mainStep, hmain, if_pos (Or.inr hstage.2.1)]
    exact h.advance s.trace.state false .setPaused s.stopping ⟨hne, hne⟩
      ⟨hstage.1, rfl, hstage.2.2⟩ fun hs => (hmain ▸ hs : Stopped .pauseFormat s.trace).elim
  · simp only [mainStep, hmain]
    refine h.advance .paused s.trace.started _ s.stopping ⟨hne, by decide⟩ ?_
      fun hs => (hmain ▸ hs : Stopped .setPaused s.trace).elim
    cases s.stopping with
    | false => exact .inr (.inl ⟨rfl, hstage.2⟩)
    | true => exact ⟨rfl, hstage.2⟩

theorem mainStep_inv : Inv n (mainStep s) := by
  have hstage := h.stage
  cases hmain : s.main with
  | idle =>
    simp only [mainStep, hmain]
    exact h
  | tellHasher => exact mainStep_inv_asking h (.inl hmain)
  | awaitHasher => exact mainStep_inv_asking h (.inr (.inl hmain))
  | tellPerpkt i => exact mainStep_inv_asking h (.inr (.inr (.inl ⟨i, hmain⟩)))
  | awaitPerpkts => exact mainStep_inv_asking h (.inr (.inr (.inr hmain)))
  | tellReporter => exact mainStep_inv_pausing h (.inl hmain)
  | awaitReporter => exact mainStep_inv_pausing h (.inr (.inl hmain))
  | pauseFormat => exact mainStep_inv_pausing h (.inr (.inr (.inl hmain)))
  | setPaused => exact mainStep_inv_pausing h (.inr (.inr (.inr hmain)))
  | stopPerpkts =>
    rw [hmain] at hstage
    simp only [mainStep, hmain]
    exact (h.messagePerpkts .doStop).goOn hmain id _ hstage
  | stopHasher =>
    rw [hmain] at hstage
    simp only [mainStep, hmain]
    split_ifs
    · exact (h.goTo (.stopPerpkt 0) hstage fun _ => trivial).send fun _ _ => trivial
    · exact h.goTo _ hstage fun _ => trivial
  | stopPerpkt i =>
    rw [hmain] at hstage
    simp only [mainStep, hmain]
    split_ifs
    · exact (h.goTo (.stopPerpkt (i + 1)) hstage fun _ => trivial).send nofun
    · exact h.goTo _ hstage fun _ => trivial
  | setFinishing =>
    rw [hmain] at hstage
    have hne : s.trace.state ≠ .finished := by rw [hstage.1]; decide
    simp only [mainStep, hmain]
    exact h.advance .finishing s.trace.started .idle s.stopping ⟨hne, by decide⟩
      (.inr (.inr (.inl ⟨rfl, hstage.2.1⟩))) fun _ => ⟨hstage.2.1, .inl rfl⟩

theorem callPause_inv (hmain : s.main = .idle) (stopping : Bool) :
    Inv n (callPause stopping s) := by
  have hstage := h.stage
  rw [hmain] at hstage
  unfold callPause
  split_ifs with hpaused hstop hrefused
  · exact h.goOn hmain (not_stopped_of_paused hpaused) _ ⟨hpaused, hstage.paused hpaused⟩
  · exact h
  · exact h.setErr _ _ true
  · obtain ⟨hstarted, hrunning⟩ := not_or.mp hrefused
    have hstate : s.trace.state = .running := not_not.mp hrunning
    refine h.advance .pausing s.trace.started .tellHasher stopping
      ⟨by rw [hstate]; decide, by decide⟩ ⟨rfl, Bool.not_eq_false _ ▸ hstarted⟩ fun hs => ?_
    rw [hmain] at hs
    exact absurd hs.1 hstarted

theorem callResume_inv (hmain : s.main = .idle) (err : Int) : Inv n (callResume err s) := by
  have hstage := h.stage
  rw [hmain] at hstage
  unfold callResume
  split_ifs with herr hpaused hrunning hstarts
  · exact h
  · exact absurd (h.tallied.quiet_iff.mpr (hstage.paused hpaused).2) hrunning
  · have hne : s.trace.state ≠ .finished := by rw [hpaused]; decide
    have hadvanced := h.advance .running true .idle s.stopping ⟨hne, by decide⟩
      (.inl ⟨rfl, rfl⟩) fun hs => absurd (hmain ▸ hs) (not_stopped_of_paused hpaused)
    rwa [← hmain] at hadvanced
  · exact h
  · exact h.setErr _ _ s.held

theorem call_inv (hmain : s.main = .idle) (c : Call) : Inv n (call c s) := by
  cases c with
  | ppause => exact callPause_inv h hmain false
  | pstart err => exact callResume_inv h hmain err
  | pstop => exact callPause_inv h hmain true

end

end

end Libtrace.PauseSteps
