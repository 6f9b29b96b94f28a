import Libtrace.PauseSteps
import Libtrace.StartLaunch

/-! The assertions of `hasher_entry` on `MESSAGE_DO_STOP`. -/

namespace Libtrace.HasherStop
open ParallelTrace PauseProtocol Schedule StartLaunch ThreadTally PauseStages PauseSteps

section

def HasherFails (s : System) : Prop :=
  s.fault = some .hasherStarted ∨ s.fault = some .hasherState

instance (s : System) : Decidable (HasherFails s) := by
  unfold HasherFails
  infer_instance

def OutlastsPause (n : Nat) (s : System) (a : Action) : Prop :=
  s.trace.state = .pausing → ¬ AllFinished n (step s a).trace

instance (n : Nat) (s : System) (a : Action) : Decidable (OutlastsPause n s a) := by
  unfold OutlastsPause
  infer_instance

/-- The hasher thread looks at the state after all per-packet threads have finished. -/
def LooksLast (n : Nat) (s : System) : Action → Prop
  | .hasher _ => s.fault = none → s.places .hasher = .assertState → AllFinished n s.trace
  | _ => True

instance (n : Nat) (s : System) (a : Action) : Decidable (LooksLast n s a) := by
  unfold LooksLast
  split <;> infer_instance

end

section

variable {n : Nat} {s : System} {a : Action}

theorem idle_of_last (h : Inv n s) {i : Nat} {batch : Batch}
    (houtlasts : OutlastsPause n s (.perpkt i batch)) (hplace : s.places (.perpkt i) = .leaving)
    (hheld : s.held = false)
    (hall : AllFinished n (s.trace.threadChangeState (.perpkt i) .finished)) : s.main = .idle := by
  have hstep : step s (.perpkt i batch) = finish (.perpkt i) s := by
    simp [step, h.fault, perpktStep, hplace, System.locked, hheld]
  rcases h.stage.idle_or with hidle | hpausing | hquiet
  · exact hidle
  · have hnot := houtlasts hpausing
    rw [hstep] at hnot
    exact absurd hall hnot
  · have hi := h.present (i := i) (by rw [hplace]; decide)
    have hlinked := h.linked i hi
    rw [hplace] at hlinked
    exact absurd hlinked (hquiet i hi)

theorem step_of_fault {s : System} (h : s.fault ≠ none) (a : Action) : step s a = s := by
  exact if_pos h

theorem step_fine (h : Fine n s) (houtlasts : OutlastsPause n s a) (hlooks : LooksLast n s a) :
    Fine n (step s a) := by
  rcases h with h | h
  · unfold step
    rw [if_neg (not_not.mpr h.fault)]
    cases a with
    | call c =>
      split_ifs with hmain
      · exact .inl (locked_inv h fun _ => call_inv h hmain c)
      · exact .inl h
    | main => exact .inl (mainStep_inv h)
    | hasher supply => exact hasherStep_fine h supply (hlooks h.fault)
    | perpkt i batch => exact .inl (perpktStep_inv h i batch (idle_of_last h houtlasts))
    | reporter => exact .inl (reporterStep_inv h)
  · rw [step_of_fault (by rw [h]; nofun)]
    exact .inr h

theorem step_fails (h : Fine n s) (hlooks : ¬ LooksLast n s a) : HasherFails (step s a) := by
  cases a with
  | hasher supply =>
    simp only [LooksLast, Classical.not_imp] at hlooks
    obtain ⟨hfault, hplace, hnot⟩ := hlooks
    rcases h with h | h
    · have hstate : s.trace.state ≠ .finished := fun he => hnot (h.finished.mp he)
      rw [step, if_neg (not_not.mpr hfault)]
      simp only [hasherStep, hplace, if_neg hstate]
      exact .inr rfl
    · rw [hfault] at h
      cases h
  | _ => exact absurd trivial hlooks

theorem hasherFails_stays (h : HasherFails s) (a : Action) : HasherFails (step s a) := by
  have hfault : s.fault ≠ none := by rcases h with h | h <;> rw [h] <;> nofun
  rw [step_of_fault hfault]
  exact h

theorem Fine.not_fails (h : Fine n s) : ¬ HasherFails s := by
  rintro (hf | hf) <;> rcases h with h | h
  · rw [h.fault] at hf
    cases hf
  · rw [h] at hf
    cases hf
  · rw [h.fault] at hf
    cases hf
  · rw [h] at hf
    cases hf

theorem start_inv (c : Setup) : Inv c.threadCount (start c) := by
  obtain ⟨tr, hlaunch, hf⟩ := launch_ok c
  have hpos := c.threadCount_pos
  have htable : tr.perpktThreads = some (tableTo c.threadCount) := by
    rcases hf.table with ⟨hzero, -⟩ | ht
    · omega
    · exact ht
  have hthread (i : Nat) : tr.thread (.perpkt i) = tableTo c.threadCount i := by
    simp [Trace.thread, htable]
  have hrunning {i : Nat} (hi : i < c.threadCount) :
      tr.thread (.perpkt i) = ⟨.perpkt, .running⟩ := by
    rw [hthread, tableTo, if_pos hi]
  simp only [start, hlaunch, ParallelStart.afterLaunch]
  refine ⟨rfl, ⟨hf.count, by simp [Trace.changeState, htable], hf.proper, fun i hi => ?_,
    fun st => ?_⟩, fun i hi => ?_, fun i hi => ?_,
    iff_of_false (show TraceState.running ≠ .finished by decide) fun hall => ?_,
    .inl ⟨rfl, rfl⟩, ?_⟩
  · exact congrArg Thread.type (hrunning hi)
  · have hall : (fun i : Fin c.threadCount => tr.thread (.perpkt i)) =
        fun _ => ⟨.perpkt, .running⟩ := funext fun i => hrunning i.isLt
    show tr.perpktThreadStates st = Census.count (fun t : Thread => t.state == st)
      fun i : Fin c.threadCount => tr.thread (.perpkt i)
    rw [hf.counts, hall]
    cases st <;> simp [Census.count, tally]
  · show (tr.thread (.perpkt i)).state =
      stateAt (if (tr.thread (.perpkt i)).type = .perpkt then .loop else .exited)
    rw [hrunning hi]
    rfl
  · show (if (tr.thread (.perpkt i)).type = .perpkt then Place.loop else .exited) = .exited
    rw [hthread, show tableTo c.threadCount i = emptyThread from if_neg (by omega)]
    rfl
  · have hfinished : (tr.thread (.perpkt 0)).state = .finished := hall 0 hpos
    rw [hrunning hpos] at hfinished
    cases hfinished
  · rintro (hm | hp | hp)
    · exact absurd hm List.not_mem_nil
    · simp only [ite_eq_iff, reduceCtorEq, and_false, or_self] at hp
    · simp only [ite_eq_iff, reduceCtorEq, and_false, or_self] at hp

/-- Where the last per-packet thread does not finish in the middle of a pause, the assertions hold
exactly if the hasher thread looks at the state after all of them have finished. -/
theorem hasher_assertions_iff (c : Setup) (schedule : List Action)
    (houtlasts : Along step (OutlastsPause c.threadCount) (start c) schedule) :
    ¬ HasherFails (run c schedule) ↔
      Along step (LooksLast c.threadCount) (start c) schedule :=
  not_bad_iff (Fine c.threadCount) _ (fun _ => Fine.not_fails) (fun _ _ => step_fine)
    (fun _ _ h _ => step_fails h) (fun _ a h => hasherFails_stays h a) (.inl (start_inv c))
    houtlasts

def twoPerpkts : Setup := ⟨2, 1, true, false, 0⟩

def stopCall : List Action :=
  [.call .pstop, .main, .hasher (.packet 0), .hasher (.packet 0), .main, .main, .main, .main,
    .perpkt 0 .packets, .perpkt 0 .packets, .perpkt 1 .packets, .perpkt 1 .packets,
    .main, .main, .main, .main, .main, .main, .main, .main, .main, .main]

def hasherStops : List Action := List.replicate 4 (.hasher (.packet 0))

def perpktsFirst : List Action :=
  stopCall ++ List.replicate 3 (.perpkt 0 .packets) ++ List.replicate 3 (.perpkt 1 .packets) ++
    hasherStops

theorem perpktsFirst_holds :
    (run twoPerpkts perpktsFirst).places .hasher = .loop ∧
      ¬ HasherFails (run twoPerpkts perpktsFirst) :=
  ⟨by decide +kernel,
    (hasher_assertions_iff twoPerpkts perpktsFirst (by decide +kernel)).mpr (by decide +kernel)⟩

/-- The hasher thread wakes first: the trace is in `STATE_FINISHING`, where `trace_pstop` left
it. -/
theorem hasherFirst_fails :
    (run twoPerpkts (stopCall ++ hasherStops)).fault = some .hasherState ∧
      (run twoPerpkts (stopCall ++ hasherStops)).trace.state = .finishing ∧
      Along step (OutlastsPause 2) (start twoPerpkts) (stopCall ++ hasherStops) := by
  decide +kernel

end

end Libtrace.HasherStop
