import Libtrace.RollbackProgress
import Libtrace.Schedule

/-! Whole runs of the roll-back: every run can be finished, and has rolled the trace back exactly if
the counter was right and the hasher thread looked in time. -/

namespace Libtrace.RollbackRuns
open ParallelTrace ParallelStart StartLaunch StartRollback RollbackProgress Schedule

section

variable {n k : Nat} {running : Int} {m : Machine}

theorem step_stuck_of_fault (hf : m.fault ≠ none) (a : Action) : step m a = m := by
  simp only [step, if_neg hf]

theorem step_stuck_of_back (hb : RolledBack m) (hgone : ∀ id, Gone m id) (a : Action) :
    step m a = m := by
  simp only [step, hb.fault, if_true]
  cases a with
  | main => simp only [mainStep, hb.main]
  | thread id => rcases hgone id with hg | hg <;> simp only [threadStep, hg]

theorem sees_of_gone (hgone : ∀ id, Gone m id) (a : Action) : HasherSeesError m a := by
  cases a with
  | main => exact fun he => absurd he (by simp)
  | thread id =>
    refine sees_of_not_gate ?_
    rcases hgone id with hg | hg <;> rw [hg] <;> decide

theorem finished_step (hf : Finished m) (a : Action) : Finished (step m a) := by
  rcases hf with hf | ⟨ret, hret⟩
  · rw [step_stuck_of_fault hf]
    exact .inl hf
  · by_cases hf : m.fault = none
    · simp only [step, hf, if_true]
      cases a with
      | main => exact .inr ⟨ret, by simp only [mainStep, hret]⟩
      | thread id =>
        refine .inr ⟨ret, ?_⟩
        simp only [threadStep]
        split <;> try exact hret
        · split
          · exact hret
          · split
            · exact hret
            · split
              · exact hret
              · split <;> exact hret
        · split <;> exact hret
    · rw [step_stuck_of_fault hf]
      exact .inl hf

theorem step_kept_or_finished (h : Inv n k running m) (a : Action) :
    Inv n k running (step m a) ∨ Finished (step m a) := by
  simp only [step, h.fault, if_true]
  cases a with
  | main =>
    rcases mainStep_outcome h with hinv | ⟨-, hback, -⟩ | ⟨-, hfault⟩
    · exact .inl hinv
    · exact .inr (.inr ⟨_, hback.main⟩)
    · exact .inr (.inl hfault)
  | thread id =>
    rcases threadStep_outcome h id with ⟨-, hinv⟩ | ⟨-, hfault⟩
    · exact .inl hinv
    · exact .inr (.inl hfault)

theorem exists_finish (h : Inv n k running m ∨ Finished m) :
    ∃ schedule : List Action, Finished (schedule.foldl step m) := by
  refine exists_finished (fun m => Inv n k running m ∨ Finished m) (rank k) ?_ ?_ h
  · rintro m a (hinv | hfin)
    · exact step_kept_or_finished hinv a
    · exact .inr (finished_step hfin a)
  · rintro m (hinv | hfin) hnot
    · exact progress hinv
    · exact absurd hfin hnot

/-- A finished run has rolled back exactly if the counter agrees with the threads and the hasher
thread looked in `STATE_ERROR`. -/
theorem rolledBack_iff (h : Inv n k running m) (schedule : List Action)
    (hdone : Finished (schedule.foldl step m)) :
    RolledBack (schedule.foldl step m) ↔ running = k ∧ Along step HasherSeesError m schedule := by
  induction schedule generalizing m with
  | nil =>
    rcases hdone with hf | ⟨ret, hret⟩
    · exact absurd h.fault hf
    · have hmain := h.main
      simp only [MainOk, show m.main = .returned ret from hret] at hmain
  | cons a rest ih =>
    rw [List.foldl_cons] at hdone ⊢
    simp only [Along]
    have hfaulted (hf : (step m a).fault ≠ none) : ¬ RolledBack (rest.foldl step (step m a)) := by
      rw [run_stuck (step_stuck_of_fault hf)]
      exact fun hb => hf hb.fault
    cases a with
    | main =>
      have hstep : step m .main = mainStep m := by simp only [step, h.fault, if_true]
      have hsees : HasherSeesError m .main := fun he => absurd he (by simp)
      rcases mainStep_outcome h with hinv | ⟨he, hback, hgone⟩ | ⟨hne, hfault⟩
      · rw [and_iff_right hsees]
        exact ih (hstep ▸ hinv) hdone
      · rw [← hstep] at hback hgone
        have hstuck := step_stuck_of_back hback hgone
        rw [run_stuck hstuck]
        exact iff_of_true hback ⟨he, hsees, along_stuck hstuck (sees_of_gone hgone) rest⟩
      · exact iff_of_false (hfaulted (hstep ▸ hfault)) fun hk => hne hk.1
    | thread id =>
      have hstep : step m (.thread id) = threadStep m id := by simp only [step, h.fault, if_true]
      rcases threadStep_outcome h id with ⟨hsees, hinv⟩ | ⟨hnot, hfault⟩
      · rw [and_iff_right hsees]
        exact ih (hstep ▸ hinv) hdone
      · exact iff_of_false (hfaulted (hstep ▸ hfault)) fun hk => hnot hk.2.1

end

theorem created_cases (tr : Trace) (id : ThreadId) :
    created tr id = .gate ∧ (tr.thread id).type = id.type ∨
      created tr id = .absent ∧ (tr.thread id).type ≠ id.type := by
  unfold created
  split
  · next ht => exact .inl ⟨rfl, ht⟩
  · next ht => exact .inr ⟨rfl, ht⟩

theorem exits_created (tr : Trace) (k : Nat) : exits (created tr) k = 0 := by
  induction k with
  | zero => rfl
  | succ k ih =>
    have hne : created tr (.perpkt k) ≠ .exited := by
      rcases created_cases tr (.perpkt k) with ⟨hc, -⟩ | ⟨hc, -⟩ <;> rw [hc] <;> decide
    simp only [exits, ih, if_neg hne]

theorem cleanup_inv {n k : Nat} {running : Int} {tr : Trace} (hn : 0 < n)
    (hf : Failed n k running tr) :
    Inv n k running (afterLaunch (.error (.cleanupThreads, tr))) := by
  have hthread (id : ThreadId) :
      (afterLaunch (.error (.cleanupThreads, tr))).trace.thread id = tr.thread id := by
    cases id <;> rfl
  have hcreated := created_cases tr
  have hjoin (id : ThreadId) : Joinable (afterLaunch (.error (.cleanupThreads, tr))) id := by
    unfold Joinable
    show (tr.thread id).type = id.type ↔ created tr id ≠ .absent
    rcases hcreated id with ⟨hc, ht⟩ | ⟨hc, ht⟩
    · exact iff_of_true ht (by rw [hc]; decide)
    · exact iff_of_false ht (by rw [hc]; decide)
  have hperpkt (i : Nat) : tr.thread (.perpkt i) = tableTo k i := by
    rcases hf.table with ⟨rfl, ht⟩ | ht <;> simp [Trace.thread, ht, tableTo]
  have hexits : exits (created tr) k = 0 := exits_created tr k
  refine ⟨hn, hf.le, rfl, hf.count, ?_, ?_, fun hl => absurd hl Bool.false_ne_true,
    fun i => ?_, fun i hi => ?_, ?_, ?_, ?_, ?_⟩
  · show tr.perpktThreadStates = tally running (exits (created tr) k)
    rw [hexits, hf.counts]
  · show TraceState.error = if exits (created tr) k = n then .finished else .error
    rw [hexits, if_neg (by omega)]
  · rcases hcreated (.perpkt i) with ⟨hc, ht⟩ | ⟨hc, -⟩
    · rw [hperpkt] at ht
      have hik : i < k := by
        by_contra hle
        rw [tableTo, if_neg hle] at ht
        cases ht
      refine .inl ⟨hc, hik, ?_, ?_⟩
      · rcases hf.table with ⟨rfl, -⟩ | ht
        · omega
        · show tr.perpktThreads.isSome = true
          rw [ht]
          rfl
      · rw [hthread, hperpkt, tableTo, if_pos hik]
    · exact .inr (.inl hc)
  · refine (hjoin (.perpkt i)).mp ?_
    rw [hthread, hperpkt, tableTo, if_pos hi]
    rfl
  · rcases hcreated .hasher with ⟨hc, ht⟩ | ⟨hc, -⟩
    · exact .inl ⟨hc, ht⟩
    · exact .inr (.inl hc)
  · intro id
    exact hf.proper id
  · intro id hl
    have hl : created tr id = .leaving := hl
    rcases hcreated id with ⟨hc, -⟩ | ⟨hc, -⟩ <;> rw [hc] at hl <;> exact absurd hl (by decide)
  · refine ⟨hjoin _, ?_, hjoin _, hjoin _⟩
    rcases hf.table with ⟨rfl, ht⟩ | ht
    · exact .inl ⟨rfl, by show tr.perpktThreads.isSome = false; rw [ht]; rfl⟩
    · refine .inr ⟨by show tr.perpktThreads.isSome = true; rw [ht]; rfl, fun j _ => ?_⟩
      rw [hthread, hperpkt, tableTo]
      split
      · next hj => exact iff_of_true rfl hj
      · next hj => exact iff_of_false (by decide) hj

theorem pstart_hasher {c : Setup} (h : Reached c .hasher) :
    RolledBack (pstart c .hasher) ∧ ∀ id, Gone (pstart c .hasher) id := by
  obtain ⟨tr, hl, hstate, hcounts, htypes⟩ := launch_hasher c h
  simp only [pstart, hl, afterLaunch]
  refine ⟨⟨rfl, rfl, rfl, hstate, fun s => ?_⟩, fun id => .inl ?_⟩
  · simp only [hcounts]
    cases s <;> rfl
  · simp only [created, htypes]
    rw [if_neg]
    cases id <;> nofun

/-- A failed `trace_pstart` can always be run to its end. It has then rolled the trace back exactly
if the failure came before the first per-packet thread or after the counter was set, and a hasher
thread took the lock in `STATE_ERROR`. -/
theorem pstart_rolledBack_iff (c : Setup) (point : FailurePoint) (hp : Reached c point) :
    (∀ schedule, ∃ more, Finished (runPstart c point (schedule ++ more))) ∧
      ∀ schedule, Finished (runPstart c point schedule) →
        (RolledBack (runPstart c point schedule) ↔
          CountersAgree point ∧ Along step HasherSeesError (pstart c point) schedule) := by
  by_cases hh : point = .hasher
  · subst hh
    obtain ⟨hback, hgone⟩ := pstart_hasher hp
    have hstuck := step_stuck_of_back hback hgone
    have hrun (schedule : List Action) : runPstart c .hasher schedule = pstart c .hasher :=
      run_stuck hstuck schedule
    refine ⟨fun schedule => ⟨[], .inr ⟨_, by rw [hrun]; exact hback.main⟩⟩, fun schedule _ => ?_⟩
    rw [hrun]
    exact iff_of_true hback ⟨trivial, along_stuck hstuck (sees_of_gone hgone) schedule⟩
  · obtain ⟨tr, k, running, hl, hf, hiff⟩ := launch_failed c point hp hh
    have hinv : Inv c.threadCount k running (pstart c point) := by
      simp only [pstart, hl]
      exact cleanup_inv c.threadCount_pos hf
    refine ⟨fun schedule => ?_, fun schedule hdone => ?_⟩
    · have hkept : Inv c.threadCount k running (runPstart c point schedule) ∨
          Finished (runPstart c point schedule) := by
        refine run_inv (fun m => Inv c.threadCount k running m ∨ Finished m) ?_ (.inl hinv) schedule
        rintro m a (hm | hm)
        · exact step_kept_or_finished hm a
        · exact .inr (finished_step hm a)
      obtain ⟨more, hmore⟩ := exists_finish hkept
      exact ⟨more, by rw [runPstart, List.foldl_append]; exact hmore⟩
    · rw [← hiff]
      exact rolledBack_iff hinv schedule hdone

theorem pstart_rolledBack_two :
    Reached ⟨2, 1, true, true, 5⟩ .ocache ∧
      RolledBack (runPstart ⟨2, 1, true, true, 5⟩ .ocache
        ([.thread (.perpkt 1), .thread .hasher, .main, .thread (.perpkt 0), .thread .reporter,
          .thread .reporter, .thread .keepalive, .thread .keepalive] ++
          List.replicate 8 .main)) :=
  ⟨trivial, ((pstart_rolledBack_iff ⟨2, 1, true, true, 5⟩ .ocache trivial).2 _
    (.inr ⟨-1, by decide⟩)).mpr ⟨trivial, by decide⟩⟩

/-- The second of two per-packet threads cannot be created: the first counts down from zero and the
assertion fails. If the object cache fails, a hasher thread that comes last goes on to it. -/
theorem pstart_rollback_fails :
    Reached ⟨2, 1, false, false, 0⟩ (.perpkt 1) ∧
      (runPstart ⟨2, 1, false, false, 0⟩ (.perpkt 1)
        (.thread (.perpkt 0) :: List.replicate 8 .main)).fault = some .assertion ∧
      (runPstart ⟨2, 1, false, false, 0⟩ (.perpkt 1)
        (.thread (.perpkt 0) :: List.replicate 8 .main)).trace.perpktThreadStates .running = -1 ∧
      ¬ RolledBack (runPstart ⟨2, 1, false, false, 0⟩ (.perpkt 1)
        (.thread (.perpkt 0) :: List.replicate 8 .main)) ∧
      (runPstart ⟨2, 1, true, false, 0⟩ .ocache
        [.thread (.perpkt 0), .thread (.perpkt 1), .thread .hasher]).fault = some .noCache := by
  refine ⟨by decide, by decide, by decide, fun h => ?_, by decide⟩
  exact absurd h.fault (by decide)

end Libtrace.RollbackRuns
