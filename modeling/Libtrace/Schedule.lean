import Mathlib.Data.List.Basic

/-! Machines that a schedule drives: a step function, run over a list of actions. The rules turn a
fact about one step into a fact about every run. -/

namespace Libtrace.Schedule

variable {σ α : Type} {step : σ → α → σ} (Inv : σ → Prop) {P Q : σ → α → Prop}

def Along (step : σ → α → σ) (P : σ → α → Prop) : σ → List α → Prop
  | _, [] => True
  | s, a :: rest => P s a ∧ Along step P (step s a) rest

instance [∀ s a, Decidable (P s a)] :
    (s : σ) → (schedule : List α) → Decidable (Along step P s schedule)
  | _, [] => .isTrue trivial
  | s, a :: rest =>
    have := instDecidableAlong (step s a) rest
    inferInstanceAs (Decidable (_ ∧ _))

theorem run_inv (hstep : ∀ s a, Inv s → Inv (step s a)) {s : σ} (h : Inv s) (schedule : List α) :
    Inv (schedule.foldl step s) := by
  induction schedule generalizing s with
  | nil => exact h
  | cons a rest ih => exact ih (hstep s a h)

theorem along_inv (hstep : ∀ s a, Inv s → P s a → Inv (step s a)) {s : σ} (h : Inv s)
    {schedule : List α} (hP : Along step P s schedule) : Inv (schedule.foldl step s) := by
  induction schedule generalizing s with
  | nil => exact h
  | cons a rest ih => exact ih (hstep s a h hP.1) hP.2

theorem along_of_forall (h : ∀ s a, P s a) (s : σ) (schedule : List α) :
    Along step P s schedule := by
  induction schedule generalizing s with
  | nil => trivial
  | cons a rest ih => exact ⟨h s a, ih _⟩

theorem along_and {s : σ} {schedule : List α} (hP : Along step P s schedule)
    (hQ : Along step Q s schedule) : Along step (fun s a => P s a ∧ Q s a) s schedule := by
  induction schedule generalizing s with
  | nil => trivial
  | cons a rest ih => exact ⟨⟨hP.1, hQ.1⟩, ih hP.2 hQ.2⟩

/-- Where an invariant makes two conditions on a step the same, and such a step keeps it, the runs
that meet them are the same. -/
theorem along_iff (hiff : ∀ s a, Inv s → (P s a ↔ Q s a))
    (hstep : ∀ s a, Inv s → Q s a → Inv (step s a)) {s : σ} (h : Inv s) (schedule : List α) :
    Along step P s schedule ↔ Along step Q s schedule := by
  induction schedule generalizing s with
  | nil => exact Iff.rfl
  | cons a rest ih =>
    simp only [Along]
    rw [hiff s a h]
    exact and_congr_right fun ha => ih (hstep s a h ha)

/-- Where a step that keeps to `P` keeps the invariant or does something bad that stays, and `Q`
says which, nothing bad has happened after a run exactly if all its steps meet `Q`. -/
theorem not_bad_iff (Bad : σ → Prop) (hgood : ∀ s, Inv s → ¬ Bad s)
    (hstep : ∀ s a, Inv s → P s a → Q s a → Inv (step s a))
    (hbad : ∀ s a, Inv s → P s a → ¬ Q s a → Bad (step s a))
    (hstays : ∀ s a, Bad s → Bad (step s a)) {s : σ} (h : Inv s) {schedule : List α}
    (hP : Along step P s schedule) :
    ¬ Bad (schedule.foldl step s) ↔ Along step Q s schedule := by
  induction schedule generalizing s with
  | nil => exact iff_of_true (hgood s h) trivial
  | cons a rest ih =>
    rw [List.foldl_cons]
    simp only [Along]
    by_cases hQ : Q s a
    · rw [ih (hstep s a h hP.1 hQ) hP.2, and_iff_right hQ]
    · have hend := run_inv Bad hstays (hbad s a h hP.1 hQ) rest
      exact iff_of_false (fun hnot => hnot hend) fun hboth => hQ hboth.1

/-- If some action makes progress from every unfinished state, every run can be finished. -/
theorem exists_finished {finished : σ → Prop} (rank : σ → Nat)
    (hstep : ∀ s a, Inv s → Inv (step s a))
    (hrank : ∀ s, Inv s → ¬ finished s → ∃ a, finished (step s a) ∨ rank (step s a) < rank s)
    {s : σ} (h : Inv s) : ∃ schedule : List α, finished (schedule.foldl step s) := by
  induction hr : rank s using Nat.strongRecOn generalizing s with
  | ind r ih =>
    by_cases hf : finished s
    · exact ⟨[], hf⟩
    · obtain ⟨a, hdone | hless⟩ := hrank s h hf
      · exact ⟨[a], hdone⟩
      · obtain ⟨rest, hrest⟩ := ih _ (hr ▸ hless) (hstep s a h) rfl
        exact ⟨a :: rest, hrest⟩

theorem run_stuck {s : σ} (hstuck : ∀ a, step s a = s) (schedule : List α) :
    schedule.foldl step s = s := by
  induction schedule with
  | nil => rfl
  | cons a rest ih => rw [List.foldl_cons, hstuck, ih]

theorem along_stuck {s : σ} (hstuck : ∀ a, step s a = s) (hP : ∀ a, P s a) (schedule : List α) :
    Along step P s schedule := by
  induction schedule with
  | nil => trivial
  | cons a rest ih => exact ⟨hP a, (hstuck a).symm ▸ ih⟩

end Libtrace.Schedule
