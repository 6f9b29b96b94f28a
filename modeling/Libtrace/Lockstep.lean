import Mathlib.Logic.Basic

/-! Machines with a program counter, and two of them side by side, until a step at which they part
for good. -/

namespace Libtrace.Lockstep

inductive Move (σ ρ : Type) where
  | goto (pc : Nat) (s : σ)
  | halt (r : ρ)

def run {σ ρ : Type} (step : Nat → σ → Move σ ρ) : Nat → Nat → σ → Option ρ
  | 0, _, _ => none
  | fuel + 1, pc, s =>
    match step pc s with
    | .goto pc s => run step fuel pc s
    | .halt r => some r

def Along {σ ρ : Type} (P : Nat → σ → Prop) (step : Nat → σ → Move σ ρ) :
    Nat → Nat → σ → Prop
  | 0, _, _ => True
  | fuel + 1, pc, s => P pc s ∧
    match step pc s with
    | .goto pc s => Along P step fuel pc s
    | .halt _ => True

def Alike {σ τ ρ : Type} (R : Nat → σ → τ → Prop) : Move σ ρ → Move τ ρ → Prop
  | .goto pc s, .goto pc' t => pc = pc' ∧ R pc s t
  | .halt r, .halt r' => r = r'
  | _, _ => False

variable {σ τ ρ : Type} {step : Nat → σ → Move σ ρ} {step' : Nat → τ → Move τ ρ}

theorem along_of_forall {P : Nat → σ → Prop} (h : ∀ pc s, P pc s) (fuel pc : Nat) (s : σ) :
    Along P step fuel pc s := by
  induction fuel generalizing pc s with
  | zero => trivial
  | succ fuel ih =>
    refine ⟨h pc s, ?_⟩
    cases step pc s with
    | halt r => trivial
    | goto pc' s' => exact ih pc' s'

theorem run_returns {n : Nat}
    (hstep : ∀ pc s pc' s', pc < n → step pc s = .goto pc' s' → pc < pc' ∧ pc' < n)
    (fuel : Nat) {pc : Nat} (s : σ) (hpc : pc < n) (hfuel : n ≤ pc + fuel) :
    ∃ r, run step fuel pc s = some r := by
  induction fuel generalizing pc s with
  | zero => omega
  | succ fuel ih =>
    rw [run]
    cases hmove : step pc s with
    | halt r => exact ⟨r, rfl⟩
    | goto pc' s' =>
      have := hstep pc s pc' s' hpc hmove
      exact ih s' this.2 (by omega)

theorem run_result (I : Nat → Prop) {Q : ρ → Prop}
    (hstep : ∀ pc s pc' s', I pc → step pc s = .goto pc' s' → I pc')
    (hhalt : ∀ pc s r, I pc → step pc s = .halt r → Q r) {fuel pc : Nat} {s : σ} {r : ρ}
    (hpc : I pc) (h : run step fuel pc s = some r) : Q r := by
  induction fuel generalizing pc s with
  | zero => cases h
  | succ fuel ih =>
    rw [run] at h
    cases hmove : step pc s with
    | halt r' =>
      rw [hmove] at h
      exact Option.some.inj h ▸ hhalt pc s r' hpc hmove
    | goto pc' s' =>
      rw [hmove] at h
      exact ih (hstep pc s pc' s' hpc hmove) h

/-- Where `P` holds all along, two machines return alike exactly if `Q` holds all along: with both a
step is common, and one without `Q` tells them apart. -/
theorem run_eq_iff {R : Nat → σ → τ → Prop} {P Q : Nat → σ → Prop}
    (hgood : ∀ pc s t, R pc s t → P pc s → Q pc s → Alike R (step pc s) (step' pc t))
    (hbad : ∀ fuel pc s t, R pc s t → P pc s → ¬ Q pc s →
      run step (fuel + 1) pc s ≠ run step' (fuel + 1) pc t)
    {fuel pc : Nat} {s : σ} {t : τ} (hP : Along P step fuel pc s) (hR : R pc s t) :
    run step fuel pc s = run step' fuel pc t ↔ Along Q step fuel pc s := by
  induction fuel generalizing pc s t with
  | zero => exact iff_of_true rfl trivial
  | succ fuel ih =>
    rw [Along] at hP
    by_cases hQ : Q pc s
    · have halike := hgood pc s t hR hP.1 hQ
      rw [Along, and_iff_right hQ, run, run]
      cases hmove : step pc s with
      | halt r =>
        cases hmove' : step' pc t with
        | halt r' =>
          rw [hmove, hmove'] at halike
          exact iff_of_true (congrArg some halike) trivial
        | goto pc' t' =>
          rw [hmove, hmove'] at halike
          exact halike.elim
      | goto pc' s' =>
        cases hmove' : step' pc t with
        | halt r' =>
          rw [hmove, hmove'] at halike
          exact halike.elim
        | goto pc'' t' =>
          rw [hmove] at hP
          rw [hmove, hmove'] at halike
          obtain ⟨rfl, hR'⟩ := halike
          exact ih hP.2 hR'
    · exact iff_of_false (hbad fuel pc s t hR hP.1 hQ) fun h => hQ h.1

end Libtrace.Lockstep
