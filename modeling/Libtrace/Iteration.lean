import Libtrace.Orbit

/-! Calling a function again and again on a state, until its result says that there is no more. -/

namespace Libtrace.Iteration

variable {ε ρ σ : Type}

section

variable (call : σ → Except ε (ρ × σ)) (more : ρ → Prop) [DecidablePred more]

def next (s : σ) : Option σ :=
  match call s with
  | .ok (r, s') => if more r then some s' else none
  | .error _ => none

def iterate (unfinished : ε) : Nat → σ → Except ε (List σ × ρ × σ)
  | 0, _ => .error unfinished
  | fuel + 1, s =>
    match call s with
    | .error e => .error e
    | .ok (r, s') =>
      if more r then (iterate unfinished fuel s').map fun (trail, last) => (s' :: trail, last)
      else .ok ([], r, s')

end

variable {call : σ → Except ε (ρ × σ)} {more : ρ → Prop} [DecidablePred more] {unfinished : ε}
  {r : ρ} {s s' : σ}

theorem next_eq_some : next call more s = some s' ↔ ∃ r, call s = .ok (r, s') ∧ more r := by
  unfold next
  cases hc : call s with
  | error e => simp
  | ok p =>
    obtain ⟨r, t⟩ := p
    constructor
    · intro h
      by_cases hr : more r
      · obtain rfl := Option.some.inj ((if_pos hr).symm.trans h)
        exact ⟨r, rfl, hr⟩
      · cases (if_neg hr).symm.trans h
    · rintro ⟨r', heq, hr⟩
      obtain ⟨rfl, rfl⟩ := Prod.mk.inj (Except.ok.inj heq)
      exact if_pos hr

theorem iterate_more (fuel : Nat) (h : call s = .ok (r, s')) (hr : more r) :
    iterate call more unfinished (fuel + 1) s =
      (iterate call more unfinished fuel s').map fun (trail, last) => (s' :: trail, last) := by
  rw [iterate, h]
  exact if_pos hr

theorem iterate_last (fuel : Nat) (h : call s = .ok (r, s')) (hr : ¬ more r) :
    iterate call more unfinished (fuel + 1) s = .ok ([], r, s') := by
  rw [iterate, h]
  exact if_neg hr

theorem iterate_of_rank (P : σ → Prop) (rank : σ → Nat)
    (hcall : ∀ s, P s → ∃ r s', call s = .ok (r, s') ∧ (more r → P s' ∧ rank s' < rank s))
    {fuel : Nat} (hs : P s) (hfuel : rank s < fuel) :
    ∃ trail last, iterate call more unfinished fuel s = .ok (trail, last) := by
  induction fuel generalizing s with
  | zero => exact absurd hfuel (Nat.not_lt_zero _)
  | succ fuel ih =>
    obtain ⟨r, s', hc, hmore⟩ := hcall s hs
    by_cases hr : more r
    · obtain ⟨hs', hrank⟩ := hmore hr
      obtain ⟨trail, last, hrest⟩ := ih hs' (by omega)
      exact ⟨s' :: trail, last, by rw [iterate_more fuel hc hr, hrest]; rfl⟩
    · exact ⟨[], (r, s'), iterate_last fuel hc hr⟩

/-- A call that comes back to the state it was made in is made for ever. -/
theorem iterate_stuck (fuel : Nat) (h : call s = .ok (r, s)) (hr : more r) :
    iterate call more unfinished fuel s = .error unfinished := by
  induction fuel with
  | zero => rfl
  | succ fuel ih => rw [iterate_more fuel h hr, ih]; rfl

end Libtrace.Iteration
