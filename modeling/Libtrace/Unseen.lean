import Libtrace.Exec

/-! Programs that do not see a part of their state. `n` forgets the part; a blind program returns
the same from a state and from its normal form, and leaves states with the same normal form. -/

namespace Libtrace.Unseen
open Exec

variable {ε σ α β : Type} (n : σ → σ)

/-- What a run returns, with the normal form of the state it leaves. -/
def seen (r : Except ε (α × σ)) : Except ε (α × σ) := r.map fun p => (p.1, n p.2)

def Blind (m : Prog ε σ α) : Prop := ∀ s, seen n (m s) = seen n (m (n s))

variable {n}

theorem blind_pure (a : α) (hn : ∀ s, n (n s) = n s) : Blind n (pure a : Prog ε σ α) := by
  intro s
  change Except.ok (a, n s) = Except.ok (a, n (n s))
  rw [hn]

theorem blind_throw (e : ε) : Blind n (throw e : Prog ε σ α) := fun _ => rfl

theorem blind_lift (d : Except ε α) (hn : ∀ s, n (n s) = n s) : Blind n (liftM d : Prog ε σ α) := by
  cases d with
  | error e => exact fun _ => rfl
  | ok a => exact blind_pure a hn

theorem blind_modify {g : σ → σ} (hg : ∀ s, n (g s) = n (g (n s))) :
    Blind n (modify g : Prog ε σ PUnit) := by
  intro s
  change Except.ok (PUnit.unit, n (g s)) = Except.ok (PUnit.unit, n (g (n s)))
  rw [hg]

/-- Two runs that look the same end in the same way. -/
theorem seen_cases {x y : Except ε (α × σ)} (h : seen n x = seen n y) :
    (∃ e, x = .error e ∧ y = .error e) ∨
      ∃ a s t, x = .ok (a, s) ∧ y = .ok (a, t) ∧ n s = n t := by
  cases x with
  | error e =>
    cases y with
    | error e' => exact .inl ⟨e, rfl, by cases h; rfl⟩
    | ok q => cases h
  | ok p =>
    cases y with
    | error e' => cases h
    | ok q =>
      have hpq := Prod.mk.inj (Except.ok.inj h)
      exact .inr ⟨p.1, p.2, q.2, rfl, by rw [hpq.1], hpq.2⟩

theorem Blind.seen_eq {m : Prog ε σ α} (hm : Blind n m) {s t : σ} (h : n s = n t) :
    seen n (m s) = seen n (m t) := by
  rw [hm s, h, ← hm t]

theorem blind_bind {m : Prog ε σ α} {f : α → Prog ε σ β} (hm : Blind n m)
    (hf : ∀ a, Blind n (f a)) : Blind n (m >>= f) := by
  intro s
  rcases seen_cases (hm s) with ⟨e, hx, hy⟩ | ⟨a, t, t', hx, hy, ht⟩
  · rw [bind_of_error hx, bind_of_error hy]
  · rw [bind_of_ok hx, bind_of_ok hy]
    exact (hf a).seen_eq ht

/-- The program may look at the state, if it goes on in the same way from the normal form. -/
theorem blind_get_bind {f : σ → Prog ε σ β} (hsame : ∀ s, f (n s) = f s) (hf : ∀ s, Blind n (f s)) :
    Blind n (get >>= f) := by
  intro s
  rw [get_bind, get_bind, hsame]
  exact hf s s

theorem blind_map {m : Prog ε σ α} (g : α → β) (hm : Blind n m) (hn : ∀ s, n (n s) = n s) :
    Blind n (g <$> m) := by
  exact blind_bind hm fun a => blind_pure (g a) hn

end Libtrace.Unseen
