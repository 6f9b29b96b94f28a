import Mathlib.Logic.Relation

/-! What is reached from a place by going on as long as there is a next one. -/

namespace Libtrace.Orbit

variable {α : Type} (next : α → Option α)

def Reach : α → α → Prop := Relation.ReflTransGen fun a b => next a = some b

variable {next} {x y z : α}

theorem reach_refl (x : α) : Reach next x x := .refl

theorem reach_head (h : next x = some y) (hr : Reach next y z) : Reach next x z := .head h hr

theorem reach_cases (h : Reach next x z) : x = z ∨ ∃ y, next x = some y ∧ Reach next y z := by
  obtain rfl | ⟨y, hy, hr⟩ := Relation.ReflTransGen.cases_head h
  · exact .inl rfl
  · exact .inr ⟨y, hy, hr⟩

theorem reach_stop (hx : next x = none) (h : Reach next x z) : z = x := by
  obtain rfl | ⟨y, hy, -⟩ := reach_cases h
  · rfl
  · rw [hx] at hy
    cases hy

theorem reach_step (hx : next x = some y) (h : Reach next x z) : z = x ∨ Reach next y z := by
  obtain rfl | ⟨y', hy', hr⟩ := reach_cases h
  · exact .inl rfl
  · rw [hx, Option.some.injEq] at hy'
    exact .inr (hy' ▸ hr)

theorem reach_linear (hy : Reach next x y) (hz : Reach next x z) :
    Reach next y z ∨ Reach next z y := by
  induction hy using Relation.ReflTransGen.head_induction_on with
  | refl => exact .inl hz
  | head hab hr ih =>
    obtain rfl | hz := reach_step hab hz
    · exact .inr (reach_head hab hr)
    · exact ih hz

theorem reach_end_unique (hy : Reach next x y) (hz : Reach next x z) (hy' : next y = none)
    (hz' : next z = none) : y = z := by
  induction hy using Relation.ReflTransGen.head_induction_on with
  | refl => exact (reach_stop hy' hz).symm
  | head hab _ ih =>
    obtain rfl | hz := reach_step hab hz
    · rw [hz'] at hab
      cases hab
    · exact ih hz

theorem reach_inv (P : α → Prop) (hstep : ∀ a b, next a = some b → P a → P b)
    (h : Reach next x y) (hx : P x) : P y := by
  induction h with
  | refl => exact hx
  | tail _ hab ih => exact hstep _ _ hab ih

theorem forall_reach {P : α → Prop} :
    (∀ y, Reach next x y → P y) ↔ P x ∧ ∀ z, next x = some z → ∀ y, Reach next z y → P y := by
  constructor
  · exact fun h => ⟨h x (reach_refl x), fun z hz y hy => h y (reach_head hz hy)⟩
  · rintro ⟨hx, hnext⟩ y hy
    obtain rfl | ⟨z, hz, hr⟩ := reach_cases hy
    · exact hx
    · exact hnext z hz y hr

theorem forall_reach_stop {P : α → Prop} (hx : next x = none) :
    (∀ y, Reach next x y → P y) ↔ P x := by
  rw [forall_reach, hx]
  simp

def Ends (next : α → Option α) (x y : α) : Prop := Reach next x y ∧ next y = none

theorem ends_unique (hy : Ends next x y) (hz : Ends next x z) : y = z :=
  reach_end_unique hy.1 hz.1 hy.2 hz.2

theorem ends_exists (rank : α → Nat) (hrank : ∀ a b, next a = some b → rank b < rank a) (x : α) :
    ∃ y, Ends next x y := by
  induction hn : rank x using Nat.strongRecOn generalizing x with
  | ind n ih =>
    cases hx : next x with
    | none => exact ⟨x, reach_refl x, hx⟩
    | some x' =>
      obtain ⟨y, hy, hend⟩ := ih (rank x') (hn ▸ hrank x x' hx) x' rfl
      exact ⟨y, reach_head hx hy, hend⟩

theorem ends_along (h : Reach next x y) : Ends next x z ↔ Ends next y z := by
  refine and_congr_left fun hz => ?_
  induction h using Relation.ReflTransGen.head_induction_on with
  | refl => exact Iff.rfl
  | head hab _ ih =>
    rw [← ih]
    constructor
    · intro hr
      obtain rfl | hr := reach_step hab hr
      · rw [hz] at hab
        cases hab
      · exact hr
    · exact reach_head hab

theorem reach_mono {next' : α → Option α} (h : ∀ a b, next a = some b → next' a = some b)
    (hr : Reach next x y) : Reach next' x y := Relation.ReflTransGen.mono h _ _ hr

theorem forall_reach_step {P : α → Prop} (hx : next x = some y) :
    (∀ z, Reach next x z → P z) ↔ P x ∧ ∀ z, Reach next y z → P z := by
  rw [forall_reach, hx]
  simp

theorem reach_follows {β : Type} {next' : β → Option β} {R : α → β → Prop}
    (hstep : ∀ a b a', R a b → next a = some a' → ∃ b', next' b = some b' ∧ R a' b')
    (h : Reach next x y) {u : β} (hx : R x u) : ∃ v, Reach next' u v ∧ R y v := by
  induction h using Relation.ReflTransGen.head_induction_on generalizing u with
  | refl => exact ⟨u, reach_refl u, hx⟩
  | head hab _ ih =>
    obtain ⟨b', hb', hR⟩ := hstep _ u _ hx hab
    obtain ⟨v, hv, hy⟩ := ih hR
    exact ⟨v, reach_head hb' hv, hy⟩

end Libtrace.Orbit
