import Mathlib.Data.List.Basic

/-! Lists that are split into code words: one split is longer than all the others. -/

namespace Libtrace.PrefixCode

variable {α β : Type} {encode : α → List β}

def Stops (encode : α → List β) (rest : List β) : Prop := ∀ a tail, rest ≠ encode a ++ tail

structure Code (encode : α → List β) : Prop where
  ne_nil : ∀ a, encode a ≠ []
  free : ∀ a b t u, encode a ++ t = encode b ++ u → a = b

section

variable (h : Code encode)
include h

theorem Code.head {a b : α} {t u : List β} (he : encode a ++ t = encode b ++ u) :
    a = b ∧ t = u := by
  obtain rfl := h.free a b t u he
  exact ⟨rfl, List.append_cancel_left he⟩

theorem Code.length_pos (a : α) : 0 < (encode a).length :=
  List.length_pos_iff.mpr (h.ne_nil a)

theorem Code.length_le (items : List α) : items.length ≤ (items.flatMap encode).length := by
  induction items with
  | nil => exact Nat.zero_le 0
  | cons a items ih =>
    have hpos := h.length_pos a
    rw [List.flatMap_cons, List.length_append, List.length_cons]
    omega

theorem Code.split (bs : List β) :
    ∃ (items : List α) (rest : List β), bs = items.flatMap encode ++ rest ∧ Stops encode rest := by
  induction hn : bs.length using Nat.strongRecOn generalizing bs with
  | ind n ih =>
    by_cases hstop : Stops encode bs
    · exact ⟨[], bs, rfl, hstop⟩
    · simp only [Stops, not_forall, not_not] at hstop
      obtain ⟨a, tail, rfl⟩ := hstop
      have hpos := h.length_pos a
      rw [List.length_append] at hn
      obtain ⟨items, rest, rfl, hstop⟩ := ih tail.length (by omega) tail rfl
      exact ⟨a :: items, rest, by rw [List.flatMap_cons, List.append_assoc], hstop⟩

theorem Code.maximal {items items' : List α} {rest rest' : List β}
    (he : items.flatMap encode ++ rest = items'.flatMap encode ++ rest')
    (hstop : Stops encode rest) : items' <+: items := by
  induction items generalizing items' with
  | nil =>
    cases items' with
    | nil => exact List.prefix_refl []
    | cons b items' =>
      rw [List.flatMap_nil, List.nil_append, List.flatMap_cons, List.append_assoc] at he
      exact absurd he (hstop b _)
  | cons a items ih =>
    cases items' with
    | nil => exact List.nil_prefix
    | cons b items' =>
      rw [List.flatMap_cons, List.flatMap_cons, List.append_assoc, List.append_assoc] at he
      obtain ⟨rfl, htail⟩ := h.head he
      exact List.cons_prefix_cons.mpr ⟨rfl, ih htail⟩

end

end Libtrace.PrefixCode
