import Mathlib.Data.List.Basic
import Mathlib.Data.Prod.Lex

/-! Merging numbered inputs by a key; among equal keys the lower number goes first. -/

namespace Libtrace.KWayMerge
open Function

variable {π κ : Type}

def itemsOf (i : Nat) (out : List (Nat × π)) : List π :=
  (out.filter fun x => x.1 = i).map Prod.snd

theorem itemsOf_append (i : Nat) (out out' : List (Nat × π)) :
    itemsOf i (out ++ out') = itemsOf i out ++ itemsOf i out' := by
  rw [itemsOf, List.filter_append, List.map_append]
  rfl

theorem itemsOf_self (i : Nat) (p : π) : itemsOf i [(i, p)] = [p] := by
  simp [itemsOf]

theorem itemsOf_other {i k : Nat} (h : i ≠ k) (p : π) : itemsOf i [(k, p)] = [] := by
  simp [itemsOf, h.symm]

variable [LinearOrder κ] (key : π → κ)

def rank (x : Nat × π) : κ ×ₗ Nat := toLex (key x.2, x.1)

/-- Every item of every input is there once, those of one input in their order, all in the order of
their rank. -/
structure StableMerge (inputs : Nat → List π) (out : List (Nat × π)) : Prop where
  items : ∀ i, itemsOf i out = inputs i
  sorted : out.Pairwise fun x y => rank key x ≤ rank key y

/-- A merge that has come as far as `out`, with `queues` still to come. -/
structure Merging (inputs queues : Nat → List π) (out : List (Nat × π)) : Prop where
  items : ∀ i, itemsOf i out ++ queues i = inputs i
  sorted : out.Pairwise fun x y => rank key x ≤ rank key y
  ahead : ∀ x ∈ out, ∀ i, ∀ y ∈ queues i, rank key x ≤ rank key (i, y)
  queued : ∀ i, (queues i).Pairwise fun x y => key x ≤ key y

variable {key} {inputs queues : Nat → List π} {out : List (Nat × π)}

theorem rank_le_rank {k i : Nat} {p q : π} :
    rank key (k, p) ≤ rank key (i, q) ↔ key p < key q ∨ key p = key q ∧ k ≤ i :=
  Prod.Lex.toLex_le_toLex

theorem rank_mono (i : Nat) {p q : π} (h : key p ≤ key q) : rank key (i, p) ≤ rank key (i, q) := by
  refine rank_le_rank.mpr ?_
  obtain hlt | heq := lt_or_eq_of_le h
  · exact .inl hlt
  · exact .inr ⟨heq, Nat.le_refl i⟩

theorem merging_start (h : ∀ i, (inputs i).Pairwise fun x y => key x ≤ key y) :
    Merging key inputs inputs [] where
  items _ := rfl
  sorted := List.Pairwise.nil
  ahead _ hx := absurd hx List.not_mem_nil
  queued := h

section

variable (h : Merging key inputs queues out)
include h

theorem Merging.head_le {i : Nat} {p : π} {rest : List π} (hi : queues i = p :: rest) {y : π}
    (hy : y ∈ queues i) : rank key (i, p) ≤ rank key (i, y) := by
  have hqueued := h.queued i
  rw [hi] at hqueued hy
  obtain rfl | hy := List.mem_cons.mp hy
  · exact le_refl _
  · exact rank_mono i ((List.pairwise_cons.mp hqueued).1 y hy)

theorem Merging.take {k : Nat} {p : π} {rest : List π} (hk : queues k = p :: rest)
    (hleast : ∀ i q qs, queues i = q :: qs → rank key (k, p) ≤ rank key (i, q)) :
    Merging key inputs (update queues k rest) (out ++ [(k, p)]) := by
  have hmem : ∀ i, ∀ y ∈ update queues k rest i, y ∈ queues i := by
    intro i y hy
    by_cases hik : i = k
    · subst hik
      rw [update_self] at hy
      rw [hk]
      exact List.mem_cons_of_mem p hy
    · rwa [update_of_ne hik] at hy
  have hall : ∀ i, ∀ y ∈ queues i, rank key (k, p) ≤ rank key (i, y) := by
    intro i y hy
    obtain ⟨q, qs, hi⟩ := List.exists_cons_of_ne_nil (List.ne_nil_of_mem hy)
    exact (hleast i q qs hi).trans (h.head_le hi hy)
  refine ⟨fun i => ?_, ?_, fun x hx i y hy => ?_, fun i => ?_⟩
  · rw [itemsOf_append, ← h.items i]
    by_cases hik : i = k
    · subst hik
      rw [itemsOf_self, update_self, List.append_assoc, List.singleton_append, hk]
    · rw [itemsOf_other hik, update_of_ne hik, List.append_nil]
  · refine List.pairwise_append.mpr ⟨h.sorted, List.pairwise_singleton _ _, fun x hx y hy => ?_⟩
    obtain rfl := List.mem_singleton.mp hy
    refine h.ahead x hx k p ?_
    rw [hk]
    exact List.mem_cons_self
  · obtain hx | hx := List.mem_append.mp hx
    · exact h.ahead x hx i y (hmem i y hy)
    · obtain rfl := List.mem_singleton.mp hx
      exact hall i y (hmem i y hy)
  · by_cases hik : i = k
    · subst hik
      have hqueued := h.queued i
      rw [hk] at hqueued
      rw [update_self]
      exact (List.pairwise_cons.mp hqueued).2
    · rw [update_of_ne hik]
      exact h.queued i

theorem Merging.finish (hempty : ∀ i, queues i = []) : StableMerge key inputs out where
  items i := by rw [← h.items i, hempty i, List.append_nil]
  sorted := h.sorted

end

end Libtrace.KWayMerge
