import Mathlib.Data.Int.ModEq
import Mathlib.Data.List.Basic

/-! A ring of `capacity + 1` slots used as a queue. Behind the two indices stand four counters that
only grow: values stored, stored values made visible, values returned, and slots given back. -/

namespace Libtrace.RingFifo

structure RingQueue (α : Type) where
  start : Nat
  end_ : Nat
  elements : Nat → α
  stored : List α
  returned : List α
  visible : Nat
  released : Nat

variable {α : Type}

def RingQueue.empty (memory : Nat → α) : RingQueue α := ⟨0, 0, memory, [], [], 0, 0⟩

def RingQueue.store (r : RingQueue α) (e : Nat) (v : α) : RingQueue α :=
  { r with elements := Function.update r.elements e v, stored := r.stored ++ [v] }

def RingQueue.setEnd (r : RingQueue α) (e : Nat) : RingQueue α :=
  { r with end_ := e, visible := r.stored.length }

def RingQueue.load (r : RingQueue α) (s : Nat) : RingQueue α :=
  { r with returned := r.returned ++ [r.elements s] }

def RingQueue.setStart (r : RingQueue α) (s : Nat) : RingQueue α :=
  { r with start := s, released := r.returned.length }

structure RingInv (capacity : Nat) (r : RingQueue α) : Prop where
  end_eq : r.end_ = r.visible % (capacity + 1)
  start_eq : r.start = r.released % (capacity + 1)
  released_le : r.released ≤ r.returned.length
  returned_le : r.returned.length ≤ r.visible
  visible_le : r.visible ≤ r.stored.length
  stored_le : r.stored.length ≤ r.released + capacity
  slots : ∀ k v, r.stored[k]? = some v → r.released ≤ k → r.elements (k % (capacity + 1)) = v
  fifo : r.returned <+: r.stored

theorem mod_ne_of_lt {a b size : Nat} (hab : a < b) (hb : b < a + size) : a % size ≠ b % size := by
  intro he
  have hd : size ∣ b - a := (Nat.modEq_iff_dvd' hab.le).mp he
  exact absurd (Nat.le_of_dvd (by omega) hd) (by omega)

/-- The indices of two counts less than a lap apart tell their distance. -/
theorem sub_eq_of_lap {a b : Nat} (size : Nat) (hab : a ≤ b) (hb : b < a + size) :
    (a % size ≤ b % size ∧ b - a = b % size - a % size) ∨
      (b % size < a % size ∧ b - a = b % size + size - a % size) := by
  have hpos : 0 < size := by omega
  have ha := Nat.mod_lt a hpos
  have he : (a % size + (b - a)) % size = b % size := by
    rw [Nat.mod_add_mod, Nat.add_sub_cancel' hab]
  rcases Nat.lt_or_ge (a % size + (b - a)) size with hlt | hge
  · rw [Nat.mod_eq_of_lt hlt] at he
    omega
  · rw [Nat.mod_eq_sub_mod hge, Nat.mod_eq_of_lt (by omega)] at he
    omega

theorem succ_mod_mod (a size : Nat) : (a % size + 1) % size = (a + 1) % size := by
  rw [Nat.mod_add_mod]

theorem empty_inv (capacity : Nat) (memory : Nat → α) :
    RingInv capacity (RingQueue.empty memory) where
  end_eq := (Nat.zero_mod _).symm
  start_eq := (Nat.zero_mod _).symm
  released_le := Nat.zero_le _
  returned_le := Nat.zero_le _
  visible_le := Nat.zero_le _
  stored_le := Nat.zero_le _
  slots := by simp [RingQueue.empty]
  fifo := List.prefix_rfl

variable {capacity : Nat} {r : RingQueue α}

section

variable (h : RingInv capacity r)
include h

theorem store_inv {e : Nat} (v : α) (he : e = r.stored.length % (capacity + 1))
    (hroom : r.stored.length < r.released + capacity) : RingInv capacity (r.store e v) := by
  refine ⟨h.end_eq, h.start_eq, h.released_le, h.returned_le, ?_, ?_, ?_, ?_⟩
  · exact h.visible_le.trans (by simp [RingQueue.store])
  · simp only [RingQueue.store, List.length_append, List.length_singleton]
    omega
  · intro k x hk hrel
    simp only [RingQueue.store] at hk ⊢
    rcases Nat.lt_or_ge k r.stored.length with hlt | hge
    · -- an older value is in another slot
      rw [List.getElem?_append_left hlt] at hk
      have hrel : r.released ≤ k := hrel
      have hne : k % (capacity + 1) ≠ e := he ▸ mod_ne_of_lt hlt (by omega)
      rw [Function.update_of_ne hne]
      exact h.slots k x hk hrel
    · rw [List.getElem?_append_right hge] at hk
      have hk0 : k - r.stored.length = 0 := by
        by_contra hpos
        rw [List.getElem?_eq_none (by simp; omega)] at hk
        exact absurd hk (by simp)
      have hkl : k = r.stored.length := by omega
      rw [hk0, List.getElem?_cons_zero, Option.some.injEq] at hk
      rw [hkl, ← he, Function.update_self, hk]
  · exact h.fifo.trans (List.prefix_append _ _)

theorem setEnd_inv {e : Nat} (he : e = r.stored.length % (capacity + 1)) :
    RingInv capacity (r.setEnd e) :=
  ⟨he, h.start_eq, h.released_le, h.returned_le.trans h.visible_le, le_refl _, h.stored_le,
    h.slots, h.fifo⟩

theorem load_inv {s : Nat} (hs : s = r.returned.length % (capacity + 1))
    (havail : r.returned.length < r.visible) : RingInv capacity (r.load s) := by
  refine ⟨h.end_eq, h.start_eq, ?_, ?_, h.visible_le, h.stored_le, h.slots, ?_⟩
  · exact h.released_le.trans (by simp [RingQueue.load])
  · simp only [RingQueue.load, List.length_append, List.length_singleton]
    omega
  · have hlt : r.returned.length < r.stored.length := havail.trans_le h.visible_le
    have hslot := h.slots r.returned.length _ (List.getElem?_eq_getElem hlt) h.released_le
    have hnext : r.elements s = r.stored[r.returned.length] := by rw [hs, hslot]
    obtain ⟨rest, hrest⟩ := h.fifo
    simp only [RingQueue.load, hnext]
    refine ⟨rest.tail, ?_⟩
    cases rest with
    | nil =>
      rw [List.append_nil] at hrest
      rw [hrest] at hlt
      exact absurd hlt (lt_irrefl _)
    | cons x xs =>
      have hx : r.stored[r.returned.length] = x := by
        simp [← hrest]
      rw [hx, List.tail_cons, List.append_assoc, List.singleton_append, hrest]

theorem setStart_inv {s : Nat} (hs : s = r.returned.length % (capacity + 1)) :
    RingInv capacity (r.setStart s) := by
  refine ⟨h.end_eq, hs, le_refl _, h.returned_le, h.visible_le, ?_, ?_, h.fifo⟩
  · exact h.stored_le.trans (Nat.add_le_add_right h.released_le _)
  · intro k v hk hrel
    exact h.slots k v hk (h.released_le.trans hrel)

end

end Libtrace.RingFifo
