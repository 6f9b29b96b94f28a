import Libtrace.RingBulk

/-! The counters behind the indices of the ring, as each side sees them. With both indices of one
moment `nb_empty` and `nb_full` are exact; a subtraction in the wrong branch gives more than the
ring can hold. -/

namespace Libtrace.RingBulkCounts
open RingFifo RingBulk Function

variable {α : Type} {capacity : Nat}

def Occupied (capacity : Nat) (m : Shared α) : Prop :=
  ∀ x, m.filled x = true ↔
    ∃ k, m.ring.returned.length ≤ k ∧ k < m.ring.stored.length ∧ x = k % (capacity + 1)

structure Counted (capacity : Nat) (side : Side α) where
  mine : RingQueue α → Nat
  theirs : RingQueue α → Nat
  moved : RingQueue α → Nat
  shift : Nat
  own_eq : ∀ {q}, RingInv capacity q → side.own q = mine q % (capacity + 1)
  other_eq : ∀ {q}, RingInv capacity q → side.other q = theirs q % (capacity + 1)
  mine_le : ∀ {q}, RingInv capacity q → mine q ≤ moved q
  moved_le : ∀ {q}, RingInv capacity q → moved q ≤ theirs q + shift
  theirs_le : ∀ {q}, RingInv capacity q → theirs q + shift ≤ mine q + capacity
  count_eq : ∀ {a k}, a ≤ k + shift → k + shift ≤ a + capacity →
    side.count (capacity + 1) (side.below (a % (capacity + 1)) (k % (capacity + 1)))
      (a % (capacity + 1)) (k % (capacity + 1)) = k + shift - a
  slots_eq : ∀ {a k}, a ≤ k + shift → k + shift ≤ a + capacity →
    side.slots (capacity + 1) (a % (capacity + 1)) (k % (capacity + 1)) = k + shift - a
  /-- The first branch is not left: there the other index has no room to wrap. -/
  below_stays : ∀ {a j k}, a ≤ j + shift → j ≤ k → k + shift ≤ a + capacity →
    side.below (a % (capacity + 1)) (j % (capacity + 1)) = true →
    side.below (a % (capacity + 1)) (k % (capacity + 1)) = true
  /-- The second branch is left by a subtraction that goes below zero. -/
  wraps : ∀ {a k}, side.below (a % (capacity + 1)) (k % (capacity + 1)) = true →
    capacity < side.count (capacity + 1) false (a % (capacity + 1)) (k % (capacity + 1))
  touch_inv : ∀ {q} v, RingInv capacity q → moved q < theirs q + shift →
    RingInv capacity (side.touch q (moved q % (capacity + 1)) v)
  touch_mine : ∀ q x v, mine (side.touch q x v) = mine q
  touch_theirs : ∀ q x v, theirs (side.touch q x v) = theirs q
  touch_moved : ∀ q x v, moved (side.touch q x v) = moved q + 1
  touch_occupied : ∀ {m : Shared α} v, RingInv capacity m.ring → Occupied capacity m →
    moved m.ring < theirs m.ring + shift → m.filled (moved m.ring % (capacity + 1)) = !side.mark ∧
      Occupied capacity ⟨side.touch m.ring (moved m.ring % (capacity + 1)) v,
        update m.filled (moved m.ring % (capacity + 1)) side.mark⟩
  setOwn_inv : ∀ {q}, RingInv capacity q →
    RingInv capacity (side.setOwn q (moved q % (capacity + 1)))
  setOwn_mine : ∀ q x, mine (side.setOwn q x) = moved q
  setOwn_theirs : ∀ q x, theirs (side.setOwn q x) = theirs q
  setOwn_moved : ∀ q x, moved (side.setOwn q x) = moved q
  setOwn_stored : ∀ q x, (side.setOwn q x).stored = q.stored
  setOwn_returned : ∀ q x, (side.setOwn q x).returned = q.returned

theorem store_occupied {m : Shared α} (v : α) (h : RingInv capacity m.ring)
    (ho : Occupied capacity m) (hroom : m.ring.stored.length < m.ring.released + capacity) :
    m.filled (m.ring.stored.length % (capacity + 1)) = false ∧
      Occupied capacity ⟨m.ring.store (m.ring.stored.length % (capacity + 1)) v,
        update m.filled (m.ring.stored.length % (capacity + 1)) true⟩ := by
  have hrel := h.released_le
  refine ⟨?_, fun x => ?_⟩
  · rw [Bool.eq_false_iff]
    intro hf
    obtain ⟨k, hk, hks, hx⟩ := (ho _).mp hf
    exact mod_ne_of_lt hks (by omega) hx.symm
  · simp only [RingQueue.store, List.length_append, List.length_singleton]
    by_cases hx : x = m.ring.stored.length % (capacity + 1)
    · rw [hx, update_self]
      have hle := h.returned_le.trans h.visible_le
      exact iff_of_true rfl ⟨m.ring.stored.length, hle, by omega, rfl⟩
    · rw [update_of_ne hx, ho x]
      refine exists_congr fun k => and_congr_right fun _ => ⟨fun hk => ⟨by omega, hk.2⟩, ?_⟩
      rintro ⟨hk, rfl⟩
      have hne : k ≠ m.ring.stored.length := fun he => hx (he ▸ rfl)
      exact ⟨by omega, rfl⟩

theorem load_occupied {m : Shared α} (h : RingInv capacity m.ring) (ho : Occupied capacity m)
    (havail : m.ring.returned.length < m.ring.visible) :
    m.filled (m.ring.returned.length % (capacity + 1)) = true ∧
      Occupied capacity ⟨m.ring.load (m.ring.returned.length % (capacity + 1)),
        update m.filled (m.ring.returned.length % (capacity + 1)) false⟩ := by
  have hrel := h.released_le
  have hvis := h.visible_le
  have hsto := h.stored_le
  refine ⟨(ho _).mpr ⟨_, le_refl _, by omega, rfl⟩, fun x => ?_⟩
  simp only [RingQueue.load, List.length_append, List.length_singleton]
  by_cases hx : x = m.ring.returned.length % (capacity + 1)
  · rw [hx, update_self]
    refine iff_of_false Bool.false_ne_true ?_
    rintro ⟨k, hk, hks, hkx⟩
    exact mod_ne_of_lt (a := m.ring.returned.length) (b := k) (by omega) (by omega) hkx
  · rw [update_of_ne hx, ho x]
    refine exists_congr fun k => ⟨?_, fun hk => ⟨by omega, hk.2⟩⟩
    rintro ⟨hk, hks, rfl⟩
    have hne : k ≠ m.ring.returned.length := fun he => hx (he ▸ rfl)
    exact ⟨by omega, hks, rfl⟩

section

variable {w o : Nat}

theorem subSize_of_le {a b : Nat} (hab : b ≤ a) (ha : a < 2 ^ 64) : subSize a b = a - b := by
  unfold subSize
  omega

theorem subSize_of_lt {a b : Nat} (hab : a < b) (hb : b < 2 ^ 64) :
    subSize a b = a + 2 ^ 64 - b := by
  unfold subSize
  omega

section

variable (hsize : (capacity + 1) * 8 < 2 ^ 64)
include hsize

theorem nbEmpty_below (hw : w < capacity + 1) (ho : o ≤ w) :
    nbEmpty (capacity + 1) true o w = o + capacity - w := by
  have hadd : addSize o (capacity + 1) = o + (capacity + 1) := Nat.mod_eq_of_lt (by omega)
  have hsub : subSize (o + (capacity + 1)) w = o + (capacity + 1) - w :=
    subSize_of_le (by omega) (by omega)
  simp only [nbEmpty, if_true, hadd, hsub]
  rw [subSize_of_le (by omega) (by omega)]
  omega

theorem nbEmpty_above (ho : o < capacity + 1) (hw : w < o) :
    nbEmpty (capacity + 1) false o w = o - w - 1 := by
  have hsub : subSize o w = o - w := subSize_of_le hw.le (by omega)
  simp only [nbEmpty, Bool.false_eq_true, if_false, hsub]
  rw [subSize_of_le (by omega) (by omega)]

theorem nbEmpty_wraps (hw : w < capacity + 1) (ho : o ≤ w) :
    capacity < nbEmpty (capacity + 1) false o w := by
  simp only [nbEmpty, Bool.false_eq_true, if_false]
  rcases Nat.lt_or_ge o w with hlt | hge
  · rw [subSize_of_lt hlt (by omega), subSize_of_le (by omega) (by omega)]
    omega
  · rw [subSize_of_le hge (by omega), subSize_of_lt (by omega) (by omega)]
    omega

theorem nbFull_below (hw : w < capacity + 1) (ho : o < w) :
    nbFull (capacity + 1) true w o = o + (capacity + 1) - w := by
  have hadd : addSize o (capacity + 1) = o + (capacity + 1) := Nat.mod_eq_of_lt (by omega)
  simp only [nbFull, if_true, hadd]
  rw [subSize_of_le (by omega) (by omega)]

theorem nbFull_above (ho : o < capacity + 1) (hw : w ≤ o) :
    nbFull (capacity + 1) false w o = o - w := by
  simp only [nbFull, Bool.false_eq_true, if_false]
  rw [subSize_of_le hw (by omega)]

theorem nbFull_wraps (hw : w < capacity + 1) (ho : o < w) :
    capacity < nbFull (capacity + 1) false w o := by
  simp only [nbFull, Bool.false_eq_true, if_false]
  rw [subSize_of_lt ho (by omega)]
  omega

end

theorem mod_size_lt (capacity a : Nat) : a % (capacity + 1) < capacity + 1 :=
  Nat.mod_lt _ (Nat.succ_pos _)

theorem freeSlots_eq {a k : Nat} (hka : k ≤ a) (hak : a ≤ k + capacity) :
    freeSlots (capacity + 1) (k % (capacity + 1)) (a % (capacity + 1)) = k + capacity - a := by
  have hk := mod_size_lt capacity k
  unfold freeSlots
  rcases sub_eq_of_lap (capacity + 1) hka (by omega) with ⟨hle, hd⟩ | ⟨hlt, hd⟩
  · rw [Nat.mod_eq_of_lt (by omega)]
    omega
  · rw [Nat.mod_eq_sub_mod (by omega), Nat.mod_eq_of_lt (by omega)]
    omega

theorem filledSlots_eq {a k : Nat} (hak : a ≤ k) (hka : k ≤ a + capacity) :
    filledSlots (capacity + 1) (a % (capacity + 1)) (k % (capacity + 1)) = k - a := by
  unfold filledSlots
  rcases sub_eq_of_lap (capacity + 1) hak (by omega) with ⟨hle, hd⟩ | ⟨hlt, hd⟩
  · rw [Nat.mod_eq_sub_mod (by omega), Nat.mod_eq_of_lt (by omega)]
    omega
  · rw [Nat.mod_eq_of_lt (by omega)]
    omega

end

def writeCounted (hsize : (capacity + 1) * 8 < 2 ^ 64) :
    Counted capacity (writeBulk : Side α) where
  mine q := q.visible
  theirs q := q.released
  moved q := q.stored.length
  shift := capacity
  own_eq h := h.end_eq
  other_eq h := h.start_eq
  mine_le h := h.visible_le
  moved_le h := h.stored_le
  theirs_le h := Nat.add_le_add_right (h.released_le.trans h.returned_le) _
  count_eq {a k} hak hka := by
    have ha := mod_size_lt capacity a
    have hk := mod_size_lt capacity k
    have hka' : k ≤ a := by omega
    simp only [writeBulk]
    rcases sub_eq_of_lap (capacity + 1) hka' (by omega) with ⟨hle, hd⟩ | ⟨hlt, hd⟩
    · rw [decide_eq_true hle, nbEmpty_below hsize ha hle]
      omega
    · rw [decide_eq_false (by omega), nbEmpty_above hsize hk hlt]
      omega
  slots_eq hak hka := freeSlots_eq (by omega) hak
  below_stays {a j k} haj hjk hka hb := by
    simp only [writeBulk, decide_eq_true_eq] at hb ⊢
    have ha := mod_size_lt capacity a
    have hja := sub_eq_of_lap (a := j) (b := a) (capacity + 1) (by omega) (by omega)
    have hka := sub_eq_of_lap (a := k) (b := a) (capacity + 1) (by omega) (by omega)
    have hjk := sub_eq_of_lap (a := j) (b := k) (capacity + 1) (by omega) (by omega)
    omega
  wraps hb := nbEmpty_wraps hsize (mod_size_lt _ _) (of_decide_eq_true hb)
  touch_inv v h hroom := store_inv h v rfl hroom
  touch_mine _ _ _ := rfl
  touch_theirs _ _ _ := rfl
  touch_moved q x v := by simp [writeBulk, RingQueue.store]
  touch_occupied v h ho hroom := store_occupied v h ho hroom
  setOwn_inv h := setEnd_inv h rfl
  setOwn_mine _ _ := rfl
  setOwn_theirs _ _ := rfl
  setOwn_moved _ _ := rfl
  setOwn_stored _ _ := rfl
  setOwn_returned _ _ := rfl

def readCounted (hsize : (capacity + 1) * 8 < 2 ^ 64) :
    Counted capacity (readBulk : Side α) where
  mine q := q.released
  theirs q := q.visible
  moved q := q.returned.length
  shift := 0
  own_eq h := h.start_eq
  other_eq h := h.end_eq
  mine_le h := h.released_le
  moved_le h := h.returned_le
  theirs_le h := h.visible_le.trans h.stored_le
  count_eq {a k} hak hka := by
    have ha := mod_size_lt capacity a
    have hk := mod_size_lt capacity k
    simp only [readBulk]
    rcases sub_eq_of_lap (b := k) (capacity + 1) hak (by omega) with ⟨hle, hd⟩ | ⟨hlt, hd⟩
    · rw [decide_eq_false (by omega), nbFull_above hsize hk hle]
      omega
    · rw [decide_eq_true hlt, nbFull_below hsize ha hlt]
      omega
  slots_eq hak hka := filledSlots_eq hak hka
  below_stays {a j k} haj hjk hka hb := by
    simp only [readBulk, decide_eq_true_eq] at hb ⊢
    have hj := mod_size_lt capacity j
    have haj := sub_eq_of_lap (a := a) (b := j) (capacity + 1) (by omega) (by omega)
    have hak := sub_eq_of_lap (a := a) (b := k) (capacity + 1) (by omega) (by omega)
    have hk := mod_size_lt capacity k
    omega
  wraps hb := nbFull_wraps hsize (mod_size_lt _ _) (of_decide_eq_true hb)
  touch_inv v h havail := load_inv h rfl havail
  touch_mine _ _ _ := rfl
  touch_theirs _ _ _ := rfl
  touch_moved q x v := by simp [readBulk, RingQueue.load]
  touch_occupied v h ho havail := load_occupied h ho havail
  setOwn_inv h := setStart_inv h rfl
  setOwn_mine _ _ := rfl
  setOwn_theirs _ _ := rfl
  setOwn_moved _ _ := rfl
  setOwn_stored _ _ := rfl
  setOwn_returned _ _ := rfl

end Libtrace.RingBulkCounts
