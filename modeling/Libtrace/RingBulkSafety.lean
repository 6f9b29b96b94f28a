import Libtrace.RingBulkCounts
import Libtrace.Schedule

/-! When a run of the bulk calls clobbers nothing. -/

namespace Libtrace.RingBulkSafety
open RingFifo RingBulk RingBulkCounts Schedule

variable {α : Type} {capacity : Nat}

structure PairOk {side : Side α} (cn : Counted capacity side) (q : RingQueue α) (k : Nat)
    (l : Pair) : Prop where
  mine_le : cn.mine q ≤ k + cn.shift
  le_theirs : k ≤ cn.theirs q
  own : ∀ w, l = .gotOwn w → w = side.own q
  other : ∀ o, l = .gotOther o → ∃ j, k ≤ j ∧ j ≤ cn.theirs q ∧ o = j % (capacity + 1)

def PcOk {side : Side α} (cn : Counted capacity side) (q : RingQueue α) : BulkPc α → Prop
  | .idle | .early .. | .wait .. => cn.moved q = cn.mine q
  | .compare _ _ l => cn.moved q = cn.mine q ∧ ∃ k, PairOk cn q k l
  | .count _ _ below l => cn.moved q = cn.mine q ∧ ∃ k, PairOk cn q k l ∧
      (below = true → side.below (side.own q) (k % (capacity + 1)) = true)
  | .load _ i ready => cn.moved q = cn.mine q ∧ cn.moved q + (ready - i) ≤ cn.theirs q + cn.shift
  | .touch _ i ready x => i < ready ∧ cn.moved q + (ready - i) ≤ cn.theirs q + cn.shift ∧
      x = cn.moved q % (capacity + 1)
  | .set _ _ x => x = cn.moved q % (capacity + 1)

section

variable {side : Side α} (cn : Counted capacity side) {m : Shared α} {q : RingQueue α}

variable {k : Nat} {l : Pair} {ownFirst : Bool}

theorem pairOk_fresh (hmine : cn.mine q ≤ k + cn.shift) (htheirs : k ≤ cn.theirs q) :
    PairOk cn q k .fresh := ⟨hmine, htheirs, nofun, nofun⟩

section

variable (h : RingInv capacity q)
include h

theorem fresh_ok : PairOk cn q (cn.theirs q) .fresh :=
  pairOk_fresh cn ((cn.mine_le h).trans (cn.moved_le h)) (le_refl _)

theorem next_inl {l' : Pair} (hl : PairOk cn q k l) (hn : l.next side q ownFirst = .inl l') :
    PairOk cn q k l' := by
  cases l with
  | fresh =>
    simp only [Pair.next, Sum.inl.injEq] at hn
    subst hn
    refine ⟨hl.mine_le, hl.le_theirs, ?_, ?_⟩
    · intro w hw
      cases ownFirst with
      | true => exact (Pair.gotOwn.inj hw).symm
      | false => exact absurd hw (by simp)
    · intro o ho
      cases ownFirst with
      | true => exact absurd ho (by simp)
      | false =>
        have ho : side.other q = o := Pair.gotOther.inj ho
        exact ⟨cn.theirs q, hl.le_theirs, le_refl _, ho ▸ cn.other_eq h⟩
  | gotOwn w | gotOther o => exact absurd hn (by simp [Pair.next])

theorem next_inr {w o : Nat} (hl : PairOk cn q k l) (hn : l.next side q ownFirst = .inr (w, o)) :
    w = side.own q ∧ ∃ j, k ≤ j ∧ j ≤ cn.theirs q ∧ o = j % (capacity + 1) := by
  cases l with
  | fresh => exact absurd hn (by simp [Pair.next])
  | gotOwn w' =>
    simp only [Pair.next, Sum.inr.injEq, Prod.mk.injEq] at hn
    exact ⟨hn.1 ▸ hl.own w' rfl, cn.theirs q, hl.le_theirs, le_refl _, hn.2 ▸ cn.other_eq h⟩
  | gotOther o' =>
    simp only [Pair.next, Sum.inr.injEq, Prod.mk.injEq] at hn
    exact ⟨hn.1.symm, hn.2 ▸ hl.other o' rfl⟩

theorem slots_now :
    side.slots (capacity + 1) (side.own q) (side.other q) =
      cn.theirs q + cn.shift - cn.mine q := by
  rw [cn.own_eq h, cn.other_eq h]
  exact cn.slots_eq ((cn.mine_le h).trans (cn.moved_le h)) (cn.theirs_le h)

theorem nbReady_le_iff {c : Call α} {i w o : Nat} {below : Bool} (hl : PairOk cn q k l)
    (hbelow : below = true → side.below (side.own q) (k % (capacity + 1)) = true)
    (hn : l.next side q ownFirst = .inr (w, o)) :
    nbReady side (capacity + 1) c i below w o ≤ cn.theirs q + cn.shift - cn.mine q ↔
      below = true ∨ side.below w o = false ∨
        c.nb - i ≤ cn.theirs q + cn.shift - cn.mine q := by
  obtain ⟨rfl, j, hkj, hj, rfl⟩ := next_inr cn h hl hn
  have hmine := hl.mine_le
  have hroom := cn.theirs_le h
  rw [cn.own_eq h] at hbelow ⊢
  have hcount := cn.count_eq (a := cn.mine q) (k := j) (by omega) (by omega)
  unfold nbReady
  cases hb : side.below (cn.mine q % (capacity + 1)) (j % (capacity + 1)) with
  | false =>
    rw [hb] at hcount
    cases below with
    | true =>
      have hstays := cn.below_stays hmine hkj (by omega) (hbelow rfl)
      exact absurd (hb.symm.trans hstays) Bool.false_ne_true
    | false => exact iff_of_true (by omega) (.inr (.inl rfl))
  | true =>
    rw [hb] at hcount
    cases below with
    | true => exact iff_of_true (by omega) (.inl rfl)
    | false =>
      have hwraps := cn.wraps hb
      simp only [Bool.false_eq_true, Bool.true_eq_false, false_or]
      omega

end

theorem keeps_iff_steady {pc : BulkPc α} (h : RingInv capacity m.ring) (ho : Occupied capacity m)
    (hpc : PcOk cn m.ring pc) :
    Keeps side (capacity + 1) ownFirst m pc ↔ Steady side (capacity + 1) ownFirst m pc := by
  cases pc with
  | count c i below l =>
    obtain ⟨-, k, hl, hbelow⟩ := hpc
    simp only [Keeps, Steady]
    cases hn : l.next side m.ring ownFirst with
    | inl l' => exact Iff.rfl
    | inr p =>
      simp only [slots_now cn h]
      exact nbReady_le_iff cn h hl hbelow hn
  | touch c i ready x =>
    obtain ⟨hi, hroom, rfl⟩ := hpc
    exact iff_of_true (cn.touch_occupied (c.values i) h ho (by omega)).1 trivial
  | _ => exact Iff.rfl

structure Stepped (m : Shared α) (r : Shared α × BulkPc α) : Prop where
  ring : RingInv capacity r.1.ring
  occupied : Occupied capacity r.1
  pc : PcOk cn r.1.ring r.2
  from_ : r.1.ring = m.ring ∨ (∃ x v, r.1.ring = side.touch m.ring x v) ∨
    ∃ x, r.1.ring = side.setOwn m.ring x

theorem bulkStep_stepped {pc : BulkPc α} (call : Call α) (h : RingInv capacity m.ring)
    (ho : Occupied capacity m) (hpc : PcOk cn m.ring pc)
    (hsteady : Steady side (capacity + 1) ownFirst m pc) :
    Stepped cn m (bulkStep side (capacity + 1) call ownFirst m pc) := by
  cases pc with
  | idle =>
    simp only [bulkStep]
    split
    · refine ⟨h, ho, ?_, .inl rfl⟩
      split <;> exact hpc
    · exact ⟨h, ho, hpc, .inl rfl⟩
  | early c l =>
    simp only [bulkStep]
    split
    · exact ⟨h, ho, hpc, .inl rfl⟩
    · refine ⟨h, ho, ?_, .inl rfl⟩
      split <;> exact hpc
  | wait c i l =>
    simp only [bulkStep]
    split
    · exact ⟨h, ho, hpc, .inl rfl⟩
    · refine ⟨h, ho, ?_, .inl rfl⟩
      split
      · exact hpc
      · exact ⟨hpc, _, fresh_ok cn h⟩
  | compare c i l =>
    obtain ⟨hmoved, k, hl⟩ := hpc
    simp only [bulkStep]
    split
    · next l' hn => exact ⟨h, ho, ⟨hmoved, k, next_inl cn h hl hn⟩, .inl rfl⟩
    · next w o hn =>
      obtain ⟨rfl, j, hkj, hj, rfl⟩ := next_inr cn h hl hn
      have hmine : cn.mine m.ring ≤ j + cn.shift := hl.mine_le.trans (by omega)
      exact ⟨h, ho, ⟨hmoved, j, pairOk_fresh cn hmine hj, id⟩, .inl rfl⟩
  | count c i below l =>
    obtain ⟨hmoved, k, hl, hbelow⟩ := hpc
    simp only [bulkStep]
    simp only [Steady] at hsteady
    split
    · next l' hn => exact ⟨h, ho, ⟨hmoved, k, next_inl cn h hl hn, hbelow⟩, .inl rfl⟩
    · next w o hn =>
      rw [hn] at hsteady
      simp only [slots_now cn h] at hsteady
      have hready := (nbReady_le_iff cn h hl hbelow hn).mpr hsteady
      have hle := (cn.mine_le h).trans (cn.moved_le h)
      have hroom : cn.moved m.ring + (nbReady side (capacity + 1) c i below w o + i - i) ≤
          cn.theirs m.ring + cn.shift := by omega
      exact ⟨h, ho, ⟨hmoved, hroom⟩, .inl rfl⟩
  | load c i ready =>
    obtain ⟨hmoved, hroom⟩ := hpc
    simp only [bulkStep]
    have hx : side.own m.ring = cn.moved m.ring % (capacity + 1) := by
      rw [cn.own_eq h, hmoved]
    refine ⟨h, ho, ?_, .inl rfl⟩
    split
    · next hi => exact ⟨hi, hroom, hx⟩
    · exact hx
  | touch c i ready x =>
    obtain ⟨hi, hroom, rfl⟩ := hpc
    simp only [bulkStep]
    have hlt : cn.moved m.ring < cn.theirs m.ring + cn.shift := by omega
    refine ⟨cn.touch_inv _ h hlt, (cn.touch_occupied _ h ho hlt).2, ?_, .inr (.inl ⟨_, _, rfl⟩)⟩
    have hx : (cn.moved m.ring % (capacity + 1) + 1) % (capacity + 1) =
        cn.moved (side.touch m.ring (cn.moved m.ring % (capacity + 1)) (c.values i)) %
          (capacity + 1) := by
      rw [cn.touch_moved, succ_mod_mod]
    split
    · next hi' =>
      refine ⟨hi', ?_, hx⟩
      rw [cn.touch_moved, cn.touch_theirs]
      omega
    · exact hx
  | set c i x =>
    have hx : x = cn.moved m.ring % (capacity + 1) := hpc
    subst hx
    simp only [bulkStep]
    refine ⟨cn.setOwn_inv h, ?_, ?_, .inr (.inr ⟨_, rfl⟩)⟩
    · intro x
      simp only [cn.setOwn_returned, cn.setOwn_stored]
      exact ho x
    · dsimp only
      split <;> exact (cn.setOwn_moved _ _).trans (cn.setOwn_mine _ _).symm

end

structure Ahead {side : Side α} (cn : Counted capacity side) (q q' : RingQueue α) : Prop where
  mine : cn.mine q' = cn.mine q
  moved : cn.moved q' = cn.moved q
  theirs : cn.theirs q ≤ cn.theirs q'

theorem pcOk_ahead {side : Side α} {cn : Counted capacity side} {q q' : RingQueue α} {pc : BulkPc α}
    (h : RingInv capacity q) (h' : RingInv capacity q') (ha : Ahead cn q q') (hpc : PcOk cn q pc) :
    PcOk cn q' pc := by
  have hown : side.own q' = side.own q := by rw [cn.own_eq h, cn.own_eq h', ha.mine]
  have hpair {k : Nat} {l : Pair} (hl : PairOk cn q k l) : PairOk cn q' k l := by
    refine ⟨ha.mine ▸ hl.mine_le, hl.le_theirs.trans ha.theirs, hown ▸ hl.own, ?_⟩
    intro o ho
    obtain ⟨j, hkj, hj, hoj⟩ := hl.other o ho
    exact ⟨j, hkj, hj.trans ha.theirs, hoj⟩
  have htheirs := ha.theirs
  have hmoved : cn.moved q = cn.mine q → cn.moved q' = cn.mine q' := by
    rw [ha.moved, ha.mine]
    exact id
  cases pc with
  | idle | early c l | wait c i l => exact hmoved hpc
  | compare c i l =>
    obtain ⟨hm, k, hl⟩ := hpc
    exact ⟨hmoved hm, k, hpair hl⟩
  | count c i below l =>
    obtain ⟨hm, k, hl, hbelow⟩ := hpc
    exact ⟨hmoved hm, k, hpair hl, hown ▸ hbelow⟩
  | load c i ready => exact ⟨hmoved hpc.1, by rw [ha.moved]; exact hpc.2.trans (by omega)⟩
  | touch c i ready x =>
    exact ⟨hpc.1, by rw [ha.moved]; exact hpc.2.1.trans (by omega), by rw [ha.moved]; exact hpc.2.2⟩
  | set c i x =>
    have hx : x = cn.moved q % (capacity + 1) := hpc
    exact hx.trans (by rw [ha.moved])

theorem stepped_ahead {side other : Side α} {cn : Counted capacity side}
    (cn' : Counted capacity other) {m : Shared α} {r : Shared α × BulkPc α} (hr : Stepped cn m r)
    (htouch : ∀ x v, Ahead cn' m.ring (side.touch m.ring x v))
    (hset : ∀ x, Ahead cn' m.ring (side.setOwn m.ring x)) : Ahead cn' m.ring r.1.ring := by
  rcases hr.from_ with he | ⟨x, v, he⟩ | ⟨x, he⟩
  · rw [he]
    exact ⟨rfl, rfl, le_refl _⟩
  · rw [he]
    exact htouch x v
  · rw [he]
    exact hset x

section

variable (hsize : (capacity + 1) * 8 < 2 ^ 64)

structure Inv (s : State α) : Prop where
  ring : RingInv capacity s.shared.ring
  occupied : Occupied capacity s.shared
  writer : PcOk (writeCounted hsize) s.shared.ring s.writer
  reader : PcOk (readCounted hsize) s.shared.ring s.reader

theorem init_inv (memory : Nat → α) : Inv hsize (bulkInit memory) where
  ring := empty_inv capacity memory
  occupied x := by simp [bulkInit, RingQueue.empty]
  writer := rfl
  reader := rfl

theorem noClobber_iff {s : State α} (h : Inv hsize s) (a : Action α) :
    NoClobber (capacity + 1) s a ↔ Unturned (capacity + 1) s a := by
  cases a with
  | writer call ownFirst => exact keeps_iff_steady _ h.ring h.occupied h.writer
  | reader call ownFirst => exact keeps_iff_steady _ h.ring h.occupied h.reader

theorem step_inv {s : State α} (h : Inv hsize s) {a : Action α} (ha : Unturned (capacity + 1) s a) :
    Inv hsize (step (capacity + 1) s a) := by
  cases a with
  | writer call ownFirst =>
    have hr := bulkStep_stepped (writeCounted hsize) call h.ring h.occupied h.writer ha
    have hahead := stepped_ahead (readCounted hsize) hr (fun _ _ => ⟨rfl, rfl, le_refl _⟩)
      (fun _ => ⟨rfl, rfl, h.ring.visible_le⟩)
    exact ⟨hr.ring, hr.occupied, hr.pc, pcOk_ahead h.ring hr.ring hahead h.reader⟩
  | reader call ownFirst =>
    have hr := bulkStep_stepped (readCounted hsize) call h.ring h.occupied h.reader ha
    have hahead := stepped_ahead (writeCounted hsize) hr (fun _ _ => ⟨rfl, rfl, le_refl _⟩)
      (fun _ => ⟨rfl, rfl, h.ring.released_le⟩)
    exact ⟨hr.ring, hr.occupied, pcOk_ahead h.ring hr.ring hahead h.writer, hr.pc⟩

end

/-- No step of a run clobbers exactly if every step is taken before the other index turns. The table
of `capacity + 1` pointers has a size that is a `size_t`. -/
theorem noClobber_iff_unturned (capacity : Nat) (hsize : (capacity + 1) * 8 < 2 ^ 64)
    (memory : Nat → α) (schedule : List (Action α)) :
    Along (step (capacity + 1)) (NoClobber (capacity + 1)) (bulkInit memory) schedule ↔
      Along (step (capacity + 1)) (Unturned (capacity + 1)) (bulkInit memory) schedule :=
  along_iff (Inv hsize) (fun _ a h => noClobber_iff hsize h a)
    (fun _ _ h ha => step_inv hsize h ha) (init_inv hsize memory) schedule

/-- A call for five compares and finds `start` above `end`; the reader wraps `start` before the
subtraction. -/
def turningSchedule : List (Action Nat) :=
  List.replicate 12 (.writer ⟨id, 3, 3⟩ true) ++ List.replicate 12 (.reader ⟨id, 3, 3⟩ true) ++
    List.replicate 11 (.writer ⟨id, 2, 2⟩ true) ++ List.replicate 5 (.writer ⟨id, 5, 1⟩ true) ++
    List.replicate 11 (.reader ⟨id, 2, 2⟩ true) ++ List.replicate 8 (.writer ⟨id, 5, 1⟩ true)

theorem noClobber_iff_unturned_three :
    (3 + 1) * 8 < 2 ^ 64 ∧
      Along (step (3 + 1)) (Unturned (3 + 1)) (bulkInit fun _ => 0) (turningSchedule.take 52) :=
  ⟨by decide, (noClobber_iff_unturned 3 (by decide) _ _).mp (by decide +kernel)⟩

/-- The count is 5 with three slots free: the fifth store finds an unread value. -/
theorem noClobber_fails :
    ¬ Along (step 4) (NoClobber 4) (bulkInit fun _ => 0) turningSchedule ∧
      ¬ NoClobber 4 ((turningSchedule.take 58).foldl (step 4) (bulkInit fun _ => 0))
        (.writer ⟨id, 5, 1⟩ true) := by
  decide +kernel

end Libtrace.RingBulkSafety
