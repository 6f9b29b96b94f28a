import Libtrace.RingBuffer

/-! What holds between the steps of the threads that share a ring buffer: an index loaded earlier
errs on the safe side. -/

namespace Libtrace.RingBufferInv
open RingFifo RingBuffer Function

variable {ω ρ α : Type}

def writerHolds : WriterPc α → Bool
  | .idle | .early .. | .lock .. => false
  | _ => true

def readerHolds : ReaderPc α → Bool
  | .idle | .early .. | .lock .. => false
  | _ => true

/-- A `start` loaded earlier belongs to a count `k` that readers may have passed since. -/
def WriterLoads (capacity : Nat) (q : RingQueue α) : Loads → Prop
  | .fresh => True
  | .gotEnd e => e = q.end_
  | .gotStart s => ∃ k, s = k % (capacity + 1) ∧ k ≤ q.released ∧ q.visible ≤ k + capacity

def ReaderLoads (capacity : Nat) (q : RingQueue α) : Loads → Prop
  | .fresh => True
  | .gotStart s => s = q.start
  | .gotEnd e => ∃ k, e = k % (capacity + 1) ∧ q.released ≤ k ∧ k ≤ q.visible

def WriterOk (capacity : Nat) (q : RingQueue α) : WriterPc α → Prop
  | .idle | .early .. | .lock .. => True
  | .tryFull _ l | .waitForEmpty _ l => q.stored.length = q.visible ∧ WriterLoads capacity q l
  | .loadEnd _ => q.stored.length = q.visible ∧ q.visible < q.released + capacity
  | .storeElement _ e =>
    q.stored.length = q.visible ∧ q.visible < q.released + capacity ∧ e = q.end_
  | .reloadEnd => q.stored.length = q.visible + 1
  | .storeEnd e => q.stored.length = q.visible + 1 ∧ e = q.end_
  | .unlock => q.stored.length = q.visible

def ReaderOk (capacity : Nat) (q : RingQueue α) (answered : List α) : ReaderPc α → Prop
  | .idle | .early .. | .lock .. => True
  | .tryEmpty l | .waitForFull l => q.returned.length = q.released ∧ q.returned = answered ∧
      ReaderLoads capacity q l
  | .loadStart => q.returned.length = q.released ∧ q.returned = answered ∧ q.released < q.visible
  | .loadElement s => q.returned.length = q.released ∧ q.returned = answered ∧
      q.released < q.visible ∧ s = q.start
  | .reloadStart v => q.returned.length = q.released + 1 ∧ q.returned = answered ++ [v]
  | .storeStart v s => q.returned.length = q.released + 1 ∧ q.returned = answered ++ [v] ∧
      s = q.start
  | .unlock v => q.returned.length = q.released ∧ q.returned = answered ++ v.toList

structure Inv (capacity : Nat) (s : State ω ρ α) : Prop where
  ring : RingInv capacity s.ring
  wheld : ∀ w, writerHolds (s.writers w) = true ↔ s.wlock = some w
  rheld : ∀ r, readerHolds (s.readers r) = true ↔ s.rlock = some r
  writer : ∀ w, WriterOk capacity s.ring (s.writers w)
  reader : ∀ r, ReaderOk capacity s.ring s.answered (s.readers r)
  wfree : s.wlock = none → s.ring.stored.length = s.ring.visible
  rfree : s.rlock = none → s.ring.returned.length = s.ring.released ∧ s.ring.returned = s.answered

theorem init_inv (capacity : Nat) (memory : Nat → α) :
    Inv capacity (ringbufferInit memory : State ω ρ α) where
  ring := empty_inv capacity memory
  wheld w := by simp [ringbufferInit, writerHolds]
  rheld r := by simp [ringbufferInit, readerHolds]
  writer _ := trivial
  reader _ := trivial
  wfree _ := rfl
  rfree _ := ⟨rfl, rfl⟩

structure AheadOf (q q' : RingQueue α) : Prop where
  returned : q'.returned = q.returned
  released : q'.released = q.released
  start : q'.start = q.start
  visible : q.visible ≤ q'.visible

structure DrainedFrom (q q' : RingQueue α) : Prop where
  stored : q'.stored = q.stored
  visible : q'.visible = q.visible
  end_ : q'.end_ = q.end_
  released : q.released ≤ q'.released

variable {capacity : Nat} {q q' : RingQueue α} {answered : List α} {pc : ReaderPc α}
  {s : State ω ρ α}

theorem readerOk_ahead (h : AheadOf q q') (hpc : ReaderOk capacity q answered pc) :
    ReaderOk capacity q' answered pc := by
  obtain ⟨hret, hrel, hstart, hvis⟩ := h
  have hloads : ∀ l, ReaderLoads capacity q l → ReaderLoads capacity q' l := by
    intro l hl
    cases l with
    | fresh => trivial
    | gotStart s => exact hl.trans hstart.symm
    | gotEnd e =>
      obtain ⟨k, he, hk, hle⟩ := hl
      exact ⟨k, he, hrel ▸ hk, hle.trans hvis⟩
  cases pc with
  | idle | early | lock => trivial
  | tryEmpty l | waitForFull l =>
    exact ⟨by rw [hret, hrel, hpc.1], hret.trans hpc.2.1, hloads l hpc.2.2⟩
  | loadStart =>
    exact ⟨by rw [hret, hrel, hpc.1], hret.trans hpc.2.1, hrel ▸ hpc.2.2.trans_le hvis⟩
  | loadElement s =>
    exact ⟨by rw [hret, hrel, hpc.1], hret.trans hpc.2.1, hrel ▸ hpc.2.2.1.trans_le hvis,
      hpc.2.2.2.trans hstart.symm⟩
  | reloadStart v => exact ⟨by rw [hret, hrel, hpc.1], hret.trans hpc.2⟩
  | storeStart v s =>
    exact ⟨by rw [hret, hrel, hpc.1], hret.trans hpc.2.1, hpc.2.2.trans hstart.symm⟩
  | unlock v => exact ⟨by rw [hret, hrel, hpc.1], hret.trans hpc.2⟩

theorem writerOk_drained (h : DrainedFrom q q') {pc : WriterPc α} (hpc : WriterOk capacity q pc) :
    WriterOk capacity q' pc := by
  obtain ⟨hstored, hvis, hend, hrel⟩ := h
  have hloads : ∀ l, WriterLoads capacity q l → WriterLoads capacity q' l := by
    intro l hl
    cases l with
    | fresh => trivial
    | gotEnd e => exact hl.trans hend.symm
    | gotStart s =>
      obtain ⟨k, he, hk, hle⟩ := hl
      exact ⟨k, he, hk.trans hrel, hvis ▸ hle⟩
  cases pc with
  | idle | early | lock => trivial
  | tryFull v l | waitForEmpty v l => exact ⟨by rw [hstored, hvis, hpc.1], hloads l hpc.2⟩
  | loadEnd v => exact ⟨by rw [hstored, hvis, hpc.1], by rw [hvis]; exact hpc.2.trans_le (by omega)⟩
  | storeElement v e =>
    exact ⟨by rw [hstored, hvis, hpc.1], by rw [hvis]; exact hpc.2.1.trans_le (by omega),
      hpc.2.2.trans hend.symm⟩
  | reloadEnd => exact (by rw [hstored, hvis]; exact hpc : q'.stored.length = q'.visible + 1)
  | storeEnd e => exact ⟨by rw [hstored, hvis, hpc.1], hpc.2.trans hend.symm⟩
  | unlock => exact (by rw [hstored, hvis]; exact hpc : q'.stored.length = q'.visible)

theorem writerOk_not_held (q : RingQueue α) {pc : WriterPc α} (h : writerHolds pc = false) :
    WriterOk capacity q pc := by
  cases pc with
  | idle | early | lock => trivial
  | _ => simp [writerHolds] at h

theorem readerOk_not_held (q : RingQueue α) (answered : List α) (h : readerHolds pc = false) :
    ReaderOk capacity q answered pc := by
  cases pc with
  | idle | early | lock => trivial
  | _ => simp [readerHolds] at h

theorem writer_inv [DecidableEq ω] (h : Inv capacity s) (w : ω) {pc : WriterPc α} {lock : Option ω}
    (hq : RingInv capacity q) (hahead : AheadOf s.ring q) (hpc : WriterOk capacity q pc)
    (hsame : q = s.ring ∨ s.wlock = some w) (hlock : writerHolds pc = true ↔ lock = some w)
    (hothers : ∀ v, v ≠ w → (lock = some v ↔ s.wlock = some v))
    (hfree : lock = none → q.stored.length = q.visible) :
    Inv capacity { s with
      ring := q, wlock := lock, writers := update s.writers w pc } := by
  refine ⟨hq, fun v => ?_, h.rheld, fun v => ?_, fun r => readerOk_ahead hahead (h.reader r), hfree,
    fun hr => ?_⟩
  · by_cases hv : v = w
    · simpa [hv] using hlock
    · simpa [hv, hothers v hv] using h.wheld v
  · by_cases hv : v = w
    · simpa [hv] using hpc
    · simp only [update_of_ne hv]
      rcases hsame with rfl | hw
      · exact h.writer v
      · refine writerOk_not_held q (Bool.eq_false_iff.mpr fun hheld => hv ?_)
        rw [h.wheld v, hw, Option.some.injEq] at hheld
        exact hheld.symm
  · obtain ⟨hlen, hans⟩ := h.rfree hr
    exact ⟨by rw [hahead.returned, hahead.released, hlen], hahead.returned.trans hans⟩

theorem reader_inv [DecidableEq ρ] (h : Inv capacity s) (r : ρ) {lock : Option ρ}
    (hq : RingInv capacity q) (hdrained : DrainedFrom s.ring q)
    (hpc : ReaderOk capacity q answered pc)
    (hsame : (q = s.ring ∧ answered = s.answered) ∨ s.rlock = some r)
    (hlock : readerHolds pc = true ↔ lock = some r)
    (hothers : ∀ v, v ≠ r → (lock = some v ↔ s.rlock = some v))
    (hfree : lock = none → q.returned.length = q.released ∧ q.returned = answered) :
    Inv capacity { s with
      ring := q, rlock := lock, readers := update s.readers r pc
      answered := answered } := by
  refine ⟨hq, h.wheld, fun v => ?_, fun w => writerOk_drained hdrained (h.writer w), fun v => ?_,
    fun hw => ?_, hfree⟩
  · by_cases hv : v = r
    · simpa [hv] using hlock
    · simpa [hv, hothers v hv] using h.rheld v
  · by_cases hv : v = r
    · simpa [hv] using hpc
    · simp only [update_of_ne hv]
      rcases hsame with ⟨rfl, rfl⟩ | hr
      · exact h.reader v
      · refine readerOk_not_held q answered (Bool.eq_false_iff.mpr fun hheld => hv ?_)
        rw [h.rheld v, hr, Option.some.injEq] at hheld
        exact hheld.symm
  · have hstored := h.wfree hw
    rw [hdrained.stored, hdrained.visible, hstored]

theorem aheadOf_refl (q : RingQueue α) : AheadOf q q := ⟨rfl, rfl, rfl, le_refl _⟩

theorem drainedFrom_refl (q : RingQueue α) : DrainedFrom q q := ⟨rfl, rfl, rfl, le_refl _⟩

theorem setWriter_inv [DecidableEq ω] (h : Inv capacity s) {w : ω} {old pc : WriterPc α}
    (hold : s.writers w = old) (hholds : writerHolds pc = writerHolds old)
    (hpc : WriterOk capacity s.ring pc) : Inv capacity (s.setWriter w pc) :=
  writer_inv h w h.ring (aheadOf_refl _) hpc (.inl rfl) (by rw [hholds, ← hold]; exact h.wheld w)
    (fun _ _ => Iff.rfl) h.wfree

theorem setReader_inv [DecidableEq ρ] (h : Inv capacity s) {r : ρ} {old : ReaderPc α}
    (hold : s.readers r = old) (hholds : readerHolds pc = readerHolds old)
    (hpc : ReaderOk capacity s.ring s.answered pc) : Inv capacity (s.setReader r pc) :=
  reader_inv h r h.ring (drainedFrom_refl _) hpc (.inl ⟨rfl, rfl⟩)
    (by rw [hholds, ← hold]; exact h.rheld r) (fun _ _ => Iff.rfl) h.rfree

theorem lockWriter_inv [DecidableEq ω] (h : Inv capacity s) (w : ω) {pc : WriterPc α}
    (hfree : s.wlock = none) (hholds : writerHolds pc = true) (hpc : WriterOk capacity s.ring pc) :
    Inv capacity { s.setWriter w pc with wlock := some w } := by
  refine writer_inv h w h.ring (aheadOf_refl _) hpc (.inl rfl) (iff_of_true hholds rfl)
    (fun u hu => ?_) (by simp)
  simp [hfree, Ne.symm hu]

theorem lockReader_inv [DecidableEq ρ] (h : Inv capacity s) (r : ρ) (hfree : s.rlock = none)
    (hholds : readerHolds pc = true) (hpc : ReaderOk capacity s.ring s.answered pc) :
    Inv capacity { s.setReader r pc with rlock := some r } := by
  refine reader_inv h r h.ring (drainedFrom_refl _) hpc (.inl ⟨rfl, rfl⟩)
    (iff_of_true hholds rfl) (fun u hu => ?_) (by simp)
  simp [hfree, Ne.symm hu]

end Libtrace.RingBufferInv
