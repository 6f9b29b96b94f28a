import Libtrace.RingBufferInv
import Libtrace.Schedule

/-! The ring buffer is a queue under every interleaving. -/

namespace Libtrace.RingBufferFifo
open RingFifo RingBuffer RingBufferInv

variable {ω ρ α : Type}

variable {capacity : Nat} {q : RingQueue α} {l : Loads} {s : State ω ρ α}

section

variable (hq : RingInv capacity q)
include hq

theorem room_of_not_full {k : Nat} (hk : k ≤ q.released) (hle : q.visible ≤ k + capacity)
    (hfull : ¬ isFull (capacity + 1) (k % (capacity + 1)) q.end_) :
    q.visible < q.released + capacity := by
  have hne : q.visible ≠ k + capacity := by
    intro he
    refine hfull ?_
    rw [isFull, hq.end_eq, he, succ_mod_mod, Nat.add_assoc, Nat.add_mod_right]
  omega

theorem avail_of_not_empty {k : Nat} (hk : q.released ≤ k) (hle : k ≤ q.visible)
    (hempty : ¬ isEmpty q.start (k % (capacity + 1))) : q.released < q.visible := by
  have hne : q.released ≠ k := by
    intro he
    refine hempty ?_
    rw [isEmpty, hq.start_eq, he]
  omega

theorem writerLoads_next (endFirst : Bool) {l' : Loads} (hl : WriterLoads capacity q l)
    (h : l.next q endFirst = .inl l') : WriterLoads capacity q l' := by
  have hle := hq.visible_le.trans hq.stored_le
  cases l with
  | fresh =>
    cases endFirst <;> obtain rfl := Sum.inl.inj h
    · exact ⟨q.released, hq.start_eq, le_refl _, hle⟩
    · rfl
  | gotStart s | gotEnd e => exact absurd h (by simp [Loads.next])

theorem readerLoads_next (endFirst : Bool) {l' : Loads} (hl : ReaderLoads capacity q l)
    (h : l.next q endFirst = .inl l') : ReaderLoads capacity q l' := by
  have hle := hq.released_le.trans hq.returned_le
  cases l with
  | fresh =>
    cases endFirst <;> obtain rfl := Sum.inl.inj h
    · rfl
    · exact ⟨q.visible, hq.end_eq, hle, le_refl _⟩
  | gotStart s | gotEnd e => exact absurd h (by simp [Loads.next])

theorem writerLoads_room {endFirst : Bool} {st en : Nat} (hl : WriterLoads capacity q l)
    (h : l.next q endFirst = .inr (st, en)) (hfull : ¬ isFull (capacity + 1) st en) :
    q.visible < q.released + capacity := by
  have hle := hq.visible_le.trans hq.stored_le
  cases l with
  | fresh => exact absurd h (by simp [Loads.next])
  | gotStart s =>
    obtain ⟨k, rfl, hk, hkle⟩ := hl
    obtain ⟨rfl, rfl⟩ := Prod.mk.inj (Sum.inr.inj h)
    exact room_of_not_full hq hk hkle hfull
  | gotEnd e =>
    obtain rfl : e = q.end_ := hl
    obtain ⟨rfl, rfl⟩ := Prod.mk.inj (Sum.inr.inj h)
    exact room_of_not_full hq (le_refl _) hle (hq.start_eq ▸ hfull)

theorem readerLoads_avail {endFirst : Bool} {st en : Nat} (hl : ReaderLoads capacity q l)
    (h : l.next q endFirst = .inr (st, en)) (hempty : ¬ isEmpty st en) :
    q.released < q.visible := by
  have hle := hq.released_le.trans hq.returned_le
  cases l with
  | fresh => exact absurd h (by simp [Loads.next])
  | gotStart s =>
    obtain rfl : s = q.start := hl
    obtain ⟨rfl, rfl⟩ := Prod.mk.inj (Sum.inr.inj h)
    exact avail_of_not_empty hq hle (le_refl _) (hq.end_eq ▸ hempty)
  | gotEnd e =>
    obtain ⟨k, rfl, hk, hkle⟩ := hl
    obtain ⟨rfl, rfl⟩ := Prod.mk.inj (Sum.inr.inj h)
    exact avail_of_not_empty hq hk hkle hempty

end

theorem writerStep_inv [DecidableEq ω] (h : Inv capacity s) (w : ω) (op : WriteOp) (v : α)
    (endFirst lockFails : Bool) :
    Inv capacity (writerStep (capacity + 1) s w op v endFirst lockFails) := by
  generalize hpc : s.writers w = pc
  have hok : WriterOk capacity s.ring pc := hpc ▸ h.writer w
  have hheld := h.wheld w
  rw [hpc] at hheld
  rw [writerStep, hpc]
  cases pc with
  | idle =>
    split_ifs <;> exact setWriter_inv h hpc rfl trivial
  | early op v l =>
    dsimp only
    cases hl : l.next s.ring endFirst with
    | inl l' => exact setWriter_inv h hpc rfl trivial
    | inr p =>
      dsimp only
      split_ifs <;> exact setWriter_inv h hpc rfl trivial
  | lock op v =>
    dsimp only
    split_ifs with hfail hfree hop
    · exact setWriter_inv h hpc rfl trivial
    · exact lockWriter_inv h w hfree rfl ⟨h.wfree hfree, trivial⟩
    · exact lockWriter_inv h w hfree rfl ⟨h.wfree hfree, trivial⟩
    · exact h
  | tryFull v l =>
    dsimp only
    cases hl : l.next s.ring endFirst with
    | inl l' => exact setWriter_inv h hpc rfl ⟨hok.1, writerLoads_next h.ring endFirst hok.2 hl⟩
    | inr p =>
      dsimp only
      split_ifs with hfull
      · exact setWriter_inv h hpc rfl hok.1
      · exact setWriter_inv h hpc rfl ⟨hok.1, trivial⟩
  | waitForEmpty v l =>
    dsimp only
    cases hl : l.next s.ring endFirst with
    | inl l' => exact setWriter_inv h hpc rfl ⟨hok.1, writerLoads_next h.ring endFirst hok.2 hl⟩
    | inr p =>
      dsimp only
      split_ifs with hfull
      · exact setWriter_inv h hpc rfl ⟨hok.1, trivial⟩
      · exact setWriter_inv h hpc rfl ⟨hok.1, writerLoads_room h.ring hok.2 hl hfull⟩
  | loadEnd v =>
    exact setWriter_inv h hpc rfl ⟨hok.1, hok.2, rfl⟩
  | storeElement v e =>
    obtain ⟨hlen, hroom, rfl⟩ := hok
    have hw : s.wlock = some w := hheld.mp rfl
    refine writer_inv h w
      (store_inv h.ring v (by rw [h.ring.end_eq, hlen]) (by rw [hlen]; exact hroom))
      ⟨rfl, rfl, rfl, le_refl _⟩ ?_ (.inr hw) (iff_of_true rfl hw) (fun _ _ => Iff.rfl)
      (fun hn => absurd (hw.symm.trans hn) (by simp))
    simpa [WriterOk, RingQueue.store] using hlen
  | reloadEnd =>
    exact setWriter_inv h hpc rfl ⟨hok, rfl⟩
  | storeEnd e =>
    obtain ⟨hlen, rfl⟩ := hok
    have hw : s.wlock = some w := hheld.mp rfl
    refine writer_inv h w (setEnd_inv h.ring ?_) ⟨rfl, rfl, rfl, ?_⟩ rfl (.inr hw)
      (iff_of_true rfl hw) (fun _ _ => Iff.rfl)
      (fun hn => absurd (hw.symm.trans hn) (by simp))
    · rw [h.ring.end_eq, succ_mod_mod, hlen]
    · exact h.ring.visible_le
  | unlock =>
    have hw : s.wlock = some w := hheld.mp rfl
    refine writer_inv h w h.ring (aheadOf_refl _) trivial (.inl rfl) (by simp [writerHolds])
      (fun u hu => ?_) (fun _ => hok)
    simp [hw, Ne.symm hu]

theorem readerStep_inv [DecidableEq ρ] (h : Inv capacity s) (r : ρ) (op : ReadOp)
    (endFirst lockFails : Bool) :
    Inv capacity (readerStep (capacity + 1) s r op endFirst lockFails) := by
  generalize hpc : s.readers r = pc
  have hok : ReaderOk capacity s.ring s.answered pc := hpc ▸ h.reader r
  have hheld := h.rheld r
  rw [hpc] at hheld
  rw [readerStep, hpc]
  cases pc with
  | idle =>
    split_ifs <;> exact setReader_inv h hpc rfl trivial
  | early op l =>
    dsimp only
    cases hl : l.next s.ring endFirst with
    | inl l' => exact setReader_inv h hpc rfl trivial
    | inr p =>
      dsimp only
      split_ifs <;> exact setReader_inv h hpc rfl trivial
  | lock op =>
    dsimp only
    split_ifs with hfail hfree hop
    · exact setReader_inv h hpc rfl trivial
    · exact lockReader_inv h r hfree rfl ⟨(h.rfree hfree).1, (h.rfree hfree).2, trivial⟩
    · exact lockReader_inv h r hfree rfl ⟨(h.rfree hfree).1, (h.rfree hfree).2, trivial⟩
    · exact h
  | tryEmpty l =>
    dsimp only
    cases hl : l.next s.ring endFirst with
    | inl l' =>
      exact setReader_inv h hpc rfl ⟨hok.1, hok.2.1, readerLoads_next h.ring endFirst hok.2.2 hl⟩
    | inr p =>
      dsimp only
      split_ifs with hempty
      · exact setReader_inv h hpc rfl ⟨hok.1, by simpa using hok.2.1⟩
      · exact setReader_inv h hpc rfl ⟨hok.1, hok.2.1, trivial⟩
  | waitForFull l =>
    dsimp only
    cases hl : l.next s.ring endFirst with
    | inl l' =>
      exact setReader_inv h hpc rfl ⟨hok.1, hok.2.1, readerLoads_next h.ring endFirst hok.2.2 hl⟩
    | inr p =>
      dsimp only
      split_ifs with hempty
      · exact setReader_inv h hpc rfl ⟨hok.1, hok.2.1, trivial⟩
      · exact setReader_inv h hpc rfl ⟨hok.1, hok.2.1, readerLoads_avail h.ring hok.2.2 hl hempty⟩
  | loadStart =>
    exact setReader_inv h hpc rfl ⟨hok.1, hok.2.1, hok.2.2, rfl⟩
  | loadElement i =>
    obtain ⟨hlen, hans, havail, rfl⟩ := hok
    have hr : s.rlock = some r := hheld.mp rfl
    refine reader_inv h r
      (load_inv h.ring (by rw [h.ring.start_eq, hlen]) (by rw [hlen]; exact havail))
      ⟨rfl, rfl, rfl, le_refl _⟩ ⟨?_, ?_⟩ (.inr hr) (iff_of_true rfl hr)
      (fun _ _ => Iff.rfl)
      (fun hn => absurd (hr.symm.trans hn) (by simp))
    · simpa [RingQueue.load] using hlen
    · exact congrArg (· ++ [s.ring.elements s.ring.start]) hans
  | reloadStart v =>
    exact setReader_inv h hpc rfl ⟨hok.1, hok.2, rfl⟩
  | storeStart v i =>
    obtain ⟨hlen, hans, rfl⟩ := hok
    have hr : s.rlock = some r := hheld.mp rfl
    refine reader_inv h r (setStart_inv h.ring ?_) ⟨rfl, rfl, rfl, ?_⟩ ⟨rfl, hans⟩ (.inr hr)
      (iff_of_true rfl hr) (fun _ _ => Iff.rfl)
      (fun hn => absurd (hr.symm.trans hn) (by simp))
    · rw [h.ring.start_eq, succ_mod_mod, hlen]
    · exact h.ring.released_le
  | unlock v =>
    have hr : s.rlock = some r := hheld.mp rfl
    refine reader_inv h r h.ring (drainedFrom_refl _) trivial (.inr hr) (by simp [readerHolds])
      (fun u hu => ?_) (fun _ => hok)
    simp [hr, Ne.symm hu]

theorem run_inv [DecidableEq ω] [DecidableEq ρ] (capacity : Nat) (memory : Nat → α)
    (schedule : List (Action ω ρ α)) : Inv capacity (run capacity memory schedule) := by
  refine Schedule.run_inv (Inv capacity) (fun s a h => ?_) (init_inv capacity memory) schedule
  cases a with
  | writer w op v endFirst lockFails => exact writerStep_inv h w op v endFirst lockFails
  | reader r op endFirst lockFails => exact readerStep_inv h r op endFirst lockFails

theorem answered_returned (h : Inv capacity s) : s.answered <+: s.ring.returned := by
  cases hr : s.rlock with
  | none => exact (h.rfree hr).2 ▸ List.prefix_rfl
  | some r =>
    have hok := h.reader r
    have hheld := (h.rheld r).mpr hr
    cases hpc : s.readers r with
    | idle | early | lock => simp [hpc, readerHolds] at hheld
    | tryEmpty | waitForFull | loadStart | loadElement =>
      rw [hpc] at hok
      exact hok.2.1 ▸ List.prefix_rfl
    | reloadStart | unlock =>
      rw [hpc] at hok
      exact ⟨_, hok.2.symm⟩
    | storeStart =>
      rw [hpc] at hok
      exact ⟨_, hok.2.1.symm⟩

/-- Reads return what was written, in order, and the buffer never holds more than its capacity. -/
theorem ringbuffer_fifo [DecidableEq ω] [DecidableEq ρ] (capacity : Nat) (memory : Nat → α)
    (schedule : List (Action ω ρ α)) :
    (run capacity memory schedule).answered <+: (run capacity memory schedule).ring.stored ∧
      (run capacity memory schedule).ring.stored.length ≤
        (run capacity memory schedule).ring.released + capacity := by
  have h := run_inv capacity memory schedule
  exact ⟨(answered_returned h).trans h.ring.fifo, h.ring.stored_le⟩

example : (run 1 (fun _ => 0) (List.replicate 9 (.writer () .swrite 7 false false) ++
    List.replicate 9 (.reader () .sread true false))).answered = [7] := by
  decide

end Libtrace.RingBufferFifo
