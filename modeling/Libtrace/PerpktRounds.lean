import Libtrace.PerpktReaders

/-! Rounds of the loop of a per-packet thread: the array stays full except where the callback has
kept packets of an unfinished batch. -/

namespace Libtrace.PerpktRounds
open HasherRead BatchDispatch PerpktLoop PerpktReaders

variable {α : Type}

section

variable {cfg : Config} {l : Loop α}

structure Good (cfg : Config) (l : Loop α) (array : Nat → Option (Packet α)) : Prop where
  compacted : Compacted array l.batch
  offset_le : l.batch.offset ≤ l.nbPackets
  full : Full array l.nbPackets
  ready : Ready cfg array
  noData : NoData l.formatData

variable {array : Nat → Option (Packet α)}

theorem refill_ready (h : Good cfg l array) (hdone : l.batch.offset = l.nbPackets)
    (fresh : Nat → Packet α) : Ready cfg (refill fresh l) := by
  intro hreader i hi
  unfold refill
  split_ifs with hempty
  · exact ⟨fresh i, rfl⟩
  · rcases Nat.lt_or_ge i l.batch.empty with hlt | hge
    · rw [h.compacted.front i hlt]
      exact ⟨_, List.getElem?_eq_getElem (h.compacted.empty_eq ▸ hlt)⟩
    · rw [h.compacted.rest i (by omega)]
      exact h.ready hreader i hi

theorem firstSlot (h : Good cfg l array) (hlt : l.batch.offset < l.nbPackets) :
    l.batch.packets 0 = none ↔ l.batch.sent ≠ [] ∧ ∀ x ∈ l.batch.sent, x.2 = none := by
  have hkept : l.batch.empty = 0 ↔ ∀ x ∈ l.batch.sent, x.2 = none := by
    rw [h.compacted.empty_eq, List.length_eq_zero_iff, Batch.returned, List.filterMap_eq_nil_iff]
  have hsent : l.batch.sent ≠ [] ↔ 0 < l.batch.offset := by
    rw [← h.compacted.sent_length, List.length_pos_iff]
  rw [hsent, ← hkept]
  constructor
  · intro hnone
    refine ⟨Nat.pos_of_ne_zero fun hzero => ?_, Nat.eq_zero_of_not_pos fun hpos => ?_⟩
    · obtain ⟨p, hp⟩ := h.full 0 (by omega)
      rw [h.compacted.rest 0 (by omega), hp] at hnone
      cases hnone
    · rw [h.compacted.front 0 hpos, List.getElem?_eq_none_iff, ← h.compacted.empty_eq] at hnone
      omega
  · rintro ⟨hpos, hempty⟩
    exact h.compacted.hole 0 (by omega) hpos

theorem dispatchPackets_good (h : Good cfg l array) (cb : MessagePacket α) (tracetime : Bool)
    (delayed : Nat → Bool) :
    dispatchPackets cb l.nbPackets tracetime delayed l.batch = .error .assertion ∨
      ∃ ret b, dispatchPackets cb l.nbPackets tracetime delayed l.batch = .ok (ret, b) ∧
        Compacted array b ∧ b.offset ≤ l.nbPackets := by
  have hnext (b : Batch α) (hb : Compacted array b) (hlt : b.offset < l.nbPackets) :
      ∃ p, array b.offset = some p ∧ b.packets b.offset = some p := by
    obtain ⟨p, hp⟩ := h.full b.offset hlt
    exact ⟨p, hp, (hb.rest _ (Nat.le_refl _)).trans hp⟩
  obtain ⟨-, hrun⟩ | ⟨ret, b, hrun, hb, hret⟩ := dispatchFrom_rule cb tracetime delayed
    (Compacted array) True
    (fun b hb hlt => by
      obtain ⟨p, -, hp⟩ := hnext b hb hlt
      exact ⟨p, hp, .inr trivial⟩)
    (fun b p accepted hb hlt hp => by
      obtain ⟨q, harray, hq⟩ := hnext b hb hlt
      obtain rfl := Option.mem_unique hp hq
      exact hb.next harray _ accepted)
    (l.nbPackets - l.batch.offset) h.compacted (by have := h.offset_le; omega)
  · exact .inl hrun
  · exact .inr ⟨ret, b, hrun, hb, by omega⟩

def GoesOn (cfg : Config) (m : Except Fault (Loop α)) : Prop :=
  m = .error .assertion ∨ ∃ l, m = .ok l ∧ (l.left = true ∨ ∃ array, Good cfg l array)

theorem handle_goesOn (h : Good cfg l array) (t : Turn α) {p : Packet α}
    (hp : l.batch.packets 0 = some p) : GoesOn cfg (handle cfg t l) := by
  rw [handle, slot_some hp, Exec.ok_bind]
  obtain hrun | ⟨ret, b, hrun, hb, hle⟩ := dispatchPackets_good h t.cb cfg.tracetime t.delayed
  · rw [hrun]
    exact .inl rfl
  · rw [hrun]
    exact .inr ⟨_, rfl, .inr ⟨array, hb, hle, h.full, h.ready, h.noData⟩⟩

theorem readBatch_goesOn (h : Good cfg l array) (hdone : l.batch.offset = l.nbPackets)
    (t : Turn α) (hret : cfg.reader = .wrapper → t.supply.ret ≤ cfg.burstSize) :
    GoesOn cfg (readBatch cfg t l) := by
  obtain hrun | ⟨nb, packets, formatData, hrun, hnb, hfull, hready, hdata⟩ :=
    pread_ready cfg t.supply l (refill_ready h hdone t.fresh) hret h.noData
  · rw [readBatch, hrun]
    exact .inr ⟨_, rfl, .inl rfl⟩
  · rw [readBatch, hrun, Exec.ok_bind]
    dsimp only
    have hstart : Compacted packets
        { Batch.start packets with acceptedPackets := l.batch.acceptedPackets } :=
      ⟨rfl, rfl, (compacted_start packets).front, (compacted_start packets).hole, fun _ _ => rfl⟩
    split_ifs with hpos hmessage
    · obtain ⟨p, hp⟩ := hfull 0 (by omega)
      exact handle_goesOn ⟨hstart, Nat.zero_le _, hfull, hready, hdata⟩ t hp
    · exact .inr ⟨_, rfl, .inr ⟨packets, hstart, Nat.zero_le _,
        fun i hi => absurd hi (Nat.not_lt_zero i), hready, hdata⟩⟩
    · exact .inr ⟨_, rfl, .inl rfl⟩

/-- The loop comes to an interrupted batch with an empty first slot. -/
def Trips (l : Loop α) (e : Event α) : Prop := Stranded l ∧ ∃ t, e = .turn t

theorem step_trips (h : Good cfg l array) {e : Event α} (htrips : Trips l e) :
    step cfg l e = .error .nullPointer := by
  obtain ⟨⟨hleft, hlt, hkept⟩, t, rfl⟩ := htrips
  have hnone := (firstSlot h hlt).mpr hkept
  rw [step, hleft]
  simp only [Bool.false_eq_true, if_false]
  rw [if_neg (by omega), handle, slot, hnone]
  rfl

theorem step_goesOn (h : l.left = true ∨ ∃ array, Good cfg l array) {e : Event α}
    (hfits : Fits cfg e) (hgo : ¬ Trips l e) : GoesOn cfg (step cfg l e) := by
  cases hleft : l.left with
  | true =>
    have hstays : step cfg l e = .ok l := by simp [step, hleft]
    exact .inr ⟨l, hstays, .inl hleft⟩
  | false =>
    obtain ⟨array, hgood⟩ := h.resolve_left (by rw [hleft]; exact Bool.false_ne_true)
    unfold step
    rw [hleft]
    simp only [Bool.false_eq_true, if_false]
    cases e with
    | message => exact .inr ⟨l, rfl, .inr ⟨array, hgood⟩⟩
    | stop => exact .inr ⟨_, rfl, .inl rfl⟩
    | pause cb paused =>
      dsimp only
      obtain hrun | ⟨ret, b, hrun, hb, hle⟩ := dispatchPackets_good hgood cb false fun _ => false
      · rw [hrun]
        exact .inl rfl
      · rw [hrun]
        exact .inr ⟨_, rfl, .inr ⟨array, hb, hle, hgood.full, hgood.ready, fun _ h => by cases h⟩⟩
    | turn t =>
      split_ifs with hdone
      · exact readBatch_goesOn hgood hdone t hfits
      · have hlt : l.batch.offset < l.nbPackets := by
          have := hgood.offset_le
          omega
        cases hslot : l.batch.packets 0 with
        | none => exact absurd ⟨⟨hleft, hlt, (firstSlot hgood hlt).mp hslot⟩, t, rfl⟩ hgo
        | some p => exact handle_goesOn hgood t hslot

theorem strandedIn_cons {e : Event α} {rest : List (Event α)} :
    StrandedIn cfg (e :: rest) l ↔
      Trips l e ∨ ∃ l', step cfg l e = .ok l' ∧ StrandedIn cfg rest l' := by
  constructor
  · rintro ⟨before, t, after, l', hevents, hrun, hstranded⟩
    cases before with
    | nil =>
      obtain ⟨rfl, -⟩ := List.cons.inj hevents
      obtain rfl := Except.ok.inj hrun
      exact .inl ⟨hstranded, t, rfl⟩
    | cons e' before =>
      obtain ⟨rfl, rfl⟩ := List.cons.inj hevents
      obtain ⟨l₁, hstep, hrun⟩ := Exec.except_bind_ok.mp hrun
      exact .inr ⟨l₁, hstep, before, t, after, l', rfl, hrun, hstranded⟩
  · rintro (⟨hstranded, t, rfl⟩ | ⟨l₁, hstep, before, t, after, l', rfl, hrun, hstranded⟩)
    · exact ⟨[], t, rest, l, rfl, rfl, hstranded⟩
    · exact ⟨e :: before, t, after, l', rfl, by rw [run, hstep]; exact hrun, hstranded⟩

theorem run_nullPointer_iff (events : List (Event α)) (hfits : ∀ e ∈ events, Fits cfg e)
    (h : l.left = true ∨ ∃ array, Good cfg l array) :
    run cfg events l = .error .nullPointer ↔ StrandedIn cfg events l := by
  induction events generalizing l with
  | nil =>
    refine iff_of_false nofun ?_
    rintro ⟨before, t, after, l', hevents, -⟩
    cases before <;> cases hevents
  | cons e rest ih =>
    rw [strandedIn_cons, run]
    by_cases htrips : Trips l e
    · obtain ⟨array, hgood⟩ := h.resolve_left (by rw [htrips.1.1]; exact Bool.false_ne_true)
      rw [step_trips hgood htrips]
      exact iff_of_true rfl (.inl htrips)
    · obtain hstep | ⟨l', hstep, h'⟩ := step_goesOn h (hfits e List.mem_cons_self) htrips
      · rw [hstep]
        refine iff_of_false nofun ?_
        rintro (h | ⟨l', h, -⟩)
        · exact htrips h
        · cases h
      · rw [hstep, Exec.ok_bind, ih (fun e he => hfits e (List.mem_cons_of_mem _ he)) h']
        refine ⟨fun h => .inr ⟨l', rfl, h⟩, ?_⟩
        rintro (h | ⟨l'', h, hrest⟩)
        · exact absurd h htrips
        · rwa [Except.ok.inj h]

theorem init_good (cfg : Config) (fresh : Nat → Packet α) :
    Good cfg (Loop.init cfg fresh) (Loop.init cfg fresh).batch.packets where
  compacted := compacted_start _
  offset_le := Nat.le_refl _
  full := fun i hi => absurd hi (Nat.not_lt_zero i)
  ready := fun _ i hi => ⟨fresh i, if_pos hi⟩
  noData := fun _ h => by cases h

/-- No empty slot is used unless a batch is resumed all of whose packets so far were kept. -/
theorem loop_usesNoEmptySlot_iff (cfg : Config) (fresh : Nat → Packet α) (events : List (Event α))
    (hfits : ∀ e ∈ events, Fits cfg e) :
    run cfg events (Loop.init cfg fresh) ≠ .error .nullPointer ↔
      ¬ StrandedIn cfg events (Loop.init cfg fresh) :=
  not_congr (run_nullPointer_iff events hfits (.inr ⟨_, init_good cfg fresh⟩))

end

def playback : Config := ⟨2, by decide, .firstInFirstServed, true⟩

def interrupted (cb : MessagePacket Nat) : Turn Nat where
  fresh i := ⟨0, i⟩
  supply := ⟨fun i => ⟨1500, i⟩, fun _ => false, 0, [], 0⟩
  cb := cb
  delayed i := i = 1

theorem returning_safe :
    ¬ StrandedIn playback [.turn (interrupted none), .message, .turn (interrupted none)]
      (Loop.init playback fun i => ⟨0, i⟩) := by
  refine (loop_usesNoEmptySlot_iff playback _ _ (by simp [Fits, playback])).mp fun hnull => ?_
  have hok : (run playback [.turn (interrupted none), .message, .turn (interrupted none)]
    (Loop.init playback fun i => ⟨0, i⟩)).toOption.isSome = true := rfl
  rw [hnull] at hok
  cases hok

/-- The callback keeps the first packet. -/
theorem keeping_crashes :
    run playback [.turn (interrupted (some fun _ _ => none)), .message,
        .turn (interrupted (some fun _ _ => none))] (Loop.init playback fun i => ⟨0, i⟩) =
      .error .nullPointer := rfl

end Libtrace.PerpktRounds
