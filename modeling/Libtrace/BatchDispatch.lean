import Libtrace.HasherRead

/-! `dispatch_packets` of `trace_parallel.c`: a per-packet thread sends the packets of a batch to
the user and moves what comes back to the front of its array. It can be interrupted before any
packet. -/

namespace Libtrace.BatchDispatch
open HasherRead Function

variable {α : Type}

inductive Fault where
  | nullPointer
  | assertion
  deriving DecidableEq, Repr

structure Batch (α : Type) where
  packets : Nat → Option (Packet α)
  empty : Nat
  offset : Nat
  acceptedPackets : Nat
  /-- The packets that were dispatched, each with what its slot had then. -/
  sent : List (Packet α × Option (Packet α))

section

abbrev MessagePacket (α : Type) := Option (Nat → Packet α → Option (Packet α))

def MessagePacket.call (cb : MessagePacket α) (offset : Nat) (p : Packet α) : Option (Packet α) :=
  match cb with
  | some f => f offset p
  | none => some p

/-- `delayed` says at which offsets a message interrupts `delay_tracetime`. -/
def dispatchPacket (cb : MessagePacket α) (tracetime : Bool) (delayed : Nat → Bool) (b : Batch α) :
    Except Fault (Int × Batch α) :=
  match b.packets b.offset with
  | none => .error .nullPointer
  | some p =>
    if p.error > 0 then
      if tracetime && delayed b.offset then .ok (readMessage, b)
      else
        let left := cb.call b.offset p
        .ok (0, { b with
          packets := update b.packets b.offset left
          acceptedPackets := b.acceptedPackets + 1
          sent := b.sent ++ [(p, left)] })
    else if p.error = readTick then .ok (0, { b with sent := b.sent ++ [(p, some p)] })
    else .error .assertion

def Batch.moveToFront (b : Batch α) : Batch α :=
  match b.packets b.offset with
  | some p =>
    { b with
      packets := if b.empty ≠ b.offset then
          update (update b.packets b.empty (some p)) b.offset none
        else b.packets
      empty := b.empty + 1 }
  | none => b

def dispatchFrom (cb : MessagePacket α) (tracetime : Bool) (delayed : Nat → Bool) :
    Nat → Batch α → Except Fault (Int × Batch α)
  | 0, b => .ok (0, b)
  | left + 1, b => do
    let (ret, b) ← dispatchPacket cb tracetime delayed b
    if ret = 0 then
      dispatchFrom cb tracetime delayed left { b.moveToFront with offset := b.offset + 1 }
    else if ret = readMessage then .ok (readMessage, b)
    else .error .assertion

def dispatchPackets (cb : MessagePacket α) (nbPackets : Nat) (tracetime : Bool)
    (delayed : Nat → Bool) (b : Batch α) : Except Fault (Int × Batch α) :=
  dispatchFrom cb tracetime delayed (nbPackets - b.offset) b

def dispatchCalls (cb : MessagePacket α) (nbPackets : Nat) :
    List (Bool × (Nat → Bool)) → Batch α → Except Fault (Batch α)
  | [], b => .ok b
  | (tracetime, delayed) :: rest, b => do
    let (_, b) ← dispatchPackets cb nbPackets tracetime delayed b
    dispatchCalls cb nbPackets rest b

end

section

def staysAs (cb : MessagePacket α) (offset : Nat) (p : Packet α) : Option (Packet α) :=
  if p.error > 0 then cb.call offset p else some p

def Batch.returned (b : Batch α) : List (Packet α) := b.sent.filterMap Prod.snd

structure Compacted (array : Nat → Option (Packet α)) (b : Batch α) : Prop where
  inOrder : b.sent.map (fun x => some x.1) = (List.range b.offset).map array
  empty_eq : b.empty = b.returned.length
  front : ∀ i < b.empty, b.packets i = b.returned[i]?
  hole : ∀ i, b.empty ≤ i → i < b.offset → b.packets i = none
  rest : ∀ i, b.offset ≤ i → b.packets i = array i

def Sendable (p : Packet α) : Prop := 0 < p.error ∨ p.error = readTick

def Batch.start (array : Nat → Option (Packet α)) : Batch α := ⟨array, 0, 0, 0, []⟩

/-- Each packet up to the offset was dispatched once, in order, and its slot then had what the
callback returned. -/
def SentOnce (cb : MessagePacket α) (input : List (Packet α)) (b : Batch α) : Prop :=
  b.offset ≤ input.length ∧
    b.sent = (input.take b.offset).zipIdx.map fun x => (x.1, staysAs cb x.2 x.1)

end

section

variable {array : Nat → Option (Packet α)} {b : Batch α}

theorem compacted_start (array : Nat → Option (Packet α)) :
    Compacted array (Batch.start array) where
  inOrder := rfl
  empty_eq := rfl
  front i hi := absurd hi (Nat.not_lt_zero i)
  hole i _ hi := absurd hi (Nat.not_lt_zero i)
  rest _ _ := rfl

theorem Compacted.sent_length (h : Compacted array b) : b.sent.length = b.offset := by
  simpa using congrArg List.length h.inOrder

theorem Compacted.empty_le (h : Compacted array b) : b.empty ≤ b.offset := by
  rw [h.empty_eq, ← h.sent_length]
  exact List.length_filterMap_le _ _

theorem Compacted.extend (h : Compacted array b) {b' : Batch α} {p : Packet α}
    {left : Option (Packet α)} (hp : array b.offset = some p) (hoffset : b'.offset = b.offset + 1)
    (hsent : b'.sent = b.sent ++ [(p, left)]) (hempty : b'.empty = b.empty + left.toList.length)
    (hpackets : ∀ i, b'.packets i =
      if i = b.empty ∧ left.isSome then left else if i = b.offset then none else b.packets i) :
    Compacted array b' := by
  have hle := h.empty_le
  have hreturned : b'.returned = b.returned ++ left.toList := by
    rw [Batch.returned, hsent]
    cases left <;> simp [Batch.returned]
  refine ⟨?_, ?_, fun i hi => ?_, fun i hlow hi => ?_, fun i hi => ?_⟩
  · rw [hsent, hoffset, List.range_succ, List.map_append, List.map_append, h.inOrder,
      List.map_singleton, List.map_singleton, hp]
  · rw [hempty, hreturned, List.length_append, h.empty_eq]
  · rw [hpackets, hreturned]
    rcases Nat.lt_or_ge i b.empty with hlt | hge
    · rw [if_neg (by omega), if_neg (by omega), h.front i hlt,
        List.getElem?_append_left (by rw [← h.empty_eq]; exact hlt)]
    · -- the slot that was just filled
      cases left with
      | none =>
        rw [hempty] at hi
        exact absurd hi (by simpa using hge)
      | some q =>
        have hi' : i = b.returned.length := by
          rw [hempty] at hi
          simp only [Option.toList_some, List.length_singleton] at hi
          have := h.empty_eq
          omega
        rw [if_pos ⟨hi'.trans h.empty_eq.symm, rfl⟩, hi',
          List.getElem?_append_right (Nat.le_refl _), Nat.sub_self]
        rfl
  · rw [hoffset] at hi
    rw [hempty] at hlow
    rw [hpackets]
    split_ifs with hfirst hlast
    · cases left with
      | none => cases hfirst.2
      | some q =>
        simp only [Option.toList_some, List.length_singleton] at hlow
        omega
    · rfl
    · exact h.hole i (by omega) (by omega)
  · rw [hoffset] at hi
    rw [hpackets, if_neg (by omega), if_neg (by omega)]
    exact h.rest i (by omega)

def Batch.dispatched (b : Batch α) (p : Packet α) (left : Option (Packet α)) (accepted : Nat) :
    Batch α :=
  { b with
    packets := update b.packets b.offset left
    acceptedPackets := accepted
    sent := b.sent ++ [(p, left)] }

def Batch.next (b : Batch α) : Batch α := { b.moveToFront with offset := b.offset + 1 }

theorem Compacted.next (h : Compacted array b) {p : Packet α} (hp : array b.offset = some p)
    (left : Option (Packet α)) (accepted : Nat) :
    Compacted array (b.dispatched p left accepted).next := by
  cases left with
  | none =>
    have hsame : (b.dispatched p none accepted).moveToFront = b.dispatched p none accepted := by
      simp [Batch.moveToFront, Batch.dispatched]
    have hempty : (b.dispatched p none accepted).next.empty = b.empty := by
      rw [Batch.next, hsame]
      rfl
    refine h.extend hp rfl (congrArg Batch.sent hsame) hempty fun i => ?_
    rw [if_neg (by simp)]
    exact (congrFun (congrArg Batch.packets hsame) i).trans (update_apply _ _ _ _)
  | some q =>
    have hmove : (b.dispatched p (some q) accepted).moveToFront =
        { b.dispatched p (some q) accepted with
          packets := if b.empty ≠ b.offset then update (update
              (update b.packets b.offset (some q)) b.empty (some q)) b.offset none
            else update b.packets b.offset (some q)
          empty := b.empty + 1 } := by
      simp only [Batch.moveToFront, Batch.dispatched, update_self]
      rfl
    refine h.extend hp rfl (congrArg Batch.sent hmove) (congrArg Batch.empty hmove) fun i => ?_
    refine (congrFun (congrArg Batch.packets hmove) i).trans ?_
    by_cases hsame : b.empty = b.offset
    · simp only [hsame, ne_eq, not_true_eq_false, if_false, update_apply]
      split_ifs <;> simp_all
    · simp only [hsame, ne_eq, not_false_eq_true, if_true, update_apply]
      split_ifs <;> simp_all

end

section

variable {cb : MessagePacket α} {tracetime : Bool} {delayed : Nat → Bool} {b : Batch α}

theorem dispatchPacket_sendable (cb : MessagePacket α) (tracetime : Bool) (delayed : Nat → Bool)
    {p : Packet α} (hp : b.packets b.offset = some p) (hok : Sendable p) :
    tracetime = true ∧ dispatchPacket cb tracetime delayed b = .ok (readMessage, b) ∨
      ∃ accepted, dispatchPacket cb tracetime delayed b =
        .ok (0, b.dispatched p (staysAs cb b.offset p) accepted) := by
  simp only [dispatchPacket, hp]
  rcases hok with hdata | htick
  · rw [if_pos hdata]
    by_cases hdelay : (tracetime && delayed b.offset) = true
    · rw [if_pos hdelay]
      exact .inl ⟨(Bool.and_eq_true_iff.mp hdelay).1, rfl⟩
    · rw [if_neg hdelay]
      refine .inr ⟨b.acceptedPackets + 1, ?_⟩
      rw [staysAs, if_pos hdata]
      rfl
  · have hneg : ¬ p.error > 0 := by rw [htick]; decide
    rw [if_neg hneg, if_pos htick]
    refine .inr ⟨b.acceptedPackets, ?_⟩
    rw [staysAs, if_neg hneg, Batch.dispatched, ← hp, update_eq_self]

theorem dispatchPacket_assertion {p : Packet α} (hp : b.packets b.offset = some p)
    (hok : ¬ Sendable p) : dispatchPacket cb tracetime delayed b = .error .assertion := by
  rw [Sendable, not_or] at hok
  simp only [dispatchPacket, hp]
  rw [if_neg hok.1, if_neg hok.2]

theorem dispatchFrom_rule (cb : MessagePacket α) (tracetime : Bool) (delayed : Nat → Bool)
    (I : Batch α → Prop) (E : Prop) {nb : Nat}
    (hslot : ∀ b, I b → b.offset < nb → ∃ p, b.packets b.offset = some p ∧ (Sendable p ∨ E))
    (hstep : ∀ b p accepted, I b → b.offset < nb → b.packets b.offset = some p →
      I (b.dispatched p (staysAs cb b.offset p) accepted).next)
    (left : Nat) (hb : I b) (hleft : b.offset + left = nb) :
    E ∧ dispatchFrom cb tracetime delayed left b = .error .assertion ∨
      ∃ ret b', dispatchFrom cb tracetime delayed left b = .ok (ret, b') ∧ I b' ∧
        (ret = 0 ∧ b'.offset = nb ∨ tracetime = true ∧ ret = readMessage ∧ b'.offset < nb) := by
  induction left generalizing b with
  | zero => exact .inr ⟨0, b, rfl, hb, .inl ⟨rfl, hleft⟩⟩
  | succ left ih =>
    have hlt : b.offset < nb := by omega
    obtain ⟨p, hp, hok⟩ := hslot b hb hlt
    by_cases hsend : Sendable p
    · obtain ⟨htime, hmessage⟩ | ⟨accepted, hsent⟩ :=
        dispatchPacket_sendable cb tracetime delayed hp hsend
      · exact .inr ⟨readMessage, b, by rw [dispatchFrom, hmessage]; rfl, hb,
          .inr ⟨htime, rfl, hlt⟩⟩
      · have hnext : dispatchFrom cb tracetime delayed (left + 1) b = dispatchFrom cb tracetime
            delayed left (b.dispatched p (staysAs cb b.offset p) accepted).next := by
          rw [dispatchFrom, hsent]
          rfl
        rw [hnext]
        exact ih (hstep b p accepted hb hlt hp)
          (show b.offset + 1 + left = nb by omega)
    · refine .inl ⟨hok.resolve_left hsend, ?_⟩
      rw [dispatchFrom, dispatchPacket_assertion hp hsend]
      rfl

end

section

variable {cb : MessagePacket α} {array : Nat → Option (Packet α)} {input : List (Packet α)}
  {b : Batch α}

theorem sentOnce_next (h : SentOnce cb input b) {p : Packet α} (hp : input[b.offset]? = some p)
    (accepted : Nat) :
    SentOnce cb input (b.dispatched p (staysAs cb b.offset p) accepted).next := by
  obtain ⟨hle, hsent⟩ := h
  obtain ⟨hlt, hget⟩ := List.getElem?_eq_some_iff.mp hp
  refine ⟨hlt, ?_⟩
  have hmoved : (b.dispatched p (staysAs cb b.offset p) accepted).next.sent =
      b.sent ++ [(p, staysAs cb b.offset p)] := by
    simp only [Batch.next, Batch.moveToFront]
    split <;> rfl
  rw [hmoved, hsent]
  show _ = (input.take (b.offset + 1)).zipIdx.map _
  rw [List.take_add_one, hp, Option.toList_some, List.zipIdx_append, List.map_append,
    List.length_take, Nat.min_eq_left hle]
  simp

def Between (cb : MessagePacket α) (array : Nat → Option (Packet α)) (input : List (Packet α))
    (b : Batch α) : Prop :=
  SentOnce cb input b ∧ Compacted array b

section

variable (harray : ∀ i p, input[i]? = some p → array i = some p) (hok : ∀ p ∈ input, Sendable p)
  (h : Between cb array input b)
include harray hok h

theorem dispatchPackets_between (tracetime : Bool) (delayed : Nat → Bool) :
    ∃ ret b', dispatchPackets cb input.length tracetime delayed b = .ok (ret, b') ∧
      Between cb array input b' ∧ (ret = 0 ∧ b'.offset = input.length ∨
        tracetime = true ∧ ret = readMessage ∧ b'.offset < input.length) := by
  have hnext (b : Batch α) (hb : Between cb array input b) (hlt : b.offset < input.length) :
      ∃ p, input[b.offset]? = some p ∧ b.packets b.offset = some p ∧ array b.offset = some p ∧
        p ∈ input := by
    refine ⟨_, List.getElem?_eq_getElem hlt, ?_, ?_, List.getElem_mem hlt⟩
    · rw [hb.2.rest _ (Nat.le_refl _)]
      exact harray _ _ (List.getElem?_eq_getElem hlt)
    · exact harray _ _ (List.getElem?_eq_getElem hlt)
  obtain ⟨hfalse, -⟩ | hrun := dispatchFrom_rule cb tracetime delayed (Between cb array input) False
    (fun b hb hlt => by
      obtain ⟨p, -, hp, -, hmem⟩ := hnext b hb hlt
      exact ⟨p, hp, .inl (hok p hmem)⟩)
    (fun b p accepted hb hlt hp => by
      obtain ⟨q, hq, hq', harr, -⟩ := hnext b hb hlt
      obtain rfl := Option.mem_unique hp hq'
      exact ⟨sentOnce_next hb.1 hq accepted, hb.2.next harr _ accepted⟩)
    (input.length - b.offset) h (by have := h.1.1; omega)
  · exact hfalse.elim
  · exact hrun

theorem dispatchCalls_between (calls : List (Bool × (Nat → Bool))) :
    ∃ b', dispatchCalls cb input.length calls b = .ok b' ∧ Between cb array input b' := by
  induction calls generalizing b with
  | nil => exact ⟨b, rfl, h⟩
  | cons call rest ih =>
    obtain ⟨ret, b₁, hrun, h₁, -⟩ := dispatchPackets_between harray hok h call.1 call.2
    obtain ⟨b', hrest, h'⟩ := ih h₁
    refine ⟨b', ?_, h'⟩
    rw [dispatchCalls, hrun]
    exact hrest

end

theorem dispatchPackets_compacts (cb : MessagePacket α) {array : Nat → Option (Packet α)}
    {input : List (Packet α)} (harray : ∀ i p, input[i]? = some p → array i = some p)
    (hok : ∀ p ∈ input, Sendable p) (calls : List (Bool × (Nat → Bool))) (tracetime : Bool)
    (delayed : Nat → Bool) :
    ∃ b ret b', dispatchCalls cb input.length calls (.start array) = .ok b ∧
      dispatchPackets cb input.length tracetime delayed b = .ok (ret, b') ∧
      SentOnce cb input b' ∧ Compacted array b' ∧
      (ret = 0 ∧ b'.offset = input.length ∨
        tracetime = true ∧ ret = readMessage ∧ b'.offset < input.length) := by
  have hstart : Between cb array input (.start array) :=
    ⟨⟨Nat.zero_le _, rfl⟩, compacted_start array⟩
  obtain ⟨b, hcalls, hb⟩ := dispatchCalls_between harray hok hstart calls
  obtain ⟨ret, b', hrun, hb', hret⟩ := dispatchPackets_between harray hok hb tracetime delayed
  exact ⟨b, ret, b', hcalls, hrun, hb'.1, hb'.2, hret⟩

end

def threePackets : List (Packet Nat) := [⟨1500, 0⟩, ⟨readTick, 1⟩, ⟨1500, 2⟩]

theorem threePackets_compacts :
    ∃ b ret b', dispatchCalls (some fun i p => if i = 0 then none else some p) 3
        [(true, (· = 2))] (.start (threePackets[·]?)) = .ok b ∧
      dispatchPackets (some fun i p => if i = 0 then none else some p) 3 true (fun _ => false) b =
        .ok (ret, b') ∧
      SentOnce (some fun i p => if i = 0 then none else some p) threePackets b' ∧
      Compacted (threePackets[·]?) b' ∧
      (ret = 0 ∧ b'.offset = 3 ∨ true = true ∧ ret = readMessage ∧ b'.offset < 3) := by
  have hok : ∀ p ∈ threePackets, Sendable p := by simp [threePackets, Sendable]
  exact dispatchPackets_compacts _ (fun _ _ h => h) hok _ _ _

end Libtrace.BatchDispatch
