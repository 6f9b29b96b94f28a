import Libtrace.MissingFcs

/-! Copying a packet from a pcap file to a pcap file: which packets come out of the copy as
they were. -/

namespace Libtrace.PcapCopy
open Exec ByteOrder Protocols PcapFile PcapRecords PcapViews

def ReadResult.packet? : ReadResult → Option PcapPacket
  | .packet p _ => some p
  | _ => none

/-- What is seen of a packet and of its copy. The buffers and the uninitialised flags of the two are
arguments. -/
def roundTrip (t : Trace) (buffer buffer' : Nat → UInt8) (flags flags' : Nat) :
    Option (View × View) := do
  let p ← ReadResult.packet? (readPacket t (createPacket buffer)).1
  let v ← (view flags p).toOption
  let (file, _) ← (writePacket none flags p).toOption
  let t' ← (startInput (← file)).toOption
  let p' ← ReadResult.packet? (readPacket t' (createPacket buffer')).1
  let v' ← (view flags' p').toOption
  return (v, v')

def writtenTrace (dlt : Nat) (time : Nat × Nat) (wirelen : Nat) (data : List UInt8) : Trace where
  header := writtenHeader dlt
  io := encodePktHdr time.1 time.2 data.length wirelen ++ data

def Words (time : Nat × Nat) : Prop := time.1 < 2 ^ 32 ∧ time.2 < 2 ^ 32

section

variable (dlt : Nat) {time : Nat × Nat} {wirelen : Nat} {data : List UInt8}

def writtenRecord (ht : Words time) (hw : wirelen < 2 ^ 32) (hd : data.length < packetBufsize) :
    Record (writtenTrace dlt time wirelen data) where
  hdr := encodePktHdr time.1 time.2 data.length wirelen
  body := data
  rest := []
  io_eq := by rw [List.append_nil, writtenTrace]
  hdr_length := length_encodePktHdr _ _ _ _
  body_length :=
    (field_encodePktHdr dlt ht.1 ht.2 (Nat.lt_trans hd (by decide)) hw).2.2.1
  accepted := hd

theorem writtenRecord_fields (ht : Words time) (hw : wirelen < 2 ^ 32)
    (hd : data.length < packetBufsize) :
    (writtenRecord dlt ht hw hd).time = time ∧
      (writtenRecord dlt ht hw hd).wirelen = wirelen := by
  have h := field_encodePktHdr dlt ht.1 ht.2 (Nat.lt_trans hd (by decide)) hw
  exact ⟨Prod.ext h.1 h.2.1, h.2.2.2⟩

end

variable {t : Trace} (r : Record t)

theorem field_lt (h : FileHeader) (hdr : List UInt8) (i : Nat) : field h hdr i < 2 ^ 32 := by
  refine swapl_lt h (Nat.lt_of_lt_of_le (leNat_lt _) ?_)
  exact Nat.pow_le_pow_right (by decide) (List.length_take_le 4 _)

theorem time_words : Words r.time := ⟨field_lt _ _ _, field_lt _ _ _⟩

theorem writePacket_packet (hd : Direct (network t)) (hm : t.header.inNanoseconds = false)
    {dlt flags : Nat} {buffer : Nat → UInt8} {x : Int}
    (hdlt : libtraceToPcapLinktype (pcapLinktypeToLibtrace (network t)) = some dlt)
    (hx : getWireLength flags (r.packet (createPacket buffer)) = .ok x) {w : Nat}
    (hw : writtenWireLength (pcapLinktypeToLibtrace (network t)) x = w) :
    writePacket none flags (r.packet (createPacket buffer)) =
      .ok (some (encodeFileHeader dlt ++
        (writtenTrace dlt r.time w (r.body.take w)).io), pktHdrSize + min r.body.length w) := by
  have hunknown : ¬ (pcapLinktypeToLibtrace (network t) = .nondata ∨
      pcapLinktypeToLibtrace (network t) = .unknown) := by
    rintro (h | h) <;> rw [h] at hdlt <;> cases hdlt
  have hneg : ¬ (r.body.length : Int) < 0 := by omega
  have hmin : (r.body.take w).length = min r.body.length w := by
    rw [List.length_take, Nat.min_comm]
  have htake : r.body.take (min r.body.length w) = r.body.take w := by
    rw [← hmin]
    simp
  have hlink := getLinkType_direct hd (packet_type r buffer)
  simp only [writePacket, getTimeval_packet r buffer hm, hlink, getCaptureLength_packet, hx,
    ok_bind, if_neg hneg, if_neg hunknown, hdlt, hw, Int.toNat_natCast,
    payloadBytes_packet r buffer (Nat.min_le_left _ _), writtenTrace, hmin, htake,
    Option.getD_none, List.append_assoc]
  rfl

theorem writtenWireLength_lt (lt : LinkType) (x : Int) : writtenWireLength lt x < 2 ^ 32 := by
  unfold writtenWireLength
  split_ifs <;> omega

section

variable (buffer buffer' : Nat → UInt8) (flags flags' : Nat)

def copyWirelen (t : Trace) (x : Int) : Nat :=
  writtenWireLength (pcapLinktypeToLibtrace (network t)) x

def copyTrace (dlt : Nat) (x : Int) : Trace :=
  writtenTrace dlt r.time (copyWirelen t x) (r.body.take (copyWirelen t x))

def copyOf (dlt : Nat) (x : Int) : Record (copyTrace r dlt x) :=
  writtenRecord dlt (time_words r) (writtenWireLength_lt _ _)
    (Nat.lt_of_le_of_lt (List.length_take_le' _ _) r.accepted)

theorem copyOf_fields (dlt : Nat) (x : Int) :
    (copyOf r dlt x).time = r.time ∧ (copyOf r dlt x).wirelen = copyWirelen t x :=
  writtenRecord_fields _ _ _ _

theorem roundTrip_overflow (hfit : ¬ pktHdrSize + r.body.length ≤ packetBufsize) :
    roundTrip t buffer buffer' flags flags' = none := by
  rw [roundTrip, readPacket_record r, if_neg hfit]
  rfl

theorem roundTrip_fault {e : Fault} (hd : Direct (network t))
    (he : getWireLength flags (r.packet (createPacket buffer)) = .error e) :
    roundTrip t buffer buffer' flags flags' = none := by
  have hview : view flags (r.packet (createPacket buffer)) = .error e := by
    rw [view, getLinkType_direct hd (packet_type r buffer), getCaptureLength_packet, ok_bind,
      ok_bind, he]
    rfl
  by_cases hfit : pktHdrSize + r.body.length ≤ packetBufsize
  · simp only [roundTrip, readPacket_record r, if_pos hfit, ReadResult.packet?, hview,
      Except.toOption, Option.bind_eq_bind, Option.bind_some, Option.bind_none]
  · exact roundTrip_overflow r buffer buffer' flags flags' hfit

theorem roundTrip_eq (hd : Direct (network t)) (hm : t.header.inNanoseconds = false)
    (hfit : pktHdrSize + r.body.length ≤ packetBufsize) {dlt : Nat} (hlt : dlt < 2 ^ 32)
    (hdlt : libtraceToPcapLinktype (pcapLinktypeToLibtrace (network t)) = some dlt) {x : Int}
    (hx : getWireLength flags (r.packet (createPacket buffer)) = .ok x) :
    roundTrip t buffer buffer' flags flags' =
      (view flags' ((copyOf r dlt x).packet (createPacket buffer'))).toOption.map fun v =>
        (⟨pcapLinktypeToLibtrace (network t), r.time, r.body.length, x, r.body⟩, v) := by
  have hview := (view_packet r buffer flags hd hm).mpr ⟨x, hx, rfl⟩
  have hwrite := writePacket_packet r hd hm hdlt hx (w := copyWirelen t x) rfl
  have hstart : startInput (encodeFileHeader dlt ++ (copyTrace r dlt x).io) =
      .ok (copyTrace r dlt x) := startInput_written hlt _
  have hle : (copyOf r dlt x).body.length ≤ r.body.length := List.length_take_le' _ _
  have hread := readPacket_record (copyOf r dlt x) (createPacket buffer')
  rw [if_pos (by omega)] at hread
  change writePacket _ _ _ = .ok (some (_ ++ (copyTrace r dlt x).io), _) at hwrite
  simp only [roundTrip, readPacket_record r, if_pos hfit, ReadResult.packet?, hview, hwrite,
    Except.toOption, Option.bind_eq_bind, Option.bind_some, hstart, hread]
  cases view flags' ((copyOf r dlt x).packet (createPacket buffer')) <;> rfl

theorem network_copyTrace {dlt : Nat} (hlt : dlt < 2 ^ 32) (x : Int) :
    network (copyTrace r dlt x) = dlt := by
  exact (swapl_writtenHeader dlt _).trans (Nat.mod_eq_of_lt hlt)

theorem missing_congr {dlt dlt' : Nat} (hd : Direct dlt) (hd' : Direct dlt')
    (h : pcapLinktypeToRt dlt' = pcapLinktypeToRt dlt) (body : List UInt8) :
    missing dlt' flags body buffer = missing dlt flags body buffer := by
  have hiff : ∀ d ∈ [1, 127, 113], dlt' = d ↔ dlt = d := fun d hmem => by
    rw [← direct_type_iff hd' d hmem, h, direct_type_iff hd d hmem]
  simp only [missing, hiff 1 (by simp), hiff 127 (by simp), hiff 113 (by simp)]

theorem toInt32_inj {m n : Nat} (hm : m < 2 ^ 32) (hn : n < 2 ^ 32) :
    toInt32 m = toInt32 n ↔ m = n := by
  unfold toInt32
  split_ifs <;> omega

theorem counted_lt (a : Bool) {n : Nat} (hn : n < 2 ^ 32) : counted a n < 2 ^ 32 := by
  unfold counted
  split_ifs <;> omega

/-- `a` and `a'` are for the checksum that the packet and its copy miss. -/
def SameLength (a a' : Bool) : Prop :=
  toInt32 (counted a r.wirelen) < packetBufsize ∧
    r.body.length ≤ copyWirelen t (toInt32 (counted a r.wirelen)) ∧
    counted a' (copyWirelen t (toInt32 (counted a r.wirelen))) = counted a r.wirelen

theorem view_copyOf (hd : Direct (network t)) {dlt : Nat} (hlt : dlt < 2 ^ 32)
    (hlink : pcapLinktypeToLibtrace dlt = pcapLinktypeToLibtrace (network t))
    (hrt : pcapLinktypeToRt dlt = pcapLinktypeToRt (network t)) {x : Int} :
    view flags' ((copyOf r dlt x).packet (createPacket buffer')) =
        .ok ⟨pcapLinktypeToLibtrace (network t), r.time, r.body.length, x, r.body⟩ ↔
      r.body.length ≤ copyWirelen t x ∧ ∃ a', missing (network t) flags' r.body buffer' = .ok a' ∧
        toInt32 (counted a' (copyWirelen t x)) < packetBufsize ∧
        x = toInt32 (counted a' (copyWirelen t x)) := by
  have hnet := network_copyTrace r hlt x
  have hdlt : Direct dlt := by rwa [Direct, hlink]
  have hd' : Direct (network (copyTrace r dlt x)) := by rwa [hnet]
  have hm' : (copyTrace r dlt x).header.inNanoseconds = false := by
    simp [copyTrace, writtenTrace, writtenHeader, FileHeader.inNanoseconds]
  obtain ⟨htime, hwirelen⟩ := copyOf_fields r dlt x
  have hbody : (copyOf r dlt x).body = r.body.take (copyWirelen t x) := rfl
  have hmissing := missing_congr buffer' flags' hd hdlt hrt r.body
  rw [view_packet _ buffer' flags' hd' hm', htime, hnet, hlink, hbody]
  constructor
  · rintro ⟨x', hx', heq⟩
    obtain ⟨_, _, _, rfl, htake⟩ := View.mk.inj heq
    have hlen := congrArg List.length htake
    rw [List.length_take] at hlen
    obtain ⟨a', ha', hsmall, hx⟩ := (getWireLength_packet _ buffer' flags' hd').mp hx'
    rw [hnet, hbody, ← htake, hmissing] at ha'
    rw [hwirelen] at hsmall hx
    exact ⟨by omega, a', ha', hsmall, hx⟩
  · rintro ⟨hle, a', ha', hsmall, hx⟩
    have htake : r.body.take (copyWirelen t x) = r.body := List.take_of_length_le hle
    refine ⟨x, (getWireLength_packet _ buffer' flags' hd').mpr ⟨a', ?_, ?_⟩, by rw [htake]⟩
    · rw [hnet, hbody, htake, hmissing, ha']
    · rw [hwirelen]
      exact ⟨hsmall, hx⟩

theorem roundTrip_same_iff (hd : Direct (network t)) (hm : t.header.inNanoseconds = false) :
    (∃ v, roundTrip t buffer buffer' flags flags' = some (v, v)) ↔
      pktHdrSize + r.body.length ≤ packetBufsize ∧
        ∃ a a', missing (network t) flags r.body buffer = .ok a ∧
          missing (network t) flags' r.body buffer' = .ok a' ∧ SameLength r a a' := by
  obtain ⟨dlt, hdlt, hlt, hlink, hrt⟩ := direct_written hd
  have hw : r.wirelen < 2 ^ 32 := field_lt _ _ _
  constructor
  · rintro ⟨v, h⟩
    have hfit : pktHdrSize + r.body.length ≤ packetBufsize := by
      by_contra hout
      rw [roundTrip_overflow r _ _ _ _ hout] at h
      cases h
    cases hx : getWireLength flags (r.packet (createPacket buffer)) with
    | error e =>
      rw [roundTrip_fault r _ _ _ _ hd hx] at h
      cases h
    | ok x =>
      rw [roundTrip_eq r _ _ _ _ hd hm hfit hlt hdlt hx] at h
      obtain ⟨v', hv', hpair⟩ := Option.map_eq_some_iff.mp h
      obtain ⟨rfl, rfl⟩ := Prod.mk.inj hpair
      obtain ⟨hle, a', ha', hsmall', hx'⟩ :=
        (view_copyOf r buffer' flags' hd hlt hlink hrt).mp (toOption_eq_some.mp hv')
      obtain ⟨a, ha, hsmall, rfl⟩ := (getWireLength_packet r buffer flags hd).mp hx
      refine ⟨hfit, a, a', ha, ha', hsmall, hle, ?_⟩
      exact ((toInt32_inj (counted_lt a hw) (counted_lt a' (writtenWireLength_lt _ _))).mp hx').symm
  · rintro ⟨hfit, a, a', ha, ha', hsmall, hle, hsame⟩
    have hx := (getWireLength_packet r buffer flags hd).mpr ⟨a, ha, hsmall, rfl⟩
    have hview := (view_copyOf r buffer' flags' hd hlt hlink hrt).mpr
      ⟨hle, a', ha', by rwa [hsame], by rw [hsame]⟩
    rw [roundTrip_eq r _ _ _ _ hd hm hfit hlt hdlt hx, hview]
    exact ⟨_, rfl⟩

end

end Libtrace.PcapCopy
