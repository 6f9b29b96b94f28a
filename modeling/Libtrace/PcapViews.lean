import Libtrace.Exec
import Libtrace.PcapRecords

/-! What the accessors return for a record of a pcap file, and the record that it is written as. -/

namespace Libtrace.PcapViews
open Exec ByteOrder Window Protocols PcapFile PcapRecords

structure View where
  linkType : LinkType
  timeval : Nat × Nat
  captureLength : Int
  wireLength : Int
  bytes : List UInt8
  deriving DecidableEq, Repr

def view (flags : Nat) (p : PcapPacket) : Decode View := do
  let linkType ← getLinkType p
  let captureLength ← getCaptureLength p
  let wireLength ← getWireLength flags p
  let bytes ← payloadBytes p captureLength.toNat
  return ⟨linkType, getTimeval p, captureLength, wireLength, bytes⟩

def network (t : Trace) : Nat := swapl t.header t.header.network.toNat

def payloadMemory (body : List UInt8) (buffer : Nat → UInt8) : Memory := fun i =>
  if pktHdrSize + i < packetBufsize then some (body[i]?.getD (buffer (pktHdrSize + i))) else none

def bodyFlags (body : List UInt8) (buffer : Nat → UInt8) : Decode (Option Nat) :=
  if body = [] then .ok none else wirelessFlags (payloadMemory body buffer)

def missing (dlt flags : Nat) (body : List UInt8) (buffer : Nat → UInt8) : Decode Bool :=
  if dlt = 1 then .ok true
  else if dlt = 127 then do
    let found ← bodyFlags body buffer
    return found.getD flags / 16 % 2 = 0
  else if dlt = 113 then
    if body = [] then .error .nullPointer
    else do
      let protocol ← be16 (payloadMemory body buffer) 14
      return protocol = 0x0060
  else .ok false

def counted (a : Bool) (wirelen : Nat) : Nat := if a then (wirelen + 4) % 2 ^ 32 else wirelen

variable {t : Trace} (r : Record t) (buffer : Nat → UInt8)

theorem memoryAt_packet :
    memoryAt (r.packet (createPacket buffer)) pktHdrSize = payloadMemory r.body buffer := by
  funext i
  rw [memoryAt, payloadMemory]
  split
  · simp [Record.packet, store, createPacket, r.hdr_length]
  · rfl

theorem packet_payload :
    (r.packet (createPacket buffer)).payload = if r.body = [] then none else some pktHdrSize := rfl

theorem packet_type : (r.packet (createPacket buffer)).type = pcapLinktypeToRt (network t) := rfl

def Direct (dlt : Nat) : Prop := pcapLinktypeToLibtrace dlt ≠ .unknown

instance (dlt : Nat) : Decidable (Direct dlt) := inferInstanceAs (Decidable (_ ≠ _))

theorem direct_cases {dlt : Nat} (h : Direct dlt) :
    dlt ∈ [1, 9, 11, 12, 50, 101, 104, 105, 108, 113, 117, 127] := by
  by_contra hmem
  simp only [List.mem_cons, List.not_mem_nil, or_false, not_or] at hmem
  apply h
  simp [pcapLinktypeToLibtrace, hmem]

theorem getLinkType_direct {p : PcapPacket} {dlt : Nat} (h : Direct dlt)
    (hp : p.type = pcapLinktypeToRt dlt) : getLinkType p = .ok (pcapLinktypeToLibtrace dlt) := by
  have hall : ∀ d ∈ [1, 9, 11, 12, 50, 101, 104, 105, 108, 113, 117, 127],
      rtToPcapLinktype (pcapLinktypeToRt d) = .ok (pcapDltToPcapLinktype d) ∧
        pcapLinktypeToLibtrace (pcapDltToPcapLinktype d) = pcapLinktypeToLibtrace d := by decide
  obtain ⟨hrt, hlink⟩ := hall dlt (direct_cases h)
  rw [getLinkType, hp, hrt, ← hlink]
  rfl

theorem direct_written {dlt : Nat} (h : Direct dlt) :
    ∃ dlt', libtraceToPcapLinktype (pcapLinktypeToLibtrace dlt) = some dlt' ∧ dlt' < 2 ^ 32 ∧
      pcapLinktypeToLibtrace dlt' = pcapLinktypeToLibtrace dlt ∧
      pcapLinktypeToRt dlt' = pcapLinktypeToRt dlt := by
  have hall : ∀ d ∈ [1, 9, 11, 12, 50, 101, 104, 105, 108, 113, 117, 127],
      libtraceToPcapLinktype (pcapLinktypeToLibtrace d) = some (pcapDltToPcapLinktype d) ∧
        pcapDltToPcapLinktype d < 2 ^ 32 ∧
        pcapLinktypeToLibtrace (pcapDltToPcapLinktype d) = pcapLinktypeToLibtrace d ∧
        pcapLinktypeToRt (pcapDltToPcapLinktype d) = pcapLinktypeToRt d := by decide
  exact ⟨_, hall dlt (direct_cases h)⟩

theorem direct_type_iff {dlt : Nat} (h : Direct dlt) :
    ∀ d ∈ [1, 127, 113], pcapLinktypeToRt dlt = pcapLinktypeToRt d ↔ dlt = d := by
  have hall : ∀ e ∈ [1, 9, 11, 12, 50, 101, 104, 105, 108, 113, 117, 127], ∀ d ∈ [1, 127, 113],
      pcapLinktypeToRt e = pcapLinktypeToRt d ↔ e = d := by decide
  exact hall dlt (direct_cases h)

theorem missingFcs_packet (hd : Direct (network t)) (flags : Nat) :
    missingFcs flags (r.packet (createPacket buffer)) =
      missing (network t) flags r.body buffer := by
  have hiff := direct_type_iff hd
  have hflags : headerFlags (r.packet (createPacket buffer)) = bodyFlags r.body buffer := by
    rw [headerFlags, bodyFlags, packet_payload]
    split_ifs <;> simp only [memoryAt_packet]
  simp only [missingFcs, missing, hflags, packet_type, hiff 1 (by simp), hiff 127 (by simp),
    hiff 113 (by simp), packet_payload]
  by_cases hb : r.body = []
  · simp only [if_pos hb]
  · simp only [if_neg hb, memoryAt_packet]

section

variable (flags : Nat)

theorem getWireLength_packet (hd : Direct (network t)) {x : Int} :
    getWireLength flags (r.packet (createPacket buffer)) = .ok x ↔
      ∃ a, missing (network t) flags r.body buffer = .ok a ∧
        toInt32 (counted a r.wirelen) < packetBufsize ∧ x = toInt32 (counted a r.wirelen) := by
  have hw : (r.packet (createPacket buffer)).wirelen = r.wirelen := packet_field r _ (by decide)
  rw [getWireLength, formatWireLength, missingFcs_packet r buffer hd, hw]
  constructor
  · intro h
    obtain ⟨n, hn, h⟩ := except_bind_ok.mp h
    obtain ⟨a, ha, hn⟩ := except_bind_ok.mp hn
    obtain rfl : counted a r.wirelen = n := Except.ok.inj hn
    by_cases hlt : toInt32 (counted a r.wirelen) < packetBufsize
    · exact ⟨a, ha, hlt, (Except.ok.inj ((if_pos hlt).symm.trans h)).symm⟩
    · cases (if_neg hlt).symm.trans h
  · rintro ⟨a, ha, hlt, rfl⟩
    exact except_bind_ok.mpr ⟨_, except_bind_ok.mpr ⟨a, ha, rfl⟩, if_pos hlt⟩

theorem getTimeval_packet (hm : t.header.inNanoseconds = false) :
    getTimeval (r.packet (createPacket buffer)) = r.time := by
  have hsec := packet_field r (createPacket buffer) (i := 0) (by decide)
  have husec := packet_field r (createPacket buffer) (i := 4) (by decide)
  have hh : (r.packet (createPacket buffer)).header = t.header := rfl
  simp [getTimeval, hh, hm, hsec, husec, Record.time]

theorem view_packet (hd : Direct (network t)) (hm : t.header.inNanoseconds = false) {v : View} :
    view flags (r.packet (createPacket buffer)) = .ok v ↔
      ∃ x, getWireLength flags (r.packet (createPacket buffer)) = .ok x ∧
        v = ⟨pcapLinktypeToLibtrace (network t), r.time, r.body.length, x, r.body⟩ := by
  have hbytes : payloadBytes (r.packet (createPacket buffer)) r.body.length = .ok r.body := by
    rw [payloadBytes_packet r buffer (Nat.le_refl _), List.take_length]
  rw [view, getLinkType_direct hd (packet_type r buffer), getCaptureLength_packet,
    getTimeval_packet r buffer hm, ok_bind, ok_bind]
  constructor
  · intro h
    obtain ⟨x, hx, h⟩ := except_bind_ok.mp h
    rw [Int.toNat_natCast, hbytes, ok_bind] at h
    exact ⟨x, hx, (Except.ok.inj h).symm⟩
  · rintro ⟨x, hx, rfl⟩
    refine except_bind_ok.mpr ⟨x, hx, ?_⟩
    rw [Int.toNat_natCast, hbytes]
    rfl

end

section

def writtenHeader (dlt : Nat) : FileHeader := ⟨0xa1b2c3d4, 2, 4, .ofNat dlt⟩

theorem swapl_writtenHeader (dlt n : Nat) : swapl (writtenHeader dlt) n = n :=
  if_neg (by simp [FileHeader.isBackwardsMagic, writtenHeader])

theorem leNatAt_word {i n : Nat} (hn : n < 2 ^ 32) {before : List UInt8} (hi : before.length = i)
    (after : List UInt8) : leNatAt (before ++ (leBytes 4 n ++ after)) i 4 = n :=
  leNatAt_append (Nat.lt_of_lt_of_eq hn (by decide)) hi after

theorem parseHeader_written {dlt : Nat} (hdlt : dlt < 2 ^ 32) (io : List UInt8) :
    parseHeader (encodeFileHeader dlt ++ io) = writtenHeader dlt := by
  have hmagic : leNatAt (encodeFileHeader dlt ++ io) 0 4 = 0xa1b2c3d4 := by
    exact leNatAt_zero (by decide) _
  have hmajor : leNatAt (encodeFileHeader dlt ++ io) 4 2 = 2 := by
    exact leNatAt_append (by decide) (length_leBytes _ _) _
  have hminor : leNatAt (encodeFileHeader dlt ++ io) 6 2 = 4 := by
    simp only [encodeFileHeader, List.append_assoc]
    rw [← List.append_assoc]
    exact leNatAt_append (by decide) (by simp) _
  have hnet : leNatAt (encodeFileHeader dlt ++ io) 20 4 = dlt := by
    rw [encodeFileHeader, List.append_assoc]
    exact leNatAt_word hdlt (by simp) io
  rw [parseHeader, hmagic, hmajor, hminor, hnet, writtenHeader]
  rfl

theorem startInput_written {dlt : Nat} (hdlt : dlt < 2 ^ 32) (io : List UInt8) :
    startInput (encodeFileHeader dlt ++ io) = .ok ⟨writtenHeader dlt, io⟩ := by
  have hlen : (encodeFileHeader dlt).length = fileHeaderSize := by
    simp [encodeFileHeader, fileHeaderSize]
  have hne : encodeFileHeader dlt ++ io ≠ [] := by
    intro h
    have := congrArg List.length h
    simp [hlen, fileHeaderSize] at this
  have hmagic : (writtenHeader dlt).isMagic = true := by simp [FileHeader.isMagic, writtenHeader]
  have hversion : swaps (writtenHeader dlt) (writtenHeader dlt).versionMajor.toNat = 2 :=
    if_neg (by simp [FileHeader.isBackwardsMagic, writtenHeader])
  have hlong : ¬ fileHeaderSize + io.length < fileHeaderSize := by omega
  simp only [startInput, parseHeader_written hdlt, if_neg hne, List.length_append, hlen,
    if_neg hlong, hmagic, hversion, not_true_eq_false, ne_eq, false_and, if_false]
  rw [← hlen, List.drop_left]

theorem length_encodePktHdr (sec usec caplen wirelen : Nat) :
    (encodePktHdr sec usec caplen wirelen).length = pktHdrSize := by
  simp [encodePktHdr, pktHdrSize]

theorem field_encodePktHdr (dlt : Nat) {sec usec caplen wirelen : Nat} (hs : sec < 2 ^ 32)
    (hu : usec < 2 ^ 32) (hc : caplen < 2 ^ 32) (hw : wirelen < 2 ^ 32) :
    field (writtenHeader dlt) (encodePktHdr sec usec caplen wirelen) 0 = sec ∧
      field (writtenHeader dlt) (encodePktHdr sec usec caplen wirelen) 4 = usec ∧
      field (writtenHeader dlt) (encodePktHdr sec usec caplen wirelen) 8 = caplen ∧
      field (writtenHeader dlt) (encodePktHdr sec usec caplen wirelen) 12 = wirelen := by
  simp only [field, swapl_writtenHeader, encodePktHdr]
  refine ⟨?_, ?_, ?_, ?_⟩
  · simp only [List.append_assoc]
    exact leNatAt_zero (Nat.lt_of_lt_of_eq hs (by decide)) _
  · simp only [List.append_assoc]
    exact leNatAt_word hu (length_leBytes _ _) _
  · rw [List.append_assoc]
    exact leNatAt_word hc (by simp) _
  · rw [← List.append_nil (leBytes 4 wirelen)]
    exact leNatAt_word hw (by simp) []

end

end Libtrace.PcapViews
