import Libtrace.ErfRecords
import Libtrace.Exec

/-! Writing a packet of another format as an ERF record and reading it back. -/

namespace Libtrace.ErfConversion
open Exec Window Protocols ErfFile ErfRecords
open PcapFile (packetBufsize)

variable {demote : Source → Option Source} {fuel : Nat} {s q : Source}

theorem findCompatibleLinktype_type (h : findCompatibleLinktype demote fuel s = .ok (some q)) :
    libtraceToErfType q.linkType ≠ 255 := by
  induction fuel generalizing s with
  | zero => cases h
  | succ fuel ih =>
    rw [findCompatibleLinktype] at h
    split at h
    · obtain rfl := Option.some.inj (Except.ok.inj h)
      assumption
    split at h
    · cases h
    · exact ih h

def writtenHeader (s q : Source) : DagRecord where
  ts := s.timestamp.toNat
  type := libtraceToErfType q.linkType
  flags := flagsOf s
  rlen := (q.captureLength + framingOf (libtraceToErfType q.linkType)) % 65536
  lctr := 0
  wlen := (q.wireLength % 65536).toNat

variable (pad : UInt8 × UInt8)

def padBytes (q : Source) : List UInt8 :=
  if libtraceToErfType q.linkType = 2 then [pad.1, pad.2] else []

def writtenBody (q : Source) : List UInt8 :=
  padBytes pad q ++ window q.payload 0 q.captureLength

theorem framingOf_eq (q : Source) :
    framingOf (libtraceToErfType q.linkType) = dagRecordSize + (padBytes pad q).length := by
  have htype : (libtraceToErfType q.linkType).toNat = typeEth ↔
      libtraceToErfType q.linkType = 2 := UInt8.toNat_inj (b := 2)
  simp only [framingOf, padBytes, htype]
  split <;> rfl

theorem dumpPacket_written (s q : Source) :
    dumpPacket (writtenHeader s q) pad (framingOf (libtraceToErfType q.linkType)) q.payload
      q.captureLength = (writtenHeader s q).encode ++ writtenBody pad q := by
  have hsame : (if q.captureLength + framingOf (libtraceToErfType q.linkType) ≠
        (writtenHeader s q).rlen
      then { writtenHeader s q with
        rlen := (q.captureLength + framingOf (libtraceToErfType q.linkType)) % 65536 }
      else writtenHeader s q) = writtenHeader s q := ite_self _
  have hlen := length_encode (writtenHeader s q)
  rw [dumpPacket, hsame, writtenBody, ← List.append_assoc]
  congr 1
  rw [framingOf_eq pad, padBytes]
  split
  · exact List.take_of_length_le (by simp [hlen])
  · rw [List.append_nil]
    exact List.take_left' hlen

theorem writePacket_written {pad : UInt8 × UInt8} {record : List UInt8}
    (h : writePacket demote fuel pad s = .ok (.written q record)) :
    libtraceToErfType q.linkType ≠ 255 ∧ 0 < q.captureLength ∧
      q.captureLength + framingOf (libtraceToErfType q.linkType) ≤ 65536 ∧
      record = (writtenHeader s q).encode ++ writtenBody pad q := by
  unfold writePacket at h
  split at h
  · cases h
  obtain ⟨found, hfound, h⟩ := except_bind_ok.mp h
  cases found with
  | none => cases h
  | some q' =>
    simp only at h
    split at h
    · cases h
    split at h
    · cases h
    split at h
    · cases h
    rename_i hcap _ hrlen
    obtain ⟨rfl, rfl⟩ := WriteResult.written.inj (Except.ok.inj h)
    exact ⟨findCompatibleLinktype_type hfound, (not_not.mp hcap).1, not_not.mp hrlen,
      dumpPacket_written pad s q'⟩

theorem fits_writtenHeader (s q : Source) : Fits (writtenHeader s q) where
  ts := s.timestamp.toNat_lt
  rlen := Nat.mod_lt _ (by decide)
  lctr := show 0 < 256 ^ 2 by decide
  wlen := by
    simp only [writtenHeader]
    omega

theorem erfType_back {lt : LinkType} (h : libtraceToErfType lt ≠ 255) :
    0 < (libtraceToErfType lt).toNat ∧ (libtraceToErfType lt).toNat < typeRawLink ∧
      erfTypeToLibtrace (libtraceToErfType lt).toNat = lt ∧
      (libtraceToErfType lt).toNat ≠ typeDsmColorEth := by
  cases lt <;> first | exact absurd rfl h | decide

theorem rxerror_writtenHeader (s q : Source) : (writtenHeader s q).rxerror = false := by
  have hflags : (flagsOf s).toNat < 4 := by
    unfold flagsOf
    split
    · decide
    · rw [UInt8.toNat_ofNat']
      omega
  simp only [DagRecord.rxerror, writtenHeader]
  exact decide_eq_false (by omega)

section

variable {s q : Source} (hq : libtraceToErfType q.linkType ≠ 255)
include hq

theorem kind_writtenHeader : (writtenHeader s q).kind = (libtraceToErfType q.linkType).toNat := by
  obtain ⟨_, hlt, _⟩ := erfType_back hq
  exact Nat.mod_eq_of_lt (Nat.lt_trans hlt (by decide))

theorem extended_writtenHeader : (writtenHeader s q).extended = false := by
  obtain ⟨_, hlt, _⟩ := erfType_back hq
  simp only [typeRawLink] at hlt
  simp only [DagRecord.extended, writtenHeader]
  exact decide_eq_false (by omega)

theorem framing_writtenHeader :
    dagRecordSize + padding (writtenHeader s q) = framingOf (libtraceToErfType q.linkType) := by
  obtain ⟨_, _, _, hne⟩ := erfType_back hq
  rw [padding, kind_writtenHeader hq, framingOf]
  split_ifs <;> simp_all

def packetBack (s q : Source) (pad : UInt8 × UInt8) (buffer : Nat → UInt8) : ErfPacket where
  buffer := recordBuffer (writtenHeader s q) buffer (writtenBody pad q)
  payload := some (framingOf (libtraceToErfType q.linkType))

variable (pad : UInt8 × UInt8) (buffer : Nat → UInt8)

omit hq in
theorem header_packetBack : (packetBack s q pad buffer).header = writtenHeader s q :=
  decodeHeader_recordBuffer (fits_writtenHeader s q) buffer _

omit hq in
theorem window_packetBack :
    window (packetBack s q pad buffer).buffer (framingOf (libtraceToErfType q.linkType))
      (framingOf (libtraceToErfType q.linkType) + q.captureLength) =
      window q.payload 0 q.captureLength := by
  have hpart := window_store_part (store buffer 0 (writtenHeader s q).encode) dagRecordSize
    (writtenBody pad q) (i := (padBytes pad q).length) (k := q.captureLength)
    (by simp [writtenBody])
  rw [framingOf_eq pad]
  refine hpart.trans ?_
  rw [writtenBody, List.drop_left]
  exact List.take_of_length_le (by simp)

theorem getLinkType_packetBack :
    getLinkType (packetBack s q pad buffer) = .ok q.linkType := by
  obtain ⟨hpos, _, hback, _⟩ := erfType_back hq
  rw [getLinkType, header_packetBack, kind_writtenHeader hq, if_pos (by omega), hback]

theorem getCaptureLength_packetBack
    (hr : q.captureLength + framingOf (libtraceToErfType q.linkType) < 65536)
    (hw : (q.captureLength : Int) ≤ q.wireLength) (hw' : q.wireLength ≤ 65535) :
    getCaptureLength (packetBack s q pad buffer) = .ok q.captureLength := by
  have hframing : framingLength (bufferMemory (packetBack s q pad buffer).buffer)
      (writtenHeader s q) = .ok (framingOf (libtraceToErfType q.linkType)) := by
    rw [framingLength, extensions, extended_writtenHeader hq, ← framing_writtenHeader (s := s) hq]
    rfl
  have hrlen : (writtenHeader s q).rlen =
      q.captureLength + framingOf (libtraceToErfType q.linkType) := Nat.mod_eq_of_lt hr
  have hwlen : ((writtenHeader s q).wlen : Int) = q.wireLength := by
    simp only [writtenHeader]
    omega
  have hpayload : (packetBack s q pad buffer).payload =
      some (framingOf (libtraceToErfType q.linkType)) := rfl
  have hlong : ¬ q.wireLength < (q.captureLength + framingOf (libtraceToErfType q.linkType) : Nat) -
      (framingOf (libtraceToErfType q.linkType) : Int) := by omega
  simp only [getCaptureLength, hpayload, header_packetBack, hframing, ok_bind, hrlen, hwlen,
    if_neg hlong]
  rw [if_pos (by simp only [packetBufsize]; omega)]
  exact congrArg Except.ok (by omega)

def ReadsBack (q : Source) (record rest : List UInt8) (buffer : Nat → UInt8) (drops : Nat) : Prop :=
  ∃ p offset drops', readPacket ⟨record ++ rest, drops⟩ buffer =
      (.packet p record.length, ⟨rest, drops'⟩) ∧
    getLinkType p = .ok q.linkType ∧ (getWireLength p : Int) = q.wireLength ∧
    getCaptureLength p = .ok q.captureLength ∧ p.payload = some offset ∧
    window p.buffer offset (offset + q.captureLength) = window q.payload 0 q.captureLength

theorem readsBack_written (rest : List UInt8) (drops : Nat)
    (hr : q.captureLength + framingOf (libtraceToErfType q.linkType) < 65536)
    (hw : (q.captureLength : Int) ≤ q.wireLength) (hw' : q.wireLength ≤ 65535) :
    ReadsBack q ((writtenHeader s q).encode ++ writtenBody pad q) rest buffer drops := by
  have hfits := fits_writtenHeader s q
  have hkind : (writtenHeader s q).kind < typeRawLink := by
    rw [kind_writtenHeader hq]
    exact (erfType_back hq).2.1
  have hrlen : (writtenHeader s q).rlen =
      q.captureLength + framingOf (libtraceToErfType q.linkType) := Nat.mod_eq_of_lt hr
  have hlen : dagRecordSize + (writtenBody pad q).length = (writtenHeader s q).rlen := by
    rw [hrlen, framingOf_eq pad, writtenBody, List.length_append, length_window]
    omega
  obtain ⟨drops', hread⟩ := readPacket_plain hfits buffer (writtenBody pad q) rest drops
    (extended_writtenHeader hq) (rxerror_writtenHeader s q) hkind hlen
  rw [framing_writtenHeader hq, ← hlen, ← length_encode (writtenHeader s q), ← List.length_append,
    ← List.append_assoc] at hread
  have hwire : (getWireLength (packetBack s q pad buffer) : Int) = q.wireLength := by
    rw [getWireLength, header_packetBack]
    simp only [writtenHeader]
    omega
  exact ⟨packetBack s q pad buffer, _, drops', hread, getLinkType_packetBack hq pad buffer, hwire,
    getCaptureLength_packetBack hq pad buffer hr hw hw', rfl, window_packetBack pad buffer⟩

end

theorem not_readsBack_written (rest : List UInt8) (buffer : Nat → UInt8) (drops : Nat)
    (hlong : q.captureLength + framingOf (libtraceToErfType q.linkType) = 65536) :
    ¬ ReadsBack q ((writtenHeader s q).encode ++ writtenBody pad q) rest buffer drops := by
  rintro ⟨p, _, drops', hread, _⟩
  have hzero : (writtenHeader s q).rlen = 0 := by simp only [writtenHeader, hlong]
  have hshort := readPacket_short (fits_writtenHeader s q) buffer (writtenBody pad q ++ rest) drops
    (by rw [hzero]; decide)
  rw [List.append_assoc, hshort] at hread
  cases hread

theorem writePacket_readsBack_iff {demote : Source → Option Source} {fuel : Nat}
    {pad : UInt8 × UInt8} {s q : Source} {record : List UInt8}
    (h : writePacket demote fuel pad s = .ok (.written q record))
    (hw : (q.captureLength : Int) ≤ q.wireLength) (hw' : q.wireLength ≤ 65535) :
    (∀ rest buffer drops, ReadsBack q record rest buffer drops) ↔
      q.captureLength + framingOf (libtraceToErfType q.linkType) ≤ 65535 := by
  obtain ⟨hq, _, hrlen, rfl⟩ := writePacket_written h
  constructor
  · intro hback
    by_contra hlong
    exact not_readsBack_written pad [] (fun _ => 0) 0 (by omega) (hback [] (fun _ => 0) 0)
  · intro hr rest buffer drops
    exact readsBack_written hq pad buffer rest drops (by omega) hw hw'

def frameOf (n : Nat) : Source := ⟨.eth, n, n, 16, fun _ => 0, 0, none⟩

def sllFrame : Source := { frameOf 80 with linkType := .linuxSll }

theorem sllFrame_readsBack : ∃ record,
    writePacket (fun _ => some (frameOf 64)) 2 (0, 0) sllFrame =
      .ok (.written (frameOf 64) record) ∧
      ReadsBack (frameOf 64) record [1, 2, 3] (fun _ => 0xff) 0 := by
  refine ⟨_, rfl, ?_⟩
  have hwrite : writePacket (fun _ => some (frameOf 64)) 2 (0, 0) sllFrame =
      .ok (.written (frameOf 64) _) := rfl
  exact (writePacket_readsBack_iff hwrite (by decide) (by decide)).mpr (by decide) _ _ _

/-- The longest frame that the assertions let through is lost, and what follows it too. -/
theorem longFrame_not_readsBack : ∃ record,
    writePacket (fun _ => none) 1 (0, 0) (frameOf 65518) =
      .ok (.written (frameOf 65518) record) ∧
      ¬ ReadsBack (frameOf 65518) record [] (fun _ => 0) 0 := by
  refine ⟨_, rfl, ?_⟩
  change ¬ ReadsBack _ (dumpPacket (writtenHeader (frameOf 65518) (frameOf 65518)) _ _ _ _) _ _ _
  rw [dumpPacket_written]
  exact not_readsBack_written _ _ _ _ rfl

end Libtrace.ErfConversion
