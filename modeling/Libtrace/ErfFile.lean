import Libtrace.PcapFile

/-! ERF trace files: reading records, the accessors, and writing a packet of another format as a
record. The processor is little-endian; what memory held before are arguments. -/

namespace Libtrace.ErfFile
open ByteOrder Window Protocols
open PcapFile (packetBufsize le32)

def dagRecordSize : Nat := 16

structure DagRecord where
  ts : Nat
  type : UInt8
  flags : UInt8
  rlen : Nat
  lctr : Nat
  wlen : Nat
  deriving DecidableEq, Repr

def DagRecord.encode (h : DagRecord) : List UInt8 :=
  leBytes 8 h.ts ++ [h.type, h.flags] ++ beBytes 2 h.rlen ++ beBytes 2 h.lctr ++ beBytes 2 h.wlen

def decodeHeader (buffer : Nat → UInt8) : DagRecord where
  ts := leNat (window buffer 0 8)
  type := buffer 8
  flags := buffer 9
  rlen := beNat (window buffer 10 12)
  lctr := beNat (window buffer 12 14)
  wlen := beNat (window buffer 14 16)

def DagRecord.kind (h : DagRecord) : Nat := h.type.toNat % 128

def DagRecord.extended (h : DagRecord) : Bool := h.type.toNat / 128 = 1

def DagRecord.rxerror (h : DagRecord) : Bool := h.flags.toNat / 16 % 2 = 1

def typeEth : Nat := 2
def typeDsmColorEth : Nat := 16
def typeRawLink : Nat := 24

def erfTypeToLibtrace (erf : Nat) : LinkType :=
  if erf = 1 then .hdlcPos
  else if erf = typeEth then .eth
  else if erf = 3 then .atm
  else if erf = 4 then .aal5
  else if erf = typeDsmColorEth then .eth
  else if erf = 22 then .none
  else if erf = 23 then .none
  else .unknown

def libtraceToErfType : LinkType → UInt8
  | .hdlcPos => 1
  | .eth => 2
  | .atm => 3
  | .aal5 => 4
  | .none => 22
  | _ => 255

def padding (h : DagRecord) : Nat := if h.kind = typeEth ∨ h.kind = typeDsmColorEth then 2 else 0

def le64 (m : Memory) (i : Nat) : Decode Nat := do
  let low ← le32 m i
  let high ← le32 m (i + 4)
  return high * 2 ^ 32 + low

/-- `extsize` counts the headers up to the one that is looked at. -/
def extensionSize (m : Memory) (rlen : Nat) : Nat → Nat → Decode Nat
  | 0, _ => .error .unfinished
  | fuel + 1, extsize => do
    let exthdr ← le64 m (dagRecordSize + extsize - 8)
    if exthdr < 2 ^ 31 then
      if extsize + 8 ≤ rlen then extensionSize m rlen fuel (extsize + 8) else throw .assertion
    else return extsize

def extensions (m : Memory) (h : DagRecord) : Decode Nat :=
  if h.extended then extensionSize m h.rlen packetBufsize 8 else .ok 0

def framingLength (m : Memory) (h : DagRecord) : Decode Nat := do
  let extsize ← extensions m h
  return dagRecordSize + extsize + padding h

/-- The header is at the start of the buffer; `payload` is an offset in it, or null. -/
structure ErfPacket where
  buffer : Nat → UInt8
  payload : Option Nat

def ErfPacket.header (p : ErfPacket) : DagRecord := decodeHeader p.buffer

def bufferMemory (buffer : Nat → UInt8) : Memory := fun i =>
  if i < packetBufsize then some (buffer i) else none

inductive ErfError where
  /-- "Incomplete ERF header" -/
  | incompleteHeader
  /-- "Packet size larger than supported by libtrace" -/
  | tooLarge
  /-- "Corrupt or Unknown ERF type" -/
  | badType
  /-- "Truncated packet" -/
  | truncated
  deriving DecidableEq, Repr

structure ErfTrace where
  io : List UInt8
  drops : Nat

inductive ReadResult where
  | eof
  | error (e : ErfError)
  | fault (f : Fault)
  | packet (p : ErfPacket) (ret : Nat)

def payloadOf (buffer : Nat → UInt8) : Decode (Option Nat) :=
  let h := decodeHeader buffer
  if h.rxerror then .ok none
  else do
    let framing ← framingLength (bufferMemory buffer) h
    return some framing

def preparePacket (t : ErfTrace) (buffer : Nat → UInt8) : Decode (ErfPacket × ErfTrace) := do
  let h := decodeHeader buffer
  let payload ← payloadOf buffer
  if h.rlen = 0 then throw .assertion
  else
    let drops := if h.kind = typeDsmColorEth then t.drops else t.drops + h.lctr
    return (⟨buffer, payload⟩, { t with drops })

def finishRead (t : ErfTrace) (buffer : Nat → UInt8) (rlen : Nat) : ReadResult × ErfTrace :=
  match preparePacket t buffer with
  | .ok (p, t') => (.packet p rlen, t')
  | .error f => (.fault f, t)

def readPacket (t : ErfTrace) (buffer : Nat → UInt8) : ReadResult × ErfTrace :=
  let hdr := t.io.take dagRecordSize
  let t' := { t with io := t.io.drop dagRecordSize }
  if hdr = [] then (.eof, t')
  else if hdr.length < dagRecordSize then (.error .incompleteHeader, t')
  else
    let buffer := store buffer 0 hdr
    let h := decodeHeader buffer
    let size := (2 ^ 32 + h.rlen - dagRecordSize) % 2 ^ 32
    if packetBufsize ≤ size then (.error .tooLarge, t')
    else if typeRawLink ≤ h.kind then (.error .badType, t')
    else
      let body := t'.io.take size
      let t'' := { t' with io := t'.io.drop size }
      if body.length ≠ size then (.error .truncated, t'')
      else finishRead t'' (store buffer dagRecordSize body) h.rlen

section

variable (p : ErfPacket)

def getLinkType : Decode LinkType :=
  if p.header.kind ≠ 0 then .ok (erfTypeToLibtrace p.header.kind)
  else match p.payload with
    | none => .error .nullPointer
    | some q => do
      let b ← byte (bufferMemory p.buffer) (q + 4)
      return if b = 0x45 then .ppp else .unknown

def getErfTimestamp : Nat := p.header.ts

def getWireLength : Nat := p.header.wlen

def getCaptureLength : Decode Int :=
  match p.payload with
  | none => .ok 0
  | some _ => do
    let framing ← framingLength (bufferMemory p.buffer) p.header
    let caplen : Int := p.header.rlen - framing
    let length := if p.header.wlen < caplen then (p.header.wlen : Int) else caplen
    if length < packetBufsize then return length else throw .assertion

end

/-- A packet of another format. It has a payload: one without captured bytes is refused by an
assertion. -/
structure Source where
  linkType : LinkType
  captureLength : Nat
  wireLength : Int
  framingLength : Nat
  payload : Nat → UInt8
  timestamp : UInt64
  direction : Option Nat

inductive WriteResult where
  | ignored
  /-- "No erf type for packet" -/
  | noConversion
  | written (packet : Source) (record : List UInt8)

section

-- what `demote_packet` makes of a packet
variable (demote : Source → Option Source)

def findCompatibleLinktype : Nat → Source → Decode (Option Source)
  | 0, _ => .error .unfinished
  | fuel + 1, s =>
    if libtraceToErfType s.linkType ≠ 255 then .ok (some s)
    else match demote s with
      | none => .ok none
      | some s' => findCompatibleLinktype fuel s'

def flagsOf (s : Source) : UInt8 :=
  match s.direction with
  | none => 1
  | some d => .ofNat (d % 4)

def dumpPacket (h : DagRecord) (pad : UInt8 × UInt8) (framing : Nat) (payload : Nat → UInt8)
    (caplen : Nat) : List UInt8 :=
  let h := if caplen + framing ≠ h.rlen then { h with rlen := (caplen + framing) % 65536 } else h
  (h.encode ++ [pad.1, pad.2]).take framing ++ window payload 0 caplen

def framingOf (type : UInt8) : Nat :=
  if type.toNat = typeEth then dagRecordSize + 2 else dagRecordSize

def writePacket (fuel : Nat) (pad : UInt8 × UInt8) (s : Source) : Decode WriteResult :=
  if s.linkType = .nondata then .ok .ignored
  else do
    let found ← findCompatibleLinktype demote fuel s
    match found with
    | none => return .noConversion
    | some q =>
      let type := libtraceToErfType q.linkType
      let rlen := q.captureLength + framingOf type
      if ¬ (0 < q.captureLength ∧ q.captureLength ≤ 65536) then throw .assertion
      else if ¬ q.framingLength ≤ 65536 then throw .assertion
      else if ¬ rlen ≤ 65536 then throw .assertion
      else
        let h : DagRecord := ⟨s.timestamp.toNat, type, flagsOf s, rlen % 65536, 0,
          (q.wireLength % 65536).toNat⟩
        return .written q (dumpPacket h pad (framingOf type) q.payload q.captureLength)

end

end Libtrace.ErfFile
