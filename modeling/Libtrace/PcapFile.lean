import Libtrace.ByteOrder
import Libtrace.PacketAccess
import Libtrace.Window

/-! pcap trace files: reading and writing records, and the accessors for a record that was just
read. The processor is little-endian. What a buffer or an uninitialised variable holds before are
arguments. Input and output do not fail. -/

namespace Libtrace.PcapFile
open ByteOrder Window Protocols
open PacketAccess (toSize)

def packetBufsize : Nat := 65536

def pktHdrSize : Nat := 16

def fileHeaderSize : Nat := 24

structure FileHeader where
  magicNumber : UInt32
  versionMajor : UInt16
  versionMinor : UInt16
  network : UInt32
  deriving DecidableEq, Repr

def FileHeader.isBackwardsMagic (h : FileHeader) : Bool :=
  h.magicNumber = 0xd4c3b2a1 || h.magicNumber = 0x4d3cb2a1

def FileHeader.isMagic (h : FileHeader) : Bool :=
  h.magicNumber = 0xa1b2c3d4 || h.magicNumber = 0xa1b23c4d || h.isBackwardsMagic

def FileHeader.inNanoseconds (h : FileHeader) : Bool :=
  h.magicNumber = 0xa1b23c4d || h.magicNumber = 0x4d3cb2a1

def byteswap (k n : Nat) : Nat := beNat (leBytes k n)

def swaps (h : FileHeader) (n : Nat) : Nat := if h.isBackwardsMagic then byteswap 2 n else n

def swapl (h : FileHeader) (n : Nat) : Nat := if h.isBackwardsMagic then byteswap 4 n else n

structure Trace where
  header : FileHeader
  io : List UInt8

inductive FileError where
  /-- "Error while reading pcap file header" -/
  | noHeader
  /-- "Incomplete pcap file header" -/
  | shortHeader
  /-- "Not a pcap tracefile" -/
  | notPcap
  /-- "Unknown pcap tracefile version" -/
  | version
  /-- "Incomplete pcap packet header" -/
  | shortRecord
  /-- "Invalid caplen in pcap header - trace may be corrupt" -/
  | badCaplen
  /-- "Incomplete pcap packet body" -/
  | shortBody
  deriving DecidableEq, Repr

def uint32At (m : Nat → UInt8) (i : Nat) : Nat := leNat (window m i (i + 4))

theorem uint32At_store (m : Nat → UInt8) (i n : Nat) :
    uint32At (store m i (leBytes 4 n)) i = n % 2 ^ 32 := by
  have hdata := window_store_data m i (leBytes 4 n)
  have hword : 256 ^ 4 = 2 ^ 32 := by decide
  rw [length_leBytes] at hdata
  rw [uint32At, hdata, leNat_leBytes_mod, hword]

theorem uint32At_store_other (m : Nat → UInt8) {i j : Nat} {data : List UInt8}
    (h : i + 4 ≤ j ∨ j + data.length ≤ i) : uint32At (store m j data) i = uint32At m i := by
  rw [uint32At, uint32At, window_congr m fun k _ _ => store_outside m (by omega)]

def parseHeader (data : List UInt8) : FileHeader where
  magicNumber := .ofNat (leNatAt data 0 4)
  versionMajor := .ofNat (leNatAt data 4 2)
  versionMinor := .ofNat (leNatAt data 6 2)
  network := .ofNat (leNatAt data 20 4)

def startInput (file : List UInt8) : Except FileError Trace :=
  let header := parseHeader file
  if file = [] then .error .noHeader
  else if file.length < fileHeaderSize then .error .shortHeader
  else if ¬ header.isMagic then .error .notPcap
  else if swaps header header.versionMajor.toNat ≠ 2 ∧
      swaps header header.versionMinor.toNat ≠ 4 then .error .version
  else .ok ⟨header, file.drop fileHeaderSize⟩

def pcapDltToPcapLinktype (dlt : Nat) : Nat := if dlt = 12 then 101 else dlt

def pcapLinktypeToRt (dlt : Nat) : Nat := (pcapDltToPcapLinktype dlt + 2000) % 2 ^ 32

/-- The assertion at the end lets the type between the two ranges through, which becomes 0. -/
def rtToPcapLinktype (type : Nat) : Decode Nat :=
  if 2000 ≤ type ∧ type < 2999 then .ok (type - 2000)
  else if 3000 ≤ type ∧ type < 3999 then .ok (type - 3000)
  else if 2000 ≤ type ∧ type < 3999 then .ok 0
  else .error .assertion

def pcapLinktypeToLibtrace (dlt : Nat) : LinkType :=
  if dlt = 12 ∨ dlt = 101 then .none
  else if dlt = 1 then .eth
  else if dlt = 105 then .ieee80211
  else if dlt = 113 then .linuxSll
  else if dlt = 117 then .pflog
  else if dlt = 127 then .ieee80211Radio
  else if dlt = 11 then .llcsnap
  else if dlt = 9 then .ppp
  else if dlt = 50 then .pos
  else if dlt = 104 then .hdlcPos
  else if dlt = 108 then .openbsdLoop
  else .unknown

def libtraceToPcapDlt : LinkType → Option Nat
  | .none => some 12
  | .eth => some 1
  | .ieee80211 => some 105
  | .linuxSll => some 113
  | .pflog => some 117
  | .ieee80211Radio => some 127
  | .llcsnap => some 11
  | .ppp => some 9
  | .hdlcPos => some 104
  | .pos => some 50
  | .openbsdLoop => some 108
  | _ => none

def libtraceToPcapLinktype (type : LinkType) : Option Nat :=
  (libtraceToPcapDlt type).map pcapDltToPcapLinktype

/-- What reading a record may leave as it is. `payload` is an offset in the buffer, or null. -/
structure Slot where
  buffer : Nat → UInt8
  payload : Option Nat
  captureLength : Option Nat

def createPacket (buffer : Nat → UInt8) : Slot := ⟨buffer, none, none⟩

structure PcapPacket extends Slot where
  header : FileHeader
  type : Nat

inductive ReadResult where
  | eof
  | error (e : FileError)
  /-- Data was written behind the end of the buffer. -/
  | overflow
  | packet (p : PcapPacket) (ret : Nat)

/-- A record without payload leaves `payload` and the cached capture length as they are. -/
def readPacket (t : Trace) (s : Slot) : ReadResult × Trace :=
  let hdr := t.io.take pktHdrSize
  let t' := { t with io := t.io.drop pktHdrSize }
  if hdr = [] then (.eof, t')
  else if hdr.length < pktHdrSize then (.error .shortRecord, t')
  else
    let buffer := store s.buffer 0 hdr
    let type := pcapLinktypeToRt (swapl t.header t.header.network.toNat)
    let caplen := swapl t.header (uint32At buffer 8)
    if packetBufsize ≤ caplen then (.error .badCaplen, t')
    else if caplen = 0 then (.packet ⟨{ s with buffer }, t.header, type⟩ pktHdrSize, t')
    else
      let body := t'.io.take caplen
      let t'' := { t' with io := t'.io.drop caplen }
      if packetBufsize < pktHdrSize + body.length then (.overflow, t'')
      else if body = [] then (.eof, t'')
      else if body.length < caplen then (.error .shortBody, t'')
      else
        (.packet ⟨⟨store buffer pktHdrSize body, some pktHdrSize, some caplen⟩, t.header, type⟩
          (pktHdrSize + caplen), t'')

section

variable (p : PcapPacket)

def PcapPacket.caplen : Nat := swapl p.header (uint32At p.buffer 8)

def PcapPacket.wirelen : Nat := swapl p.header (uint32At p.buffer 12)

def getLinkType : Decode LinkType := do
  let dlt ← rtToPcapLinktype p.type
  return pcapLinktypeToLibtrace dlt

def getTimeval : Nat × Nat :=
  let fraction := swapl p.header (uint32At p.buffer 4)
  (swapl p.header (uint32At p.buffer 0),
    if p.header.inNanoseconds then fraction / 1000 else fraction)

def getTimespec : Nat × Nat :=
  let fraction := swapl p.header (uint32At p.buffer 4)
  (swapl p.header (uint32At p.buffer 0),
    if p.header.inNanoseconds then fraction else fraction * 1000 % 2 ^ 32)

def toInt32 (n : Nat) : Int := if n < 2 ^ 31 then n else n - 2 ^ 32

def getCaptureLength : Decode Int :=
  let length := toInt32 (p.captureLength.getD p.caplen)
  if length < packetBufsize then .ok length else .error .assertion

def writeCaplen (size : Nat) : PcapPacket :=
  { p with
    buffer := store p.buffer 8 (leBytes 4 (swapl p.header (size % 2 ^ 32)))
    captureLength := none }

/-- `pcapfile_set_capture_length`, and the cache in `trace_set_capture_length`: what is returned and
the packet afterwards. -/
def setCaptureLength (size : Nat) : Decode (Nat × PcapPacket) := do
  let capture ← getCaptureLength p
  let p := if toSize capture < size then p else writeCaplen p size
  let capture ← getCaptureLength p
  return (toSize capture, { p with captureLength := some capture.toNat })

def memoryAt (q : Nat) : Memory := fun i =>
  if q + i < packetBufsize then some (p.buffer (q + i)) else none

def payloadBytes (length : Nat) : Decode (List UInt8) :=
  match p.payload with
  | some q => .ok (window p.buffer q (q + length))
  | none => if length = 0 then .ok [] else .error .nullPointer

/-- `trace_copy_packet`, into a new buffer of 65536 bytes with unknown contents. -/
def copyPacket (junk : Nat → UInt8) : Decode PcapPacket := do
  let capture ← getCaptureLength p
  let length := (capture % 2 ^ 64).toNat
  if 65536 < pktHdrSize + length then throw .outOfRange
  let header := window p.buffer 0 pktHdrSize
  let data ← payloadBytes p length
  return ⟨⟨store (store junk 0 header) pktHdrSize data, some pktHdrSize, none⟩, p.header, p.type⟩

end

def le32 (m : Memory) (i : Nat) : Decode Nat := do
  let low ← le16 m i
  let high ← le16 m (i + 2)
  return high * 65536 + low

theorem byte_agree {m m' : Memory} {i : Nat} (h : m' i = m i) : byte m' i = byte m i := by
  rw [byte, byte, h]

theorem byte_ok {m : Memory} {i n : Nat} (h : byte m i = .ok n) :
    ∃ b, m i = some b ∧ b.toNat = n := by
  unfold byte at h
  split at h
  · rename_i b hb
    exact ⟨b, hb, Except.ok.inj h⟩
  · cases h

theorem le32_agree {m m' : Memory} {i : Nat} (h : ∀ j < i + 4, m' j = m j) :
    le32 m' i = le32 m i := by
  simp only [le32, le16, byte_agree (h i (by omega)), byte_agree (h (i + 1) (by omega)),
    byte_agree (h (i + 2) (by omega)), byte_agree (h (i + 2 + 1) (by omega))]

def skipBitmasks (m : Memory) : Nat → Nat → Decode Nat
  | 0, _ => .error .unfinished
  | fuel + 1, q => do
    let mask ← le32 m q
    if mask / 2 ^ 31 % 2 = 1 then skipBitmasks m fuel (q + 4) else return q + 4

/-- For a radiotap header: the flags, or nothing if there is no such field. -/
def wirelessFlags (m : Memory) : Decode (Option Nat) := do
  let present ← le32 m 4
  if present / 2 % 2 = 0 then return none
  let q ← skipBitmasks m packetBufsize 4
  let flags ← byte m (if present % 2 = 1 then q + 8 else q)
  return some flags

def headerFlags (p : PcapPacket) : Decode (Option Nat) :=
  match p.payload with
  | none => .ok none
  | some q => wirelessFlags (memoryAt p q)

/-- Whether a checksum is added that the file does not count. `flags` is what the variable holds if
no wireless flags are found. -/
def missingFcs (flags : Nat) (p : PcapPacket) : Decode Bool :=
  if p.type = pcapLinktypeToRt 1 then .ok true
  else if p.type = pcapLinktypeToRt 127 then do
    let found ← headerFlags p
    return found.getD flags / 16 % 2 = 0
  else if p.type = pcapLinktypeToRt 113 then
    match p.payload with
    | none => .error .nullPointer
    | some q => do
      let protocol ← be16 (memoryAt p q) 14
      return protocol = 0x0060
  else .ok false

theorem missingFcs_congr {p p' : PcapPacket} (flags : Nat) (htype : p'.type = p.type)
    (hpayload : p'.payload = p.payload)
    (hbytes : ∀ q, p.payload = some q → memoryAt p' q = memoryAt p q) :
    missingFcs flags p' = missingFcs flags p := by
  rw [missingFcs, missingFcs, headerFlags, headerFlags, htype, hpayload]
  cases hq : p.payload with
  | none => rfl
  | some q => simp only [hbytes q hq]

def formatWireLength (flags : Nat) (p : PcapPacket) : Decode Nat := do
  let missing ← missingFcs flags p
  return if missing then (p.wirelen + 4) % 2 ^ 32 else p.wirelen

def getWireLength (flags : Nat) (p : PcapPacket) : Decode Int := do
  let n ← formatWireLength flags p
  let length := toInt32 n
  if length < packetBufsize then return length else throw .assertion

def encodeFileHeader (network : Nat) : List UInt8 :=
  leBytes 4 0xa1b2c3d4 ++ leBytes 2 2 ++ leBytes 2 4 ++ leBytes 4 0 ++ leBytes 4 0 ++
    leBytes 4 65536 ++ leBytes 4 network

def encodePktHdr (sec usec caplen wirelen : Nat) : List UInt8 :=
  leBytes 4 sec ++ leBytes 4 usec ++ leBytes 4 caplen ++ leBytes 4 wirelen

/-- Without the checksum of an Ethernet frame, as a `size_t`. -/
def writtenWireLength (linktype : LinkType) (wire : Int) : Nat :=
  if linktype = .eth then if wire < 0 ∨ 4 ≤ wire then ((wire - 4) % 2 ^ 32).toNat else 0
  else (wire % 2 ^ 32).toNat

/-- The file afterwards, and what is returned. It is opened for the first packet. No packet of a
pcap trace has a link type that would be demoted. -/
def writePacket (file : Option (List UInt8)) (flags : Nat) (p : PcapPacket) :
    Decode (Option (List UInt8) × Nat) := do
  let (sec, usec) := getTimeval p
  let linktype ← getLinkType p
  let capture ← getCaptureLength p
  let wire ← getWireLength flags p
  if capture < 0 then throw .assertion
  if linktype = .nondata ∨ linktype = .unknown then return (file, 0)
  match libtraceToPcapLinktype linktype with
  | none => throw .assertion
  | some network =>
    let opened := file.getD (encodeFileHeader network)
    let wirelen := writtenWireLength linktype wire
    let caplen := min capture.toNat wirelen
    let data ← payloadBytes p caplen
    return (some (opened ++ encodePktHdr sec usec caplen wirelen ++ data), pktHdrSize + caplen)

end Libtrace.PcapFile
