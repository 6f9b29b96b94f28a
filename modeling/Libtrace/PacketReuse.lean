import Libtrace.PacketAccess
import Libtrace.PcapRecords

/-! Packet objects, into which a program reads records from one or several traces:
`trace_read_packet`, `trace_fin_packet` and the accessors with all that they cache. The traces are
started pcap files without filter and snap length. The contents of uninitialised variables are
arguments. -/

namespace Libtrace.PacketReuse
open Exec Protocols PacketAccess
open PcapFile (FileHeader PcapPacket FileError packetBufsize pcapLinktypeToRt toInt32)

structure Origin where
  id : Nat
  header : FileHeader
  deriving DecidableEq, Repr

/-- A packet with a buffer of its own; a pointer to the header points to its start. A cached length
of -1 is `none`. -/
structure PacketObject where
  trace : Option Origin
  buffer : Nat → UInt8
  hasHeader : Bool
  payload : Option Nat
  type : Nat
  captureLength : Option Int
  wireLength : Option Int
  caches : Caches

def createPacket (buffer : Nat → UInt8) : PacketObject where
  trace := none
  buffer
  hasHeader := false
  payload := none
  type := 0
  captureLength := none
  wireLength := none
  caches := clearCache

variable (o : PacketObject)

def finPacket : PacketObject := { createPacket o.buffer with type := o.type }

inductive ReadOutcome where
  | eof
  | error (e : FileError)
  | overflow
  | packet (ret : Nat)
  deriving DecidableEq, Repr

def bufferAfterFailure (t : PcapFile.Trace) (buffer : Nat → UInt8) : Nat → UInt8 :=
  let hdr := t.io.take PcapFile.pktHdrSize
  let buffer := Window.store buffer 0 hdr
  let caplen := PcapFile.swapl t.header (PcapFile.uint32At buffer 8)
  if hdr.length < PcapFile.pktHdrSize ∨ packetBufsize ≤ caplen then buffer
  else Window.store buffer PcapFile.pktHdrSize ((t.io.drop PcapFile.pktHdrSize).take caplen)

def readPacket (t : PcapFile.Trace) (o : PacketObject) :
    ReadOutcome × PcapFile.Trace × PacketObject :=
  let type := pcapLinktypeToRt (PcapFile.swapl t.header t.header.network.toNat)
  let failed := { o with type, buffer := bufferAfterFailure t o.buffer }
  match PcapFile.readPacket t ⟨o.buffer, o.payload, none⟩ with
  | (.eof, t') => (.eof, t', failed)
  | (.error e, t') => (.error e, t', failed)
  | (.overflow, t') => (.overflow, t', failed)
  | (.packet p ret, t') =>
    (.packet ret, t',
      { o with
        type
        buffer := p.buffer
        hasHeader := true
        payload := p.payload
        captureLength := (p.captureLength.map Int.ofNat).or o.captureLength })

/-- The packet is only finished if it was read from the same trace before. -/
def traceReadPacket (id : Nat) (t : PcapFile.Trace) (o : PacketObject) :
    ReadOutcome × PcapFile.Trace × PacketObject :=
  let o := if o.trace.map Origin.id = some id then finPacket o else o
  readPacket t { o with trace := some ⟨id, t.header⟩ }

def PacketObject.described : Decode PcapPacket :=
  match o.trace with
  | none => .error .nullPointer
  | some origin => .ok ⟨⟨o.buffer, o.payload, none⟩, origin.header, o.type⟩

def PacketObject.withHeader : Decode PcapPacket := do
  let p ← o.described
  if o.hasHeader then return p else throw .assertion

/-- Nothing can be read through a null pointer. -/
def PacketObject.memory : Memory := fun i =>
  match o.payload with
  | none => none
  | some q => if q + i < packetBufsize then some (o.buffer (q + i)) else none

abbrev Use := Prog Fault PacketObject

def checkLength (n : Int) : Use Int := if n < packetBufsize then pure n else throw .assertion

def cacheInt (n : Int) : Option Int := if n = -1 then none else some n

def getLinkType : Use LinkType := do
  let o ← get
  if o.caches.linkType = .legacy then
    let p ← (o.described : Decode PcapPacket)
    let linktype ← (PcapFile.getLinkType p : Decode LinkType)
    modify fun o => { o with caches := { o.caches with linkType := linktype } }
    return linktype
  else return o.caches.linkType

def getCaptureLength : Use Int := do
  let o ← get
  match o.captureLength with
  | some n => checkLength n
  | none =>
    let p ← (o.withHeader : Decode PcapPacket)
    modify ({ · with captureLength := cacheInt (toInt32 p.caplen) })
    checkLength (toInt32 p.caplen)

def getWirelessFlags (m : Memory) (linktype : LinkType) : Decode (Option Nat) :=
  match linktype with
  | .ieee80211Radio => PcapFile.wirelessFlags m
  | .linuxSll => do
    let arphrd ← be16 m 2
    if arphrdTypeToLibtrace arphrd = .ieee80211Radio then
      PcapFile.wirelessFlags fun i => m (16 + i)
    else return none
  | _ => .ok none

def PacketObject.wirelessFlags (linktype : LinkType) : Decode (Option Nat) :=
  match o.payload with
  | none => .ok none
  | some _ => getWirelessFlags o.memory linktype

/-- For radiotap the cached link type decides how the flags are looked for. -/
def missingFcs (flags : Nat) : Use Bool := do
  let o ← get
  let p ← (o.withHeader : Decode PcapPacket)
  if p.type = pcapLinktypeToRt 127 then
    let linktype ← getLinkType
    let found ← (o.wirelessFlags linktype : Decode (Option Nat))
    return found.getD flags / 16 % 2 = 0
  else (PcapFile.missingFcs flags p : Decode Bool)

def wireLengthOf (p : PcapPacket) (missing : Bool) : Int :=
  toInt32 (if missing then (p.wirelen + 4) % 2 ^ 32 else p.wirelen)

def getWireLength (flags : Nat) : Use Int := do
  let o ← get
  match o.wireLength with
  | some n => checkLength n
  | none =>
    let p ← (o.withHeader : Decode PcapPacket)
    let missing ← missingFcs flags
    modify ({ · with wireLength := cacheInt (wireLengthOf p missing) })
    checkLength (wireLengthOf p missing)

def bufferSize (capture wire : Int) : Nat :=
  if wire < 0 then capture.toNat else if wire < capture then wire.toNat else capture.toNat

def getPacketBuffer (flags : Nat) : Use (Found LinkType) := do
  let linktype ← getLinkType
  let capture ← getCaptureLength
  let wire ← getWireLength flags
  if capture < 0 then throw .assertion
  let o ← get
  return ⟨o.payload.map fun _ => 0, linktype, bufferSize capture wire⟩

def locateLayer2 (m : Memory) (buffer : Found LinkType) : Decode (Found LinkType) :=
  if buffer.ptr.isNone ∧ ¬ isLayer2 buffer.type ∧ buffer.type ≠ .unknown then .error .assertion
  else findLayer2 m buffer

def getLayer2 (flags : Nat) : Use (Found LinkType) := do
  let o ← get
  if o.caches.l2Header.isSome then
    return ⟨o.caches.l2Header, o.caches.linkType, o.caches.l2Remaining⟩
  let buffer ← getPacketBuffer flags
  let found ← (locateLayer2 o.memory buffer : Decode (Found LinkType))
  modify fun o => { o with caches := o.caches.storeL2 found }
  return found

/-- A decoder that finds the packet too short does not follow a null pointer. -/
def locateLayer3 (m : Memory) (link : Found LinkType) (ethertype : Nat) : Decode (Found Nat) :=
  match link.ptr with
  | some _ => findLayer3 m link ethertype
  | none => findLayer3 (fun _ => none) { link with ptr := some 0 } ethertype

def linkHeader (flags : Nat) (c : Caches) : Use (Found LinkType) :=
  if c.l2Header.isSome then pure ⟨c.l2Header, c.linkType, c.l2Remaining⟩ else getLayer2 flags

def getLayer3 (flags ethertype : Nat) : Use (Found Nat) := do
  let o ← get
  if o.caches.l3Header.isSome then
    return ⟨o.caches.l3Header, o.caches.l3Ethertype, o.caches.l3Remaining⟩
  let link ← linkHeader flags o.caches
  let found ← (locateLayer3 o.memory link ethertype : Decode (Found Nat))
  modify fun o => { o with caches := o.caches.storeL3 found }
  return found

def getTransport (flags proto ethertype : Nat) : Use (Found Nat) := do
  let o ← get
  if o.caches.l4Header.isSome then
    return ⟨o.caches.l4Header, o.caches.transportProto, o.caches.l4Remaining⟩
  let l3 ← getLayer3 flags ethertype
  match l3.ptr with
  | none => return ⟨none, proto, l3.remaining⟩
  | some p =>
    let found ← (findTransport o.memory p l3.type proto l3.remaining : Decode (Found Nat))
    modify fun o => { o with caches := o.caches.storeL4 found }
    return found

def measurePayload (flags ethertype inner proto : Nat) : Use (Option Int) := do
  let o ← get
  let l3 ← getLayer3 flags ethertype
  match l3.ptr with
  | none => return none
  | some p =>
    let len ← (layer3Length o.memory p l3.type l3.remaining : Decode (Option Int))
    match len with
    | none => return none
    | some len =>
      let l4 ← getTransport flags proto inner
      match l4.ptr with
      | none => return none
      | some q => (transportLength o.memory q l4.type l4.remaining len : Decode (Option Int))

def storePayloadLength (len : Int) (o : PacketObject) : PacketObject :=
  { o with caches := { o.caches with payloadLength := len } }

def getPayloadLength (flags ethertype inner proto : Nat) : Use Nat := do
  let o ← get
  if o.caches.payloadLength ≠ -1 then return toSize o.caches.payloadLength
  modify (storePayloadLength 0)
  let len ← measurePayload flags ethertype inner proto
  match len with
  | none => return 0
  | some len =>
    modify (storePayloadLength (Int.bmod len (2 ^ 32)))
    return toSize len

inductive Query where
  | linkType
  | captureLength
  | wireLength (flags : Nat)
  | layer2 (flags : Nat)
  | layer3 (flags ethertype : Nat)
  | transport (flags proto ethertype : Nat)
  | payloadLength (flags ethertype inner proto : Nat)
  deriving DecidableEq, Repr

inductive Reply where
  | linkType (type : LinkType)
  | length (n : Int)
  | layer2 (found : Found LinkType)
  | header (found : Found Nat)
  | payloadLength (len : Nat)
  deriving DecidableEq, Repr

def perform : Query → Use Reply
  | .linkType => .linkType <$> getLinkType
  | .captureLength => .length <$> getCaptureLength
  | .wireLength flags => .length <$> getWireLength flags
  | .layer2 flags => .layer2 <$> getLayer2 flags
  | .layer3 flags ethertype => .header <$> getLayer3 flags ethertype
  | .transport flags proto ethertype => .header <$> getTransport flags proto ethertype
  | .payloadLength flags ethertype inner proto =>
    .payloadLength <$> getPayloadLength flags ethertype inner proto

def replies : List Query → PacketObject → List (Decode Reply)
  | [], _ => []
  | q :: qs, o =>
    match perform q o with
    | .error e => [.error e]
    | .ok (r, o') => .ok r :: replies qs o'

end Libtrace.PacketReuse
