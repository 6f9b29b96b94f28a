import Libtrace.HeaderChain
import Libtrace.PacketReuse

/-! `trace_strip_packet` on a packet of a pcap file. The cached values are cleared before each call;
what lies behind the captured bytes can be read. -/

namespace Libtrace.StripPacket
open Orbit ByteOrder Window Protocols PacketAccess PacketLayout HeaderChain
open PcapFile (PcapPacket pktHdrSize pcapLinktypeToRt swapl)
open PacketReuse (bufferSize locateLayer2 locateLayer3)

section

variable (p : PcapPacket)

def clear : PcapPacket := { p with captureLength := none }

def memory : Memory := fun i => p.payload.map fun q => p.buffer (q + i)

def getPacketBuffer (flags : Nat) (p : PcapPacket) : Decode (Found LinkType) := do
  let linktype ← PcapFile.getLinkType p
  let capture ← PcapFile.getCaptureLength (clear p)
  let wire ← PcapFile.getWireLength flags p
  if capture < 0 then throw .assertion
  return ⟨p.payload.map fun _ => 0, linktype, bufferSize capture wire⟩

def getLayer2 (flags : Nat) (p : PcapPacket) : Decode (Found LinkType) := do
  let buffer ← getPacketBuffer flags p
  locateLayer2 (memory p) buffer

def getLayer3 (flags ethertype : Nat) (p : PcapPacket) : Decode (Found Nat) := do
  let link ← getLayer2 flags p
  locateLayer3 (memory p) link ethertype

def setCaptureLength (size : Nat) : Decode PcapPacket :=
  Prod.snd <$> PcapFile.setCaptureLength (clear p) size

structure Stripped where
  nextpayload : Option Nat
  finalethertype : Nat
  removed : Nat
  deriving DecidableEq, Repr

def stripHeaders (m : Memory) : Nat → Option Nat → Nat → Nat → Nat → Decode Stripped
  | 0, _, _, _, _ => .error .unfinished
  | _ + 1, none, _, _, removed => .ok ⟨none, 0, removed⟩
  | fuel + 1, some p, type, remaining, removed =>
    if remaining = 0 then .ok ⟨some p, 0, removed⟩
    else if type = ethertype8021q then do
      let f ← getPayloadFromVlan m p type remaining
      stripHeaders m fuel f.ptr f.type f.remaining ((removed + (remaining - f.remaining)) % 65536)
    else if type = ethertypeMpls then do
      let f ← getPayloadFromMpls m p type remaining
      stripHeaders m fuel f.ptr f.type f.remaining ((removed + (remaining - f.remaining)) % 65536)
    else if type = ethertypePppSes then do
      let f ← getPayloadFromPppoe m p type remaining
      stripHeaders m fuel f.ptr f.type f.remaining ((removed + (remaining - f.remaining)) % 65536)
    else .ok ⟨some p, type, removed⟩

/-- All up to the end of the Ethernet header is moved to where the removed headers end. -/
def moveHeader (q ethernet next finalethertype size : Nat) : Decode PcapPacket := do
  let p := { p with buffer := store p.buffer (q + ethernet + 12) (beBytes 2 finalethertype) }
  let p ← setCaptureLength p size
  let q' := q + next - (ethernet + 14)
  return { p with
    buffer := store p.buffer q' (window p.buffer q (q + (ethernet + 14)))
    payload := some q' }

def finishStrip (q ethernet caplen : Nat) (s : Stripped) : Decode PcapPacket :=
  match s.nextpayload with
  | none => .ok p
  | some next =>
    moveHeader p q ethernet next s.finalethertype (toSize ((caplen : Int) - s.removed))

def stripPacket (flags : Nat) (p : PcapPacket) : Decode PcapPacket := do
  let link ← getLayer2 flags p
  if link.type ≠ .eth then return p
  match p.payload, link.ptr with
  | some q, some ethernet =>
    let raw ← le16 (memory p) (ethernet + 12)
    if raw = ethertypeIp ∨ raw = ethertypeIpv6 then return p
    if link.remaining ≤ 14 then return p
    let capture ← PcapFile.getCaptureLength (clear p)
    let caplen := (capture % 65536).toNat
    let ethertype ← be16 (memory p) (ethernet + 12)
    let s ← stripHeaders (memory p) (link.remaining + 2) (some (ethernet + 14)) ethertype
      (link.remaining - 14) 0
    finishStrip p q ethernet caplen s
  | _, _ => throw .nullPointer

end

section

/-- A packet of an Ethernet trace with its header at the start of its buffer, seen from its payload
on. There is no payload if nothing was captured of its first record. -/
structure Describes (p : PcapPacket) (pkt : Packet) : Prop where
  type : p.type = pcapLinktypeToRt 1
  ethernet : pkt.linkType = .eth
  capture : p.caplen = pkt.captureLength
  wire : (p.wirelen + 4 : Nat) = pkt.wireLength
  covered : pkt.captureLength ≤ pkt.wireLength
  payload : ∀ q, p.payload = some q → pktHdrSize ≤ q ∧ ∀ i, pkt.bytes i = p.buffer (q + i)
  empty : p.payload = none → pkt.captureLength = 0

def bytesFrom (p : PcapPacket) (f : Found Nat) : Option (List UInt8) :=
  match p.payload, f.ptr with
  | some q, some i => some (window p.buffer (q + i) (q + i + f.remaining))
  | _, _ => none

def SameLayer3 (p p' : PcapPacket) (f f' : Found Nat) : Prop :=
  (f.ptr = none ↔ f'.ptr = none) ∧
    (f.ptr ≠ none → f'.type = f.type ∧ f'.remaining = f.remaining ∧
      bytesFrom p' f' = bytesFrom p f)

/-- The captured bytes end within the Ethernet header or one that follows it. -/
def Truncated (pkt : Packet) : Prop :=
  pkt.size < 14 ∨ ∃ y, Ends (stackNext pkt) ⟨be pkt 12, 14, pkt.size - 14⟩ y ∧
    y.remaining ≠ 0 ∧ ¬ isLayer3 y

/-- The layer 3 view is kept, a truncated packet stays as it is, and a second time does nothing. -/
def StripKeeps (flags ethertype : Nat) (p : PcapPacket) (pkt : Packet) : Prop :=
  ∃ p', stripPacket flags p = .ok p' ∧
    (∃ f f', getLayer3 flags ethertype p = .ok f ∧ getLayer3 flags ethertype p' = .ok f' ∧
      SameLayer3 p p' f f') ∧
    (Truncated pkt → clear p' = clear p) ∧
    ∃ p'', stripPacket flags p' = .ok p'' ∧ clear p'' = clear p'

end

end Libtrace.StripPacket
