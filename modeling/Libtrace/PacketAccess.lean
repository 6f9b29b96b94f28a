import Libtrace.Exec
import Libtrace.Protocols

/-! The accessors of a packet and the caches they fill. The contents of uninitialised variables are
arguments. -/

namespace Libtrace.PacketAccess
open Exec Protocols

/-- What a format reports. The lengths are those that the assertions on capture length, wire length
and buffer let through. -/
structure Packet where
  bytes : Nat → UInt8
  linkType : LinkType
  captureLength : Nat
  wireLength : Int
  captureLength_lt : captureLength < 65536
  wireLength_lt : wireLength < 65536

def Packet.size (pkt : Packet) : Nat :=
  if pkt.wireLength < 0 then pkt.captureLength
  else if pkt.wireLength < pkt.captureLength then pkt.wireLength.toNat
  else pkt.captureLength

def Packet.whole (pkt : Packet) : Memory := fun i => some (pkt.bytes i)

def Packet.captured (pkt : Packet) : Memory := fun i =>
  if i < pkt.size then some (pkt.bytes i) else none

structure Caches where
  linkType : LinkType
  l2Header : Option Nat
  l2Remaining : Nat
  l3Header : Option Nat
  l3Ethertype : Nat
  l3Remaining : Nat
  l4Header : Option Nat
  transportProto : Nat
  l4Remaining : Nat
  payloadLength : Int

def clearCache : Caches := ⟨.legacy, none, 0, none, 0, 0, none, 0, 0, -1⟩

abbrev Access := Prog Fault Caches

def getLinkType (pkt : Packet) : Access LinkType := do
  let c ← get
  if c.linkType = .legacy then modify fun c => { c with linkType := pkt.linkType }
  return (← get).linkType

def getPacketBuffer (pkt : Packet) : Access (Found LinkType) := do
  let linktype ← getLinkType pkt
  return ⟨some 0, linktype, pkt.size⟩

def isLayer2 : LinkType → Bool
  | .hdlcPos | .eth | .atm | .ieee80211 | .none | .pos | .aal5 | .duck | .llcsnap | .ppp => true
  | .metadata | .nondata | .openbsdLoop => true
  | _ => false

def isMeta : LinkType → Bool
  | .linuxSll | .ieee80211Radio | .ieee80211Prism | .pflog => true
  | _ => false

def skipMeta (m : Memory) : Nat → Nat → LinkType → Nat → Decode (Found LinkType)
  | 0, _, _, _ => .error .unfinished
  | fuel + 1, p, linktype, remaining => do
    let next ← getPayloadFromMeta m p linktype remaining
    match next.ptr with
    | some q => skipMeta m fuel q next.type next.remaining
    | none =>
      return ⟨if isLayer2 next.type then some p else none, next.type, next.remaining⟩

def metaRounds : Nat := 3

variable (m : Memory)

def findLayer2 (buffer : Found LinkType) : Decode (Found LinkType) :=
  if isLayer2 buffer.type then .ok buffer
  else if buffer.type = .unknown then .ok ⟨none, .unknown, buffer.remaining⟩
  else skipMeta m metaRounds 0 buffer.type buffer.remaining

def Caches.storeL2 (c : Caches) (found : Found LinkType) : Caches :=
  if found.ptr.isSome then { c with l2Header := found.ptr, l2Remaining := found.remaining } else c

def getLayer2 (pkt : Packet) : Access (Found LinkType) := do
  let c ← get
  if c.l2Header.isSome then return ⟨c.l2Header, c.linkType, c.l2Remaining⟩
  let buffer ← getPacketBuffer pkt
  let found ← (findLayer2 m buffer : Decode (Found LinkType))
  modify (·.storeL2 found)
  return found

/-- The test for Ethernet below MPLS compares the pointer `ethertype` with zero, so it never
fires. -/
def skipEncapsulation (m : Memory) : Nat → Option Nat → Nat → Nat → Decode (Found Nat)
  | 0, _, _, _ => .error .unfinished
  | _ + 1, none, type, remaining => .ok ⟨none, type, remaining⟩
  | fuel + 1, some p, type, remaining =>
    if remaining = 0 then .ok ⟨some p, type, remaining⟩
    else if type = ethertype8021q then do
      let f ← getPayloadFromVlan m p type remaining
      skipEncapsulation m fuel f.ptr f.type f.remaining
    else if type = ethertypeMpls then do
      let f ← getPayloadFromMpls m p type remaining
      skipEncapsulation m fuel f.ptr f.type f.remaining
    else if type = ethertypePppSes then do
      let f ← getPayloadFromPppoe m p type remaining
      skipEncapsulation m fuel f.ptr f.type f.remaining
    else .ok ⟨some p, type, remaining⟩

def findLayer3 (link : Found LinkType) (ethertype : Nat) : Decode (Found Nat) := do
  let f ← getPayloadFromLayer2 m link.ptr link.type ethertype link.remaining
  let f ← skipEncapsulation m (f.remaining + 2) f.ptr f.type f.remaining
  return if f.remaining = 0 then { f with ptr := none } else f

def Caches.storeL3 (c : Caches) (found : Found Nat) : Caches :=
  if found.ptr.isSome then
    { c with l3Header := found.ptr, l3Ethertype := found.type, l3Remaining := found.remaining }
  else c

def linkHeader (pkt : Packet) (c : Caches) : Access (Found LinkType) :=
  if c.l2Header.isSome then pure ⟨c.l2Header, c.linkType, c.l2Remaining⟩ else getLayer2 m pkt

def getLayer3 (pkt : Packet) (ethertype : Nat) : Access (Found Nat) := do
  let c ← get
  if c.l3Header.isSome then return ⟨c.l3Header, c.l3Ethertype, c.l3Remaining⟩
  let link ← linkHeader m pkt c
  let found ← (findLayer3 m link ethertype : Decode (Found Nat))
  modify (·.storeL3 found)
  return found

def findTransport (p ethertype proto remaining : Nat) : Decode (Found Nat) :=
  if ethertype = ethertypeIp then do
    let f ← getPayloadFromIp m p proto remaining
    match f.ptr with
    | some q => if f.type = 41 then getPayloadFromIp6 m q f.type f.remaining else return f
    | none => return f
  else if ethertype = ethertypeIpv6 then getPayloadFromIp6 m p proto remaining
  else .ok ⟨none, 0, remaining⟩

def Caches.storeL4 (c : Caches) (found : Found Nat) : Caches :=
  { c with l4Header := found.ptr, transportProto := found.type, l4Remaining := found.remaining }

/-- `ethertype` is the local variable that `trace_get_layer3` may leave as it is. -/
def getTransport (pkt : Packet) (proto ethertype : Nat) : Access (Found Nat) := do
  let c ← get
  if c.l4Header.isSome then return ⟨c.l4Header, c.transportProto, c.l4Remaining⟩
  let l3 ← getLayer3 m pkt ethertype
  match l3.ptr with
  | none => return ⟨none, proto, l3.remaining⟩
  | some p =>
    let found ← (findTransport m p l3.type proto l3.remaining : Decode (Found Nat))
    modify (·.storeL4 found)
    return found

def toSize (x : Int) : Nat := (x % 2 ^ 64).toNat

theorem toSize_ofNat {n : Nat} (h : n < 2 ^ 64) : toSize (n : Int) = n := by
  unfold toSize
  omega

def layer3Length (p ethertype remaining : Nat) : Decode (Option Int) :=
  if ethertype = ethertypeIp then
    if remaining < 20 then .ok none
    else do
      let first ← byte m p
      let len ← be16 m (p + 2)
      let prot ← byte m (p + 9)
      return some (len - 4 * (first % 16 : Nat) - if prot = 41 then 40 else 0)
  else if ethertype = ethertypeIpv6 then
    if remaining < 40 then .ok none
    else do
      let plen ← be16 m (p + 4)
      return some plen
  else .ok none

def takeHeader (size : Nat) (len : Int) : Option Int :=
  if toSize len < size then none else some (len - size)

def transportLength (p proto remaining : Nat) (len : Int) : Decode (Option Int) :=
  if proto = 6 then
    if remaining < 20 then .ok none
    else do
      let offset ← byte m (p + 12)
      return takeHeader (4 * (offset / 16)) len
  else if proto = 17 ∨ proto = 1 ∨ proto = 58 then
    .ok (if remaining < 8 then none else takeHeader 8 len)
  else .ok none

/-- Nothing where `trace_get_payload_length` returns early. `ethertype` and `inner` are local
variables. -/
def measurePayload (pkt : Packet) (ethertype inner proto : Nat) : Access (Option Int) := do
  let l3 ← getLayer3 m pkt ethertype
  match l3.ptr with
  | none => return none
  | some p =>
    let len ← (layer3Length m p l3.type l3.remaining : Decode (Option Int))
    match len with
    | none => return none
    | some len =>
      let l4 ← getTransport m pkt proto inner
      match l4.ptr with
      | none => return none
      | some q => (transportLength m q l4.type l4.remaining len : Decode (Option Int))

def getPayloadLength (pkt : Packet) (ethertype inner proto : Nat) : Access Nat := do
  let c ← get
  if c.payloadLength ≠ -1 then return toSize c.payloadLength
  modify ({ · with payloadLength := 0 })
  let len ← measurePayload m pkt ethertype inner proto
  match len with
  | none => return 0
  | some len =>
    modify ({ · with payloadLength := Int.bmod len (2 ^ 32) })
    return toSize len

def getSourceMacFromWifi (p : Nat) : Decode (Option Nat) := do
  let control ← byte m p
  return if control / 4 % 4 = 1 ∧ control / 32 % 2 = 0 then none else some (p + 10)

def getSourceMac (pkt : Packet) : Access (Option Nat) := do
  let link ← getLayer2 m pkt
  match link.ptr with
  | none => return none
  | some p =>
    match link.type with
    | .eth => return some (p + 6)
    | .ieee80211 => (getSourceMacFromWifi m p : Decode (Option Nat))
    | .linuxSll | .ieee80211Prism | .ieee80211Radio | .legacy => throw .assertion
    | _ => return none

def getDestinationMac (pkt : Packet) : Access (Option Nat) := do
  let link ← getLayer2 m pkt
  match link.ptr with
  | none => return none
  | some p =>
    match link.type with
    | .ieee80211 => return some (p + 4)
    | .eth => return some p
    | .linuxSll | .ieee80211Prism | .ieee80211Radio | .legacy => throw .assertion
    | _ => return none

inductive Call where
  | layer2
  | layer3 (ethertype : Nat)
  | transport (proto ethertype : Nat)
  | payloadLength (ethertype inner proto : Nat)
  | sourceMac
  | destinationMac
  deriving DecidableEq, Repr

inductive Answer where
  | layer2 (found : Found LinkType)
  | layer3 (found : Found Nat)
  | transport (found : Found Nat)
  | payloadLength (len : Nat)
  | mac (ptr : Option Nat)
  deriving DecidableEq, Repr

def perform (pkt : Packet) : Call → Access Answer
  | .layer2 => .layer2 <$> getLayer2 m pkt
  | .layer3 ethertype => .layer3 <$> getLayer3 m pkt ethertype
  | .transport proto ethertype => .transport <$> getTransport m pkt proto ethertype
  | .payloadLength ethertype inner proto =>
    .payloadLength <$> getPayloadLength m pkt ethertype inner proto
  | .sourceMac => .mac <$> getSourceMac m pkt
  | .destinationMac => .mac <$> getDestinationMac m pkt

end Libtrace.PacketAccess
