import Libtrace.Checksum
import Libtrace.PayloadLength

/-! The checksum of a TCP, UDP or ICMP segment as `trace_checksum_transport` computes it, and the
sum by which a receiver verifies it. -/

namespace Libtrace.TransportChecksum
open Orbit EndAround Checksum ByteOrder Toeplitz Protocols PacketAccess PacketLayout HeaderChain
  ReadBounds ExtensionWalk FlowHash PayloadLength

/-- What local variables hold before they are written, here and in the callees. -/
structure Locals where
  ethertype : Nat
  transportEthertype : Nat
  lengthEthertype : Nat
  lengthInner : Nat
  lengthProto : Nat
  safety : Nat → UInt8

section

def addTemp (temp : Nat) : Nat := addChecksum (leBytes 2 temp)

variable (m : Memory)

def ipv4PseudoChecksum (ip : Nat) : Decode Nat := do
  let src ← load m (ip + 12) 4
  let dst ← load m (ip + 16) 4
  let proto ← byte m (ip + 9)
  let len ← be16 m (ip + 2)
  let first ← byte m ip
  let rest := ((len : Int) - (first % 16 * 4 : Nat)) % 65536
  return addChecksum src + addChecksum dst + addTemp (ntohs proto) + addTemp (ntohs rest.toNat)

def ipv6PseudoChecksum (ip : Nat) : Decode Nat := do
  let src ← load m (ip + 8) 16
  let dst ← load m (ip + 24) 16
  let plen ← load m (ip + 4) 2
  let nxt ← byte m (ip + 6)
  return addChecksum src + addChecksum dst + addChecksum plen + addTemp (ntohs nxt)

def pseudoChecksum (header ethertype remaining : Nat) : Decode (Option Nat) :=
  if ethertype = ethertypeIp then
    if remaining < 20 then .ok none else some <$> ipv4PseudoChecksum m header
  else if ethertype = ethertypeIpv6 then
    if remaining < 40 then .ok none else some <$> ipv6PseudoChecksum m header
  else .ok (some 0)

def checksumField (proto : Nat) : Option Nat :=
  if proto = 6 then some 16 else if proto = 17 then some 6 else if proto = 1 then some 2 else none

def headerLength (p proto : Nat) : Decode Nat :=
  if proto = 6 then do
    let b ← byte m (p + 12)
    return 4 * (b / 16)
  else .ok 8

/-- What follows a header, and the bytes from there on. -/
def getPayloadFrom (p size remaining : Nat) : Option Nat × Nat :=
  if remaining < size then (none, 0) else (some (p + size), remaining - size)

def copyHeader (safety : Nat → UInt8) (header : List UInt8) (field : Nat) : Nat → UInt8 :=
  fun i => if i = field ∨ i = field + 1 then 0 else header.getD i (safety i)

/-- The length of a TCP header is read from the copy. -/
def copied (proto : Nat) (safety : Nat → UInt8) : List UInt8 :=
  (List.range (if proto = 6 then 4 * ((safety 12).toNat / 16) else 8)).map safety

def checksumSegment (pkt : Packet) (l : Locals) (pseudo p proto remaining field : Nat) :
    Access (Option (Nat × Nat)) := do
  let size ← (headerLength m p proto : Decode Nat)
  let (payload, remaining) := getPayloadFrom p size remaining
  let header ← (load m p size : Decode (List UInt8))
  -- ICMP does not use the pseudo header
  let sum := ((if proto = 1 then 0 else pseudo) +
    addChecksum (copied proto (copyHeader l.safety header field))) % 2 ^ 32
  let length ← getPayloadLength m pkt l.lengthEthertype l.lengthInner l.lengthProto
  let plen := Int.bmod length (2 ^ 32)
  if plen < 0 then return none
  if remaining < plen.toNat then return none
  match payload with
  | none => return none
  | some payload =>
    let bytes ← (load m payload (plen.toNat % 65536) : Decode (List UInt8))
    return some (p + field, ntohs (finishChecksum ((sum + addChecksum bytes) % 2 ^ 32)))

def checksumTransport (pkt : Packet) (l : Locals) : Access (Option (Nat × Nat)) := do
  let l3 ← getLayer3 m pkt l.ethertype
  match l3.ptr with
  | none => return none
  | some header =>
    let pseudo ← (pseudoChecksum m header l3.type l3.remaining : Decode (Option Nat))
    match pseudo with
    | none => return none
    | some pseudo =>
      let l4 ← getTransport m pkt 0 l.transportEthertype
      match checksumField l4.type with
      | none => return none
      | some field =>
        match l4.ptr with
        | none => throw .nullPointer
        | some p => checksumSegment m pkt l pseudo p l4.type l4.remaining field

end

section

variable (pkt : Packet)

def optionNext (x : Place) : Option Place :=
  if x.type = 0 ∨ x.type = 43 ∨ x.type = 60 then rfcNext pkt x else none

def extBytes (x y : Place) : Nat :=
  if x.type = ethertypeIpv6 then y.offset - (x.offset + 40) else 0

/-- The packet is not a fragment and has a captured segment of `n` bytes at `y`, as all length
fields say. A trailer may follow. -/
structure Segment (x y : Place) (n : Nat) : Prop where
  captured : n ≤ y.remaining ∧ y.offset + n ≤ pkt.size
  header : headerSize pkt y ≤ n
  tcp : y.type = 6 → 20 ≤ headerSize pkt y
  udp : y.type = 17 → be pkt (y.offset + 4) = n
  carrier :
    x.type = ethertypeIp ∧ 20 ≤ x.remaining ∧ 5 ≤ (pkt.bytes x.offset).toNat % 16 ∧
        be pkt (x.offset + 6) / 0x2000 % 2 = 0 ∧
        ip4Next pkt x.offset x.remaining = some y ∧
        be pkt (x.offset + 2) = (pkt.bytes x.offset).toNat % 16 * 4 + n ∧
        (y.type = 6 ∨ y.type = 17 ∨ y.type = 1) ∨
      x.type = ethertypeIpv6 ∧ (y.type = 6 ∨ y.type = 17) ∧
        be pkt (x.offset + 4) = extBytes x y + n ∧
        ∃ start, extStart pkt x.offset x.remaining = some start ∧ Reach (optionNext pkt) start y

/-- Of RFC 793 and RFC 768 or of RFC 8200; RFC 792 has none. -/
def pseudoHeader (x y : Place) (n : Nat) : List UInt8 :=
  if y.type = 1 then []
  else if x.type = ethertypeIp then
    bytesAt pkt (x.offset + 12) 8 ++ [0, UInt8.ofNat y.type] ++ beBytes 2 n
  else bytesAt pkt (x.offset + 8) 32 ++ beBytes 4 n ++ [0, 0, 0, UInt8.ofNat y.type]

def verificationSum (x y : Place) (n : Nat) : Nat :=
  total 65536 (words (pseudoHeader pkt x y n ++ bytesAt pkt y.offset n))

def storeAt (p value : Nat) : Packet :=
  { pkt with
    bytes := fun i =>
      if i = p then UInt8.ofNat (value / 256) else if i = p + 1 then UInt8.ofNat value
      else pkt.bytes i }

/-- The checksum, once stored where the result points to, makes the sum come out as all ones. -/
def Verifies (l : Locals) (x y : Place) (n : Nat) : Prop :=
  ∃ field value, checksumField y.type = some field ∧
    (checksumTransport pkt.whole pkt l).run' clearCache = .ok (some (y.offset + field, value)) ∧
    verificationSum (storeAt pkt (y.offset + field) value) x y n = 65535

/-- There is a trailer at least as long as the extension headers, and that much of it, the first
next header value and the length of the extension headers give the same sum as the protocol. -/
structure Coincides (x y : Place) (n : Nat) : Prop where
  trailer : n + extBytes x y ≤ y.remaining
  sum : extBytes x y + (pkt.bytes (x.offset + 6)).toNat +
      (words (bytesAt pkt y.offset (n + extBytes x y))).sum ≡
    y.type + (words (bytesAt pkt y.offset n)).sum [MOD 65535]

end

end Libtrace.TransportChecksum
