import Libtrace.PacketAccess
import Libtrace.TraceAnon

/-! What `traceanon` does to a packet. The accessors may read everything behind the start of the
packet; `encrypt_ips` faults when it leaves the captured bytes. -/

namespace Libtrace.AnonPacket
open Protocols PacketAccess

structure Anonymiser (σ : Type) where
  anonIPv4 : σ → BitVec 32 → BitVec 32 × σ
  anonIPv6 : σ → TraceAnon.Block → TraceAnon.Block × σ

def cryptoAnon (c : TraceAnon.CryptoAnon) : Anonymiser TraceAnon.Caches :=
  ⟨TraceAnon.anonIPv4 c, TraceAnon.anonIPv6 c⟩

structure Work (σ : Type) where
  pkt : Packet
  anon : σ
  written : List Nat

section

variable {σ : Type}

def put (p : Nat) (values : List UInt8) (w : Work σ) : Work σ :=
  { w with
    pkt := { w.pkt with bytes := fun i =>
      if p ≤ i then (values[i - p]?).getD (w.pkt.bytes i) else w.pkt.bytes i }
    written := w.written ++ List.range' p values.length }

def store (p : Nat) (values : List UInt8) (w : Work σ) : Decode (Work σ) :=
  if p + values.length ≤ w.pkt.size then .ok (put p values w) else .error .outOfRange

end

def be32 (m : Memory) (p : Nat) : Decode (BitVec 32) := do
  let high ← be16 m p
  let low ← be16 m (p + 2)
  return .ofNat 32 (high * 65536 + low)

def addressBytes (x : BitVec 32) : List UInt8 :=
  [⟨x.extractLsb' 24 8⟩, ⟨x.extractLsb' 16 8⟩, ⟨x.extractLsb' 8 8⟩, ⟨x.extractLsb' 0 8⟩]

section

variable {σ : Type} (a : Anonymiser σ)

def getPayload (m : Memory) (ip : Nat) : Decode (Option Nat) := do
  let first ← byte m ip
  if first / 16 ≠ 4 then return none
  let off ← be16 m (ip + 6)
  if off % 0x2000 ≠ 0 then return none
  return some (ip + first % 16 * 4)

def getIcmpFromIp (m : Memory) (ip : Nat) : Decode (Option Nat) := do
  let prot ← byte m (ip + 9)
  if prot = 1 then getPayload m ip else return none

def encryptAddress (p : Nat) (w : Work σ) : Decode (Work σ) := do
  let x ← be32 w.pkt.captured p
  let y := a.anonIPv4 w.anon x
  store p (addressBytes y.1) { w with anon := y.2 }

def encryptIf (enc : Bool) (p : Nat) (w : Work σ) : Decode (Work σ) :=
  if enc then encryptAddress a p w else .ok w

def isError (type : Nat) : Bool := type = 3 || type = 5 || type = 11

def clearIcmp (enc : Bool) (icmp : Nat) (w : Work σ) : Decode (Work σ) :=
  if enc then store (icmp + 2) [0, 0] w else .ok w

def encryptIps : Nat → Work σ → Nat → Bool → Bool → Decode (Work σ)
  | 0, _, _, _, _ => .error .unfinished
  | fuel + 1, w, ip, encSource, encDest => do
    let icmp ← getIcmpFromIp w.pkt.captured ip
    let w ← encryptIf a encSource (ip + 12) w
    let w ← encryptIf a encDest (ip + 16) w
    match icmp with
    | none => return w
    | some icmp =>
      let type ← byte w.pkt.captured icmp
      let w ← (if isError type then encryptIps fuel w (icmp + 8) encDest encSource else .ok w :
        Decode (Work σ))
      clearIcmp (encSource || encDest) icmp w

def encryptAddress6 (p : Nat) (w : Work σ) : Work σ :=
  let y := a.anonIPv6 w.anon fun i => (w.pkt.bytes (p + i)).toBitVec
  put p (List.ofFn fun i => ⟨y.1 i⟩) { w with anon := y.2 }

def encryptIpv6 (ip6 : Nat) (encSource encDest : Bool) (w : Work σ) : Work σ :=
  let w := if encSource then encryptAddress6 a (ip6 + 8) w else w
  if encDest then encryptAddress6 a (ip6 + 24) w else w

/-- `ethertype` is the local variable that `trace_get_layer3` may leave as it is. -/
def getIp (m : Memory) (pkt : Packet) (ethertype : Nat) : Access (Option Nat) := do
  let f ← getLayer3 m pkt ethertype
  match f.ptr with
  | none => return none
  | some p =>
    if f.type ≠ ethertypeIp ∨ f.remaining < 20 then return none
    else
      let first ← (byte m p : Decode Nat)
      return if first / 16 = 4 then some p else none

def getIp6 (m : Memory) (pkt : Packet) (ethertype : Nat) : Access (Option Nat) := do
  let f ← getLayer3 m pkt ethertype
  return if f.type ≠ ethertypeIpv6 ∨ f.remaining < 40 then none else f.ptr

def getHeader (protocol size : Nat) (m : Memory) (pkt : Packet) (proto ethertype : Nat) :
    Access (Option Nat) := do
  let f ← getTransport m pkt proto ethertype
  return if f.type = protocol ∧ size ≤ f.remaining then f.ptr else none

def getUdp : Memory → Packet → Nat → Nat → Access (Option Nat) := getHeader 17 8

def getTcp : Memory → Packet → Nat → Nat → Access (Option Nat) := getHeader 6 20

def getIcmp6 : Memory → Packet → Nat → Nat → Access (Option Nat) := getHeader 58 8

/-- The uninitialised `ethertype` of the accessors, and `proto` for a transport header. -/
structure Locals where
  ip : Nat
  ip6 : Nat
  udp : Nat × Nat
  tcp : Nat × Nat
  icmp6 : Nat × Nat

def anonymise (l : Locals) (encSource encDest : Bool) (w : Work σ) : Decode (Work σ × Caches) := do
  let ip ← getIp w.pkt.whole w.pkt l.ip clearCache
  let ip6 ← getIp6 w.pkt.whole w.pkt l.ip6 ip.2
  if encSource || encDest then
    match ip.1, ip6.1 with
    | some p, _ =>
      let w ← encryptIps a (w.pkt.size + 1) w p encSource encDest
      return (put (p + 10) [0, 0] w, ip6.2)
    | none, some p => return (encryptIpv6 a p encSource encDest w, ip6.2)
    | none, none => return (w, ip6.2)
  else return (w, ip6.2)

def clearCheck (get : Memory → Packet → Nat → Nat → Access (Option Nat)) (field : Nat)
    (unset : Nat × Nat) (enc : Bool) (x : Work σ × Caches) : Decode (Work σ × Caches) := do
  let found ← get x.1.pkt.whole x.1.pkt unset.2 unset.1 x.2
  return (match enc, found.1 with
    | true, some p => put (p + field) [0, 0] x.1
    | _, _ => x.1, found.2)

def clearChecks (l : Locals) (enc : Bool) (x : Work σ × Caches) : Decode (Work σ × Caches) := do
  let x ← clearCheck getUdp 6 l.udp enc x
  let x ← clearCheck getTcp 16 l.tcp enc x
  clearCheck getIcmp6 2 l.icmp6 enc x

def perPacket (l : Locals) (encSource encDest : Bool) (w : Work σ) : Decode (Work σ) := do
  let x ← anonymise a l encSource encDest w
  let y ← clearChecks l (encSource || encDest) x
  return y.1

end

end Libtrace.AnonPacket
