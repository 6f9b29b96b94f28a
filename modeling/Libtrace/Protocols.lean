import Mathlib.Algebra.Group.Int.Defs
import Mathlib.Algebra.Group.Nat.Defs
import Mathlib.Data.List.Basic

/-! The header decoders of `protocols_pktmeta.c`, `protocols_l2.c` and `protocols_l3.c`. A pointer
is an offset in the packet. A decoder gets the contents of its in/out arguments and returns what
they hold afterwards; `remaining` is a `uint32_t`, never `NULL` here. Reading a byte that is not
there is a fault. -/

namespace Libtrace.Protocols

inductive LinkType where
  | unknown
  /-- The value 0 of an unset `link_type`, which no format reports. -/
  | legacy
  | hdlcPos
  | eth
  | atm
  | ieee80211
  | none
  | linuxSll
  | pflog
  | pos
  | ieee80211Prism
  | aal5
  | duck
  | ieee80211Radio
  | llcsnap
  | ppp
  | metadata
  | nondata
  | openbsdLoop
  deriving DecidableEq, Repr

inductive Fault where
  | outOfRange
  | nullPointer
  | assertion
  /-- A loop of this model ran out of fuel. -/
  | unfinished
  deriving DecidableEq, Repr

abbrev Decode := Except Fault

abbrev Memory := Nat → Option UInt8

variable (m : Memory)

def byte (i : Nat) : Decode Nat :=
  match m i with
  | some b => .ok b.toNat
  | none => .error .outOfRange

def be16 (i : Nat) : Decode Nat := do
  let high ← byte m i
  let low ← byte m (i + 1)
  return high * 256 + low

def le16 (i : Nat) : Decode Nat := do
  let low ← byte m i
  let high ← byte m (i + 1)
  return high * 256 + low

structure Found (τ : Type) where
  ptr : Option Nat
  type : τ
  remaining : Nat
  deriving DecidableEq, Repr

def ethertypeIp : Nat := 0x0800
def ethertype8021q : Nat := 0x8100
def ethertypeIpv6 : Nat := 0x86DD
def ethertypeMpls : Nat := 0x8847
def ethertypePppSes : Nat := 0x8864

def fixedHeader (size typeAt : Nat) (conv : Nat → Nat) (m : Memory) (p type remaining : Nat) :
    Decode (Found Nat) :=
  if remaining < size then .ok ⟨none, type, 0⟩
  else do
    let t ← be16 m (p + typeAt)
    return ⟨some (p + size), conv t, remaining - size⟩

def pppType (protocol : Nat) : Nat := if protocol = 0x0021 then ethertypeIp else 0

def getPayloadFromEthernet : Memory → Nat → Nat → Nat → Decode (Found Nat) := fixedHeader 14 12 id

def getPayloadFromVlan : Memory → Nat → Nat → Nat → Decode (Found Nat) := fixedHeader 4 2 id

def getPayloadFromLlcsnap : Memory → Nat → Nat → Nat → Decode (Found Nat) := fixedHeader 8 6 id

def getPayloadFromChdlc : Memory → Nat → Nat → Nat → Decode (Found Nat) := fixedHeader 4 2 id

def getPayloadFromPpp : Memory → Nat → Nat → Nat → Decode (Found Nat) := fixedHeader 2 0 pppType

def getPayloadFromPppHdlc : Memory → Nat → Nat → Nat → Decode (Found Nat) :=
  fixedHeader 4 2 pppType

def getPayloadFromPppoe (p type remaining : Nat) : Decode (Found Nat) :=
  if remaining < 6 then .ok ⟨none, type, 0⟩
  else getPayloadFromPpp m (p + 6) type (remaining - 6)

/-- The header length is compared after label and nibble were read; a short header leaves
`*remaining`. -/
def getPayloadFromMpls (p type remaining : Nat) : Decode (Found Nat) := do
  let label ← byte m (p + 2)
  let type ←
    if label % 2 = 0 then pure ethertypeMpls
    else if 5 ≤ remaining then do
      let nibble ← byte m (p + 4)
      pure (if nibble / 16 = 4 then ethertypeIp else if nibble / 16 = 6 then ethertypeIpv6 else 0)
    else pure type
  return if remaining < 4 then ⟨none, type, remaining⟩ else ⟨some (p + 4), type, remaining - 4⟩

/-- Four addresses if both DS bits are set, else three, and two bytes more for QoS. -/
def headerLength80211 (control flags : Nat) : Nat :=
  (if flags % 2 = 1 ∧ flags / 2 % 2 = 1 then 30 else 24) + (if control / 128 % 2 = 1 then 2 else 0)

def getPayloadFrom80211 (p type remaining : Nat) : Decode (Found Nat) :=
  if remaining < 30 then .ok ⟨none, type, 0⟩
  else do
    let control ← byte m p
    if control / 4 % 4 ≠ 2 then return ⟨none, type, remaining⟩
    let flags ← byte m (p + 1)
    let length := headerLength80211 control flags
    if remaining < 2 then return ⟨none, type, 0⟩
    let eth ← be16 m (p + length)
    if eth = 0xaaaa then getPayloadFromLlcsnap m (p + length) type remaining
    else return ⟨some (p + length + 2), eth, (remaining + 2 ^ 32 - length - 2) % 2 ^ 32⟩

def getPayloadFromAtm (p remaining : Nat) : Option Nat × Nat :=
  if remaining < 4 then (none, 0) else (some (p + 4), remaining - 4)

/-- `*type` stays as it was if the version is neither 4 nor 6. -/
def nibbleType (p type : Nat) : Decode Nat := do
  let nibble ← byte m p
  return if nibble / 16 = 4 then ethertypeIp else if nibble / 16 = 6 then ethertypeIpv6 else type

def getPayloadFromLayer2 (link : Option Nat) (linktype : LinkType) (type remaining : Nat) :
    Decode (Found Nat) :=
  match linktype, link with
  | .ieee80211Prism, _ | .ieee80211Radio, _ | .pflog, _ => .ok ⟨none, type, remaining⟩
  | .linuxSll, _ | .duck, _ | .metadata, _ | .nondata, _ => .ok ⟨none, type, remaining⟩
  | .unknown, _ | .aal5, _ | .legacy, _ => .ok ⟨none, type, remaining⟩
  | _, none => .error .nullPointer
  | .ieee80211, some p => getPayloadFrom80211 m p type remaining
  | .eth, some p => getPayloadFromEthernet m p type remaining
  | .none, some p => do
    let type ← nibbleType m p type
    return ⟨some p, type, remaining⟩
  | .ppp, some p => getPayloadFromPpp m p type remaining
  | .atm, some p =>
    match getPayloadFromAtm p remaining with
    | (some l, remaining) => getPayloadFromLlcsnap m l type remaining
    | (none, remaining) => .ok ⟨none, type, remaining⟩
  | .llcsnap, some p => getPayloadFromLlcsnap m p type remaining
  | .hdlcPos, some p => getPayloadFromChdlc m p type remaining
  | .pos, some p => getPayloadFromPppHdlc m p type remaining
  | .openbsdLoop, some p => do
    -- the loopback header is skipped but not taken off `*remaining`
    let type ← nibbleType m (p + 4) type
    return ⟨some (p + 4), type, remaining⟩

def arphrdTypeToLibtrace (arphrd : Nat) : LinkType :=
  if arphrd = 1 ∨ arphrd = 2 then .eth
  else if arphrd = 801 then .ieee80211
  else if arphrd = 803 then .ieee80211Radio
  else if arphrd = 512 then .none
  else if arphrd = 772 then .eth
  else if arphrd = 0xFFFE then .none
  else .unknown

/-- `hatype` and `protocol` are 0 if the header is short. -/
def sllType (arphrd next : Nat) : LinkType :=
  if arphrdTypeToLibtrace arphrd = .eth ∧ next ≠ 0x0060 then .none
  else arphrdTypeToLibtrace arphrd

def skipHeader (length : Nat) (type next : LinkType) (p remaining : Nat) : Found LinkType :=
  if remaining < length then ⟨none, type, 0⟩ else ⟨some (p + length), next, remaining - length⟩

def getPayloadFromMeta (p : Nat) (linktype : LinkType) (remaining : Nat) :
    Decode (Found LinkType) :=
  match linktype with
  | .linuxSll =>
    if remaining < 16 then .ok ⟨none, sllType 0 0, 0⟩
    else do
      let next ← be16 m (p + 14)
      let arphrd ← be16 m (p + 2)
      return ⟨some (p + 16), sllType arphrd next, remaining - 16⟩
  | .ieee80211Radio => do
    let rtaplen ← le16 m (p + 2)
    return skipHeader rtaplen linktype .ieee80211 p remaining
  | .ieee80211Prism => .ok (skipHeader 144 linktype .ieee80211 p remaining)
  | .pflog => .ok (skipHeader 49 linktype .none p remaining)
  | _ => .ok ⟨none, linktype, remaining⟩

def getPayloadFromIp (p prot remaining : Nat) : Decode (Found Nat) := do
  let first ← byte m p
  if first / 16 ≠ 4 then return ⟨none, prot, remaining⟩
  let off ← be16 m (p + 6)
  if off % 0x2000 ≠ 0 then return ⟨none, prot, 0⟩
  let length := first % 16 * 4
  if remaining < length then return ⟨none, prot, 0⟩
  let prot ← byte m (p + 9)
  return ⟨some (p + length), prot, remaining - length⟩

def isExtension (nxt : Nat) : Bool := nxt = 0 || nxt = 43 || nxt = 51 || nxt = 60

def ip6Extensions (m : Memory) (prot : Nat) : Nat → Nat → Nat → Nat → Decode (Found Nat)
  | 0, _, _, _ => .error .unfinished
  | fuel + 1, payload, nxt, remaining =>
    if isExtension nxt then do
      let len ← byte m (payload + 1)
      let len := len * 8 + 8
      if remaining < len then return ⟨none, prot, 0⟩
      let nxt ← byte m payload
      ip6Extensions m prot fuel (payload + len) nxt (remaining - len)
    else if nxt = 50 then .ok ⟨some payload, 50, remaining⟩
    else if nxt = 44 then
      if remaining < 8 then .ok ⟨none, prot, 0⟩
      else do
        let nxt ← byte m payload
        ip6Extensions m prot fuel (payload + 8) nxt (remaining - 8)
    else .ok ⟨some payload, nxt, remaining⟩

def getPayloadFromIp6 (p prot remaining : Nat) : Decode (Found Nat) := do
  let nxt ← byte m (p + 6)
  if remaining < 40 then return ⟨none, prot, 0⟩
  ip6Extensions m prot remaining (p + 40) nxt (remaining - 40)

end Libtrace.Protocols
