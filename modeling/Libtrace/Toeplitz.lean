import Mathlib.Logic.Function.Iterate
import Libtrace.PacketAccess

/-! The Toeplitz hash of a packet: the key that repeats 16 bits, its expansion into one word for
each bit of the input, and the hash over addresses and ports. The processor is little-endian. -/

namespace Libtrace.Toeplitz
open Protocols PacketAccess

abbrev Key := Vector (BitVec 8) 40

def createBikey (biKey : BitVec 16) : Key :=
  .ofFn fun j => if j.val % 2 = 0 then biKey.setWidth 8 else (biKey >>> 8).setWidth 8

/-- Each byte takes in the first bit of the next one, which has not been shifted yet. -/
def shiftKey (key : Key) : Key :=
  .ofFn fun j =>
    if h : j.val + 1 < 40 then key[j.val] <<< 1 ||| (0x80#8 &&& key[j.val + 1]) >>> 7
    else key[j.val] <<< 1

def firstWord (key : Key) : BitVec 32 := key[3] ++ key[2] ++ key[1] ++ key[0]

def hashExpandKey (key : Key) (i : Nat) : BitVec 32 := firstWord (shiftKey^[i] key)

/-- The flags for IPv6 extension headers are left out: they only print a message. -/
structure Conf where
  hashIpv4 : Bool
  hashTcpIpv4 : Bool
  hashIpv6 : Bool
  hashTcpIpv6 : Bool
  xHashUdpIpv4 : Bool
  xHashUdpIpv6 : Bool
  keyCache : Nat → BitVec 32

def initConfig (conf : Conf) (biKey : BitVec 16) : Conf :=
  { conf with keyCache := hashExpandKey (createBikey biKey) }

def getBit (b : UInt8) (num : Nat) : UInt8 := b &&& (0x80 >>> UInt8.ofNat num)

def hashByte (keyCache : Nat → BitVec 32) (b : UInt8) (i : Nat) (result : BitVec 32) : BitVec 32 :=
  (List.range 8).foldl
    (fun result bit => if getBit b bit ≠ 0 then result ^^^ keyCache (i + bit) else result) result

/-- `data` starts at byte `offset` of the input. -/
def toeplitzHash (keyCache : Nat → BitVec 32) : List UInt8 → Nat → BitVec 32 → BitVec 32
  | [], _, result => result
  | b :: rest, offset, result =>
    toeplitzHash keyCache rest (offset + 1) (hashByte keyCache b (offset * 8) result)

def firstHash (keyCache : Nat → BitVec 32) (data : List UInt8) : BitVec 32 :=
  toeplitzHash keyCache data 0 0

def load (m : Memory) : Nat → Nat → Decode (List UInt8)
  | _, 0 => .ok []
  | p, n + 1 =>
    match m p with
    | some b => do
      let rest ← load m (p + 1) n
      return b :: rest
    | none => .error .outOfRange

structure Progress where
  res : BitVec 32
  offset : Nat
  acceptTcp : Bool
  acceptUdp : Bool

def noProgress : Progress := ⟨0, 0, false, false⟩

def hashAddresses (m : Memory) (cnf : Conf) (l3 : Found Nat) : Decode (Option Progress) :=
  match l3.ptr with
  | none => .ok (some noProgress)
  | some p =>
    if l3.type = ethertypeIp then
      if (cnf.hashIpv4 || cnf.hashTcpIpv4 || cnf.xHashUdpIpv4) ∧ 20 ≤ l3.remaining then do
        let data ← load m (p + 12) 8
        return some ⟨firstHash cnf.keyCache data, 8, cnf.hashTcpIpv4, cnf.xHashUdpIpv4⟩
      else .ok (some noProgress)
    else if l3.type = ethertypeIpv6 then
      if (cnf.hashIpv6 || cnf.hashTcpIpv6 || cnf.xHashUdpIpv6) ∧ 40 ≤ l3.remaining then do
        let data ← load m (p + 8) 32
        return some ⟨firstHash cnf.keyCache data, 32, cnf.hashTcpIpv6, cnf.xHashUdpIpv6⟩
      else .ok (some noProgress)
    else .ok none

def hashPorts (m : Memory) (cnf : Conf) (h : Progress) (l4 : Found Nat) : Decode (BitVec 32) :=
  match l4.ptr with
  | none => .ok h.res
  | some q =>
    if (l4.type = 17 ∧ h.acceptUdp ∨ l4.type = 6 ∧ h.acceptTcp) ∧ 4 ≤ l4.remaining then do
      let data ← load m q 4
      return toeplitzHash cnf.keyCache data h.offset h.res
    else .ok h.res

/-- Uninitialised `eth_type` and `proto`, and the ethertype in `trace_get_transport`. -/
structure Unset where
  ethType : Nat
  proto : Nat
  inner : Nat

def finishHash (m : Memory) (pkt : Packet) (cnf : Conf) (unset : Unset) :
    Option Progress → Access (BitVec 64)
  | none => return 0
  | some h => do
    let l4 ← getTransport m pkt unset.proto unset.inner
    let res ← (hashPorts m cnf h l4 : Decode (BitVec 32))
    return res.setWidth 64

def hashPacket (m : Memory) (pkt : Packet) (cnf : Conf) (unset : Unset) : Access (BitVec 64) := do
  let l3 ← getLayer3 m pkt unset.ethType
  let addresses ← (hashAddresses m cnf l3 : Decode (Option Progress))
  finishHash m pkt cnf unset addresses

end Libtrace.Toeplitz
