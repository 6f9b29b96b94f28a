import Libtrace.FlowSymmetry
import Libtrace.ToeplitzWindow

/-! `trace_set_hasher`, and what the hasher it installs returns. The configuration comes from
`calloc` and only the key is filled in, so no flag of `toeplitz_hash_packet` is set. -/

namespace Libtrace.HasherSetup
open Protocols PacketAccess PacketDecode HeaderChain Toeplitz ToeplitzKey ToeplitzWindow FlowHash
  FlowReversal FlowSymmetry

section

inductive HasherType where
  | balance
  | bidirectional
  | unidirectional
  | custom
  deriving DecidableEq, Repr

/-- `pstart_input`, and `config_input` with `TRACE_OPTION_HASHER`. -/
structure HasherFormat where
  pstartInput : Bool
  configInput : Option (HasherType → Int)

inductive Hasher where
  | user (hasher : Packet → BitVec 64)
  | toeplitz (conf : Conf)

structure HasherFields where
  hasherType : HasherType
  hasher : Option Hasher

def createUnikey (rand : Nat → BitVec 32) : Key := .ofFn fun i => (rand i).setWidth 8

def createKey (rand : Nat → BitVec 32) (bidirectional : Bool) : Key :=
  if bidirectional then createBikey ((rand 0).setWidth 16) else createUnikey rand

def toeplitzInitConfig (conf : Conf) (rand : Nat → BitVec 32) (bidirectional : Bool) : Conf :=
  { conf with keyCache := hashExpandKey (createKey rand bidirectional) }

def zeroConf : Conf := ⟨false, false, false, false, false, false, fun _ => 0⟩

def HasherFormat.configHasher (format : HasherFormat) (type : HasherType) : Int :=
  match format.pstartInput, format.configInput with
  | true, some configInput => configInput type
  | _, _ => -1

def setHasher (format : HasherFormat) (rand : Nat → BitVec 32) (type : HasherType)
    (hasher : Option (Packet → BitVec 64)) (trace : HasherFields) : Int × HasherFields :=
  if type = .custom ∧ hasher.isNone ∨ type = .balance ∧ hasher.isSome then (-1, trace)
  else if format.configHasher type = -1 then
    match hasher with
    | some hasher => (0, ⟨type, some (.user hasher)⟩)
    | none =>
      match type with
      | .custom | .balance => (0, ⟨type, none⟩)
      | .bidirectional => (0, ⟨type, some (.toeplitz (toeplitzInitConfig zeroConf rand true))⟩)
      | .unidirectional => (0, ⟨type, some (.toeplitz (toeplitzInitConfig zeroConf rand false))⟩)
  else (0, ⟨type, none⟩)

def Hasher.hash (pkt : Packet) (unset : Unset) : Hasher → Decode (BitVec 64)
  | .user hasher => .ok (hasher pkt)
  | .toeplitz conf => (hashPacket pkt.whole pkt conf unset).run' clearCache

end

section

/-- A TCP or UDP packet: two addresses of `n` bytes at `p` and two ports at `q`. -/
def FlowAt (pkt : Packet) (unset : Unset) (p n q : Nat) : Prop :=
  ∃ x f, Layer3At pkt unset.ethType x ∧ addressesAt x = some (p, n) ∧
    p + 2 * n ≤ x.offset + x.remaining ∧
    findTransport pkt.whole x.offset x.type unset.proto x.remaining = .ok f ∧
    f.ptr = some q ∧ (f.type = 6 ∨ f.type = 17) ∧ 4 ≤ f.remaining

/-- The hash of RSS over the addresses and the ports, as a register has it. -/
def flowHash (key : Key) (pkt : Packet) (p n q : Nat) : BitVec 64 :=
  (byteSwap (rssHash key (bytesAt pkt p (2 * n) ++ bytesAt pkt q 4) 0)).setWidth 64

def enable (conf : Conf) : Conf :=
  { conf with
    hashIpv4 := true
    hashTcpIpv4 := true
    hashIpv6 := true
    hashTcpIpv6 := true
    xHashUdpIpv4 := true
    xHashUdpIpv6 := true }

end

section

variable {pkt : Packet} {unset : Unset} {p n q : Nat}

theorem hashed_enable (conf : Conf) {x : Place} (hp : addressesAt x = some (p, n))
    (hlong : p + 2 * n ≤ x.offset + x.remaining) : hashed (enable conf) x = some (p, n) := by
  unfold addressesAt at hp
  unfold hashed
  split_ifs at hp ⊢ with h4 hflag hflag h6 <;>
    obtain ⟨rfl, rfl⟩ := Prod.mk.inj (Option.some.inj hp) <;> simp_all [enable] <;> omega

theorem accepts_enable (conf : Conf) (ethertype : Nat) {proto : Nat} (h : proto = 6 ∨ proto = 17) :
    accepts (enable conf) ethertype proto = true := by
  rcases h with rfl | rfl <;> simp [accepts, enable]

theorem hashPacket_enable (rand : Nat → BitVec 32) (bidirectional : Bool)
    (hflow : FlowAt pkt unset p n q) :
    (hashPacket pkt.whole pkt (enable (toeplitzInitConfig zeroConf rand bidirectional))
      unset).run' clearCache = .ok (flowHash (createKey rand bidirectional) pkt p n q) := by
  obtain ⟨x, f, hx, hp, hlong, hf, hq, hproto, hports⟩ := hflow
  have hn : 2 * n + 4 ≤ 36 := by
    unfold addressesAt at hp
    split_ifs at hp <;> obtain ⟨-, rfl⟩ := Prod.mk.inj (Option.some.inj hp) <;> decide
  have hdata : 0 + (bytesAt pkt p (2 * n) ++ bytesAt pkt q 4).length ≤ 36 := by simpa using hn
  have hrss : toeplitzHash (hashExpandKey (createKey rand bidirectional)) (bytesAt pkt q 4) (2 * n)
      (firstHash (hashExpandKey (createKey rand bidirectional)) (bytesAt pkt p (2 * n))) =
      byteSwap (rssHash (createKey rand bidirectional)
        (bytesAt pkt p (2 * n) ++ bytesAt pkt q 4) 0) := by
    have hcat := hash_append (hashExpandKey (createKey rand bidirectional))
      (bytesAt pkt p (2 * n)) (bytesAt pkt q 4) 0 0#32
    rw [toeplitzHash_windows (fun _ _ => rfl) hdata, BitVec.zero_xor, length_bytesAt,
      Nat.zero_add] at hcat
    exact hcat.symm
  rw [hashPacket_hashed pkt unset hx (hashed_enable _ hp hlong) hf, hashOfPorts, hq]
  simp only
  rw [if_pos ⟨accepts_enable _ _ hproto, hports⟩]
  exact congrArg (fun w => Except.ok (BitVec.setWidth 64 w)) hrss

theorem hashPacket_zeroConf (rand : Nat → BitVec 32) (bidirectional : Bool) (pkt : Packet)
    (unset : Unset) :
    (hashPacket pkt.whole pkt (toeplitzInitConfig zeroConf rand bidirectional) unset).run'
      clearCache = .ok 0 := by
  refine hashPacket_unhashed pkt unset fun x _ => ?_
  simp [hashed, toeplitzInitConfig, zeroConf]

end

/-- The installed hasher returns 0 for every packet, which is the hash of a flow only if that is 0.
With the flags set it would be the hash of every flow. -/
theorem setHasher_hash_iff (format : HasherFormat) (rand : Nat → BitVec 32) (type : HasherType)
    (trace : HasherFields) (htype : type = .bidirectional ∨ type = .unidirectional)
    (hformat : format.configHasher type = -1) :
    ∃ conf, setHasher format rand type none trace = (0, ⟨type, some (.toeplitz conf)⟩) ∧
      (∀ pkt unset, (Hasher.toeplitz conf).hash pkt unset = .ok 0) ∧
      ∀ pkt unset p n q, FlowAt pkt unset p n q →
        ((Hasher.toeplitz conf).hash pkt unset =
            .ok (flowHash (createKey rand (type = .bidirectional)) pkt p n q) ↔
          flowHash (createKey rand (type = .bidirectional)) pkt p n q = 0) ∧
        (Hasher.toeplitz (enable conf)).hash pkt unset =
          .ok (flowHash (createKey rand (type = .bidirectional)) pkt p n q) := by
  refine ⟨toeplitzInitConfig zeroConf rand (type = .bidirectional), ?_,
    fun pkt unset => hashPacket_zeroConf rand _ pkt unset, fun pkt unset p n q hflow => ⟨?_, ?_⟩⟩
  · rcases htype with rfl | rfl <;> simp [setHasher, hformat]
  · rw [Hasher.hash, hashPacket_zeroConf, Except.ok.injEq]
    exact eq_comm
  · exact hashPacket_enable rand _ hflow

def plainFormat : HasherFormat := ⟨false, none⟩

theorem tcpFrame_flow {pkt : Packet}
    (hx : layer3Of pkt.whole pkt 0 = .ok ⟨some 14, ethertypeIp, 40⟩)
    (hf : findTransport pkt.whole 14 ethertypeIp 0 40 = .ok ⟨some 34, 6, 20⟩) :
    FlowAt pkt ⟨0, 0, 0⟩ 26 4 34 :=
  ⟨⟨ethertypeIp, 14, 40⟩, ⟨some 34, 6, 20⟩, layer3At_of_decoded hx, rfl, by decide, hf, rfl,
    .inl rfl, by decide⟩

/-- A connection of a port with itself: its halves cancel out under a bidirectional key. -/
theorem selfFlow_hashed :
    ∃ conf, setHasher plainFormat (fun _ => 1) .bidirectional none ⟨.balance, none⟩ =
        (0, ⟨.bidirectional, some (.toeplitz conf)⟩) ∧
      (Hasher.toeplitz conf).hash (tcpFrame 1 1 80 80) ⟨0, 0, 0⟩ =
        .ok (flowHash (createKey (fun _ => 1) true) (tcpFrame 1 1 80 80) 26 4 34) := by
  obtain ⟨conf, hset, -, hflow⟩ := setHasher_hash_iff plainFormat (fun _ => 1) .bidirectional
    ⟨.balance, none⟩ (.inl rfl) rfl
  have hzero : flowHash (createKey (fun _ => 1) true) (tcpFrame 1 1 80 80) 26 4 34 = 0 := by
    decide +kernel
  have hhash := (hflow (tcpFrame 1 1 80 80) ⟨0, 0, 0⟩ 26 4 34
    (tcpFrame_flow (by decide +kernel) (by decide +kernel))).1.mpr hzero
  exact ⟨conf, hset, hhash⟩

/-- Under the same key this connection has a hash, and gets 0. -/
theorem tcpFlow_not_hashed :
    FlowAt (tcpFrame 1 2 80 99) ⟨0, 0, 0⟩ 26 4 34 ∧
      flowHash (createKey (fun _ => 1) true) (tcpFrame 1 2 80 99) 26 4 34 ≠ 0 ∧
      setHasher plainFormat (fun _ => 1) .bidirectional none ⟨.balance, none⟩ =
        (0, ⟨.bidirectional, some (.toeplitz (toeplitzInitConfig zeroConf (fun _ => 1) true))⟩) ∧
      (Hasher.toeplitz (toeplitzInitConfig zeroConf (fun _ => 1) true)).hash (tcpFrame 1 2 80 99)
        ⟨0, 0, 0⟩ = .ok 0 :=
  ⟨tcpFrame_flow (by decide +kernel) (by decide +kernel), by decide +kernel, rfl,
    hashPacket_zeroConf _ _ _ _⟩

end Libtrace.HasherSetup
