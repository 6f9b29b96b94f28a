import Libtrace.ExtensionWalk
import Libtrace.FlowHash

/-! The length of the payload by the fields of the headers, and when `trace_get_payload_length`
returns it. It takes off no IPv6 extension header, and for IPv4 it subtracts in `int` and compares
as `size_t`. -/

namespace Libtrace.PayloadLength
open Exec Orbit Protocols PacketAccess PacketDecode PacketLayout HeaderChain RegionBounds ReadBounds
  TransportAgreement ExtensionWalk FlowHash

section

variable (pkt : Packet)

def fixedSize (type : Nat) : Nat := if type = 6 then 20 else 8

def headerSize (y : Place) : Nat :=
  if y.type = 6 then 4 * ((pkt.bytes (y.offset + 12)).toNat / 16) else 8

/-- The transport header `y` is behind the IP header `x`, and its fixed part is captured. -/
structure Carried (x y : Place) : Prop where
  fixed : fixedSize y.type ≤ y.remaining
  carrier :
    x.type = ethertypeIp ∧ 20 ≤ x.remaining ∧ ip4Next pkt x.offset x.remaining = some y ∧
        (y.type = 6 ∨ y.type = 17 ∨ y.type = 1) ∨
      x.type = ethertypeIpv6 ∧ (y.type = 6 ∨ y.type = 17 ∨ y.type = 58) ∧
        ∃ start, extStart pkt x.offset x.remaining = some start ∧ Ends (rfcNext pkt) start y

def lengthField (x : Place) : Nat :=
  if x.type = ethertypeIp then be pkt (x.offset + 2) else be pkt (x.offset + 4)

def countedFrom (x : Place) : Nat := if x.type = ethertypeIp then x.offset else x.offset + 40

def headerBytes (x y : Place) : Nat := y.offset - countedFrom x + headerSize pkt y

def payloadBytes (x y : Place) : Nat :=
  if lengthField pkt x < headerBytes pkt x y then 0 else lengthField pkt x - headerBytes pkt x y

def Measured (ethertype inner proto : Nat) (x y : Place) : Prop :=
  (getPayloadLength pkt.whole pkt ethertype inner proto).run' clearCache =
    .ok (payloadBytes pkt x y) ∧ payloadBytes pkt x y ≤ 65535

def foundSize (z : Place) : Option Nat :=
  if z.type = 6 ∨ z.type = 17 ∨ z.type = 1 ∨ z.type = 58 then
    if z.remaining < fixedSize z.type then none else some (headerSize pkt z)
  else none

/-- The total length of an IPv4 packet counts its header. In an IPv6 packet there is no extension
header, or nothing behind the headers. -/
structure Covered (x y : Place) : Prop where
  ip4 : x.type = ethertypeIp → (pkt.bytes x.offset).toNat % 16 * 4 ≤ be pkt (x.offset + 2)
  ip6 : x.type = ethertypeIpv6 →
    y.offset = x.offset + 40 ∨ be pkt (x.offset + 4) ≤ headerSize pkt y

end

section

theorem takeHeader_nat (size : Nat) {len : Nat} (h : len < 2 ^ 64) :
    lengthOf (takeHeader size len) = len - size := by
  unfold takeHeader
  rw [toSize_ofNat h]
  split_ifs with hlt
  · simp only [lengthOf]
    omega
  · simp only [lengthOf]
    rw [← Int.ofNat_sub (by omega), toSize_ofNat (by omega)]

theorem takeHeader_wraps (size : Nat) {len missing : Nat} (hlt : len < missing)
    (hm : missing < 2 ^ 16) (hsize : size < 2 ^ 16) :
    65535 < lengthOf (takeHeader size ((len : Int) - missing)) := by
  have hlen : toSize ((len : Int) - missing) = 2 ^ 64 - (missing - len) := by
    unfold toSize
    omega
  unfold takeHeader
  rw [hlen, if_neg (by omega)]
  simp only [lengthOf, toSize]
  omega

end

section

variable {pkt : Packet} {x y z : Place}

theorem reach_ext_offset (h : Reach (extNext pkt) x y) : x.offset ≤ y.offset := by
  refine reach_inv (fun z => x.offset ≤ z.offset) (fun a b hab ha => ?_) h (Nat.le_refl _)
  have := extNext_offset hab
  omega

theorem payloadBytes_eq (pkt : Packet) (x y : Place) :
    payloadBytes pkt x y = lengthField pkt x - headerBytes pkt x y := by
  unfold payloadBytes
  split_ifs <;> omega

theorem payloadBytes_le (pkt : Packet) (x y : Place) : payloadBytes pkt x y ≤ 65535 := by
  have hfield : lengthField pkt x ≤ 65535 := by
    unfold lengthField
    split_ifs <;> exact Nat.le_of_lt_succ (be_lt pkt _)
  rw [payloadBytes_eq]
  omega

theorem headerSize_lt (pkt : Packet) (y : Place) : headerSize pkt y < 64 := by
  have := (pkt.bytes (y.offset + 12)).toNat_lt
  unfold headerSize
  split_ifs <;> omega

theorem layer3Length_whole (pkt : Packet) (p type r : Nat) :
    ∃ len, layer3Length pkt.whole p type r = .ok len := by
  unfold layer3Length
  split_ifs <;> exact ⟨_, rfl⟩

theorem transportLength_whole (pkt : Packet) (p type r : Nat) (len : Int) :
    ∃ rest, transportLength pkt.whole p type r len = .ok rest := by
  unfold transportLength
  split_ifs <;> exact ⟨_, rfl⟩

variable {e : Nat} {start : Place}

theorem getPayloadLength_of {inner proto : Nat} {c c₃ c₄ : Caches} {f : Found Nat}
    (hc : c.payloadLength = -1)
    (h3 : getLayer3 pkt.whole pkt e { c with payloadLength := 0 } = .ok (x.found, c₃))
    (h4 : getTransport pkt.whole pkt proto inner c₃ = .ok (f, c₄))
    (hf : findTransport pkt.whole x.offset x.type proto x.remaining = .ok f) :
    ∃ len c', payloadFrom pkt.whole proto x.found = .ok len ∧
      getPayloadLength pkt.whole pkt e inner proto c = .ok (lengthOf len, c') := by
  have hmeasure : ∃ len c', payloadFrom pkt.whole proto x.found = .ok len ∧
      measurePayload pkt.whole pkt e inner proto { c with payloadLength := 0 } =
        .ok (len, c') := by
    obtain ⟨len, hlen⟩ := layer3Length_whole pkt x.offset x.type x.remaining
    rw [measurePayload, bind_of_ok h3]
    simp only [payloadFrom, transportFrom, Place.found]
    rw [hlen, ok_bind, lift_bind, ok_bind]
    cases len with
    | none => exact ⟨none, c₃, rfl, rfl⟩
    | some len =>
      simp only
      rw [hf, ok_bind, bind_of_ok h4]
      cases f.ptr with
      | none => exact ⟨none, c₄, rfl, rfl⟩
      | some q =>
        obtain ⟨rest, hrest⟩ := transportLength_whole pkt q f.type f.remaining len
        simp only
        rw [hrest]
        exact ⟨rest, c₄, rfl, rfl⟩
  obtain ⟨len, c', hfrom, hrun⟩ := hmeasure
  rw [getPayloadLength, get_bind, if_neg (by simp [hc]), modify_bind, bind_of_ok hrun]
  cases len with
  | none => exact ⟨none, c', hfrom, rfl⟩
  | some len => exact ⟨some len, _, hfrom, rfl⟩

theorem getPayloadLength_fresh (inner proto : Nat) (hx : Layer3At pkt e x) :
    (getPayloadLength pkt.whole pkt e inner proto).run' clearCache =
      lengthOf <$> payloadFrom pkt.whole proto x.found := by
  obtain ⟨l3, c, hrun, hl3, h4, -, h3, -⟩ :=
    getLayer3_uncachedAll (c := { clearCache with payloadLength := 0 }) pkt e rfl rfl rfl rfl
  obtain ⟨y, hy, hok⟩ | ⟨hnone, -⟩ := finds_layer3 pkt e
  · obtain rfl := layer3At_unique hx hy
    obtain rfl := ok_unique hl3 hok
    obtain ⟨f, hf, -⟩ := findTransport_bounded pkt x.offset x.type proto x.remaining
    have hrun' := getTransport_cached3 pkt proto inner h4 (h3 rfl) hf
    obtain ⟨len, c', hfrom, hlen⟩ := getPayloadLength_of (c := clearCache) rfl hrun hrun' hf
    rw [run'_eq, hlen, hfrom]
    rfl
  · exact (hnone x hx).elim

theorem transportLength_eq (pkt : Packet) (z : Place) (len : Int) :
    transportLength pkt.whole z.offset z.type z.remaining len =
      .ok (foundSize pkt z >>= fun size => takeHeader size len) := by
  unfold transportLength foundSize fixedSize headerSize
  by_cases h6 : z.type = 6
  · simp only [h6, if_true, true_or]
    split_ifs <;> rfl
  · simp only [h6, if_false, false_or]
    split_ifs <;> rfl

theorem foundSize_carried (h : y.type = 6 ∨ y.type = 17 ∨ y.type = 1 ∨ y.type = 58)
    (hfixed : fixedSize y.type ≤ y.remaining) : foundSize pkt y = some (headerSize pkt y) := by
  unfold foundSize
  rw [if_pos h, if_neg (by omega)]

theorem findTransport_ip4 (proto : Nat) (hip : x.type = ethertypeIp)
    (hnext : ip4Next pkt x.offset x.remaining = some y)
    (ht : y.type = 6 ∨ y.type = 17 ∨ y.type = 1) :
    findTransport pkt.whole x.offset x.type proto x.remaining = .ok y.found := by
  rw [findTransport_next pkt hip proto hnext, if_neg (by omega)]

theorem findTransport_ip6 (proto : Nat) (hip : x.type = ethertypeIpv6)
    (hstart : extStart pkt x.offset x.remaining = some start) (hz : Ends (extNext pkt) start z) :
    findTransport pkt.whole x.offset x.type proto x.remaining = .ok (extEnd proto z) := by
  rw [findTransport, if_neg (by rw [hip]; decide), if_pos hip]
  exact ip6_of_start proto hstart hz

theorem payloadFrom_ip4 (proto : Nat) (hip : x.type = ethertypeIp) (h20 : 20 ≤ x.remaining)
    (hnext : ip4Next pkt x.offset x.remaining = some y) (ht : y.type = 6 ∨ y.type = 17 ∨ y.type = 1)
    (hfixed : fixedSize y.type ≤ y.remaining) :
    payloadFrom pkt.whole proto x.found = .ok (takeHeader (headerSize pkt y)
      ((be pkt (x.offset + 2) : Int) - ((pkt.bytes x.offset).toNat % 16 * 4 : Nat))) := by
  have hproto : (pkt.bytes (x.offset + 9)).toNat = y.type := by rw [ip4Next_some pkt hnext]
  have hlen : layer3Length pkt.whole x.offset x.type x.remaining =
      .ok (some ((be pkt (x.offset + 2) : Int) - ((pkt.bytes x.offset).toNat % 16 * 4 : Nat))) := by
    simp only [layer3Length, byte_whole, be16_whole, ok_bind, if_pos hip,
      if_neg (show ¬ x.remaining < 20 by omega), hproto, if_neg (show ¬ y.type = 41 by omega)]
    push_cast
    rw [Int.mul_comm, Int.sub_zero]
    rfl
  have hfind := findTransport_ip4 proto hip hnext ht
  simp only [payloadFrom, transportFrom, Place.found]
  rw [hlen, ok_bind]
  simp only
  rw [hfind, ok_bind]
  simp only [Place.found]
  rw [transportLength_eq, foundSize_carried (by omega) hfixed]
  rfl

theorem payloadFrom_ip6 (proto : Nat) (hip : x.type = ethertypeIpv6)
    (hstart : extStart pkt x.offset x.remaining = some start) (hz : Ends (extNext pkt) start z) :
    payloadFrom pkt.whole proto x.found =
      .ok (foundSize pkt z >>= fun size => takeHeader size (be pkt (x.offset + 4) : Nat)) := by
  have hip4 : x.type ≠ ethertypeIp := by rw [hip]; decide
  have h40 : ¬ x.remaining < 40 := Nat.not_lt.mpr (extStart_some pkt hstart).2
  have hlen : layer3Length pkt.whole x.offset x.type x.remaining =
      .ok (some (be pkt (x.offset + 4) : Nat)) := by
    simp only [layer3Length, be16_whole, if_neg hip4, if_pos hip, if_neg h40]
    rfl
  have hfind := findTransport_ip6 proto hip hstart hz
  simp only [payloadFrom, transportFrom, Place.found]
  rw [hlen, ok_bind]
  simp only
  rw [hfind, ok_bind, extEnd_eq]
  by_cases hc : chained z.type = true
  · have hnone : foundSize pkt z = none := by
      refine if_neg fun ht => ?_
      obtain h | h | h | h := ht <;> rw [h] at hc <;> cases hc
    rw [if_pos hc, hnone]
    rfl
  · rw [if_neg hc]
    exact transportLength_eq pkt z _

section

variable (inner proto : Nat) (hx : Layer3At pkt e x)
include inner proto hx

theorem measured_iff {len : Option Int} (hlen : payloadFrom pkt.whole proto x.found = .ok len) :
    Measured pkt e inner proto x y ↔
      lengthOf len = lengthField pkt x - headerBytes pkt x y := by
  unfold Measured
  rw [getPayloadLength_fresh inner proto hx, hlen, ← payloadBytes_eq]
  simp only [payloadBytes_le, and_true]
  constructor
  · exact fun h => Except.ok.inj h
  · exact fun h => congrArg Except.ok h

theorem measured_ip4 (hip : x.type = ethertypeIp) (h20 : 20 ≤ x.remaining)
    (hnext : ip4Next pkt x.offset x.remaining = some y) (ht : y.type = 6 ∨ y.type = 17 ∨ y.type = 1)
    (hfixed : fixedSize y.type ≤ y.remaining) :
    Measured pkt e inner proto x y ↔
      (pkt.bytes x.offset).toNat % 16 * 4 ≤ be pkt (x.offset + 2) := by
  rw [measured_iff inner proto hx (payloadFrom_ip4 proto hip h20 hnext ht hfixed)]
  have hoffset : y.offset = x.offset + (pkt.bytes x.offset).toNat % 16 * 4 := by
    rw [ip4Next_some pkt hnext]
  have hheaders : headerBytes pkt x y =
      (pkt.bytes x.offset).toNat % 16 * 4 + headerSize pkt y := by
    rw [headerBytes, countedFrom, if_pos hip]
    omega
  have hfield : lengthField pkt x = be pkt (x.offset + 2) := if_pos hip
  have hbe := be_lt pkt (x.offset + 2)
  have hsize := headerSize_lt pkt y
  constructor
  · intro h
    by_contra hlt
    have hwraps := takeHeader_wraps (headerSize pkt y) (Nat.not_le.mp hlt) (by omega)
      (by omega)
    omega
  · intro hle
    rw [← Int.ofNat_sub hle, takeHeader_nat _ (by omega)]
    omega

theorem measured_ip6 (hip : x.type = ethertypeIpv6)
    (hstart : extStart pkt x.offset x.remaining = some start) (hy : Ends (extNext pkt) start y)
    (ht : y.type = 6 ∨ y.type = 17 ∨ y.type = 58) (hfixed : fixedSize y.type ≤ y.remaining) :
    Measured pkt e inner proto x y ↔
      y.offset = x.offset + 40 ∨ be pkt (x.offset + 4) ≤ headerSize pkt y := by
  have hbe := be_lt pkt (x.offset + 4)
  have hfield : lengthField pkt x = be pkt (x.offset + 4) := if_neg (by rw [hip]; decide)
  have hfrom : start.offset = x.offset + 40 := DecodeAgreement.after_offset hstart
  have hbehind := reach_ext_offset hy.1
  have hheaders : headerBytes pkt x y = y.offset - (x.offset + 40) + headerSize pkt y := by
    rw [headerBytes, countedFrom, if_neg (by rw [hip]; decide)]
  have hrun := payloadFrom_ip6 proto hip hstart hy
  rw [foundSize_carried (by omega) hfixed] at hrun
  rw [measured_iff inner proto hx hrun, hfield, hheaders]
  change lengthOf (takeHeader (headerSize pkt y) _) = _ ↔ _
  rw [takeHeader_nat _ (by omega)]
  omega

end

end

def datagram (total : UInt8) : Packet where
  bytes i := if i = 12 then 0x08 else if i = 14 then 0x45 else if i = 17 then total
    else if i = 23 then 17 else if i = 39 then 13 else 0
  linkType := .eth
  captureLength := 47
  wireLength := 47
  captureLength_lt := by decide
  wireLength_lt := by decide

theorem datagram_layer3 (total : UInt8) : Layer3At (datagram total) 0 ⟨ethertypeIp, 14, 33⟩ := by
  refine ⟨⟨ethertypeIp, 14, 33⟩, ?_, reach_refl _, by unfold isLayer3; decide⟩
  simp [stackStart, headerStart, payload, fixedLink, datagram, be, after, Packet.size, ethertypeIp]

theorem datagram_carried (total : UInt8) :
    Carried (datagram total) ⟨ethertypeIp, 14, 33⟩ ⟨17, 34, 13⟩ := by
  refine ⟨by decide, .inl ⟨rfl, by decide, ?_, by decide⟩⟩
  simp [ip4Next, datagram, be, after]

def hopPacket : Packet where
  bytes i := if i = 12 then 0x86 else if i = 13 then 0xdd else if i = 14 then 0x60
    else if i = 19 then 20 else if i = 54 then 17 else if i = 67 then 12 else 0
  linkType := .eth
  captureLength := 74
  wireLength := 74
  captureLength_lt := by decide
  wireLength_lt := Int.ofNat_lt.mpr (Nat.le_add_right 75 65461)

end Libtrace.PayloadLength
