import Libtrace.PacketAccess

/-! What the accessors compute when there is no cache. -/

namespace Libtrace.PacketDecode
open Exec Protocols PacketAccess

def layer2Of (m : Memory) (pkt : Packet) : Decode (Found LinkType) :=
  findLayer2 m ⟨some 0, pkt.linkType, pkt.size⟩

def layer3Of (m : Memory) (pkt : Packet) (ethertype : Nat) : Decode (Found Nat) := do
  let link ← layer2Of m pkt
  findLayer3 m link ethertype

def transportFrom (m : Memory) (proto : Nat) (l3 : Found Nat) : Decode (Found Nat) :=
  match l3.ptr with
  | none => .ok ⟨none, proto, l3.remaining⟩
  | some p => findTransport m p l3.type proto l3.remaining

def transportOf (m : Memory) (pkt : Packet) (proto ethertype : Nat) : Decode (Found Nat) := do
  let l3 ← layer3Of m pkt ethertype
  transportFrom m proto l3

def payloadFrom (m : Memory) (proto : Nat) (l3 : Found Nat) : Decode (Option Int) :=
  match l3.ptr with
  | none => .ok none
  | some p => do
    let len ← layer3Length m p l3.type l3.remaining
    match len with
    | none => return none
    | some len =>
      let l4 ← transportFrom m proto l3
      match l4.ptr with
      | none => return none
      | some q => transportLength m q l4.type l4.remaining len

def payloadOf (m : Memory) (pkt : Packet) (ethertype proto : Nat) : Decode (Option Int) := do
  let l3 ← layer3Of m pkt ethertype
  payloadFrom m proto l3

def sourceMacOf (m : Memory) (link : Found LinkType) : Decode (Option Nat) :=
  match link.ptr with
  | none => .ok none
  | some p =>
    match link.type with
    | .eth => .ok (some (p + 6))
    | .ieee80211 => getSourceMacFromWifi m p
    | .linuxSll | .ieee80211Prism | .ieee80211Radio | .legacy => .error .assertion
    | _ => .ok none

def destinationMacOf (link : Found LinkType) : Decode (Option Nat) :=
  match link.ptr with
  | none => .ok none
  | some p =>
    match link.type with
    | .ieee80211 => .ok (some (p + 4))
    | .eth => .ok (some p)
    | .linuxSll | .ieee80211Prism | .ieee80211Radio | .legacy => .error .assertion
    | _ => .ok none

def lengthOf : Option Int → Nat
  | none => 0
  | some len => toSize len

def answerOf (m : Memory) (pkt : Packet) : Call → Decode Answer
  | .layer2 => .layer2 <$> layer2Of m pkt
  | .layer3 ethertype => .layer3 <$> layer3Of m pkt ethertype
  | .transport proto ethertype => .transport <$> transportOf m pkt proto ethertype
  | .payloadLength ethertype _ proto =>
    (.payloadLength ∘ lengthOf) <$> payloadOf m pkt ethertype proto
  | .sourceMac => .mac <$> (layer2Of m pkt >>= sourceMacOf m)
  | .destinationMac => .mac <$> (layer2Of m pkt >>= destinationMacOf)

variable {c : Caches}

theorem getPacketBuffer_eq (pkt : Packet) (hl : c.linkType = .legacy ∨ c.linkType = pkt.linkType) :
    getPacketBuffer pkt c =
      .ok (⟨some 0, pkt.linkType, pkt.size⟩, { c with linkType := pkt.linkType }) := by
  have hlink : getLinkType pkt c = .ok (pkt.linkType, { c with linkType := pkt.linkType }) := by
    unfold getLinkType
    rw [get_bind]
    split_ifs with h
    · rfl
    · rw [← hl.resolve_left h]
      rfl
  rw [getPacketBuffer, bind_of_ok hlink]
  rfl

section

variable (m : Memory) (pkt : Packet)
include m pkt

theorem getLayer2_cached (h : c.l2Header.isSome = true) :
    getLayer2 m pkt c = .ok (⟨c.l2Header, c.linkType, c.l2Remaining⟩, c) := by
  rw [getLayer2, get_bind, if_pos h]
  rfl

theorem getLayer2_uncached (h : c.l2Header = none)
    (hl : c.linkType = .legacy ∨ c.linkType = pkt.linkType) :
    getLayer2 m pkt c = layer2Of m pkt >>= fun found =>
      .ok (found, { c with linkType := pkt.linkType }.storeL2 found) := by
  rw [getLayer2, get_bind, if_neg (by simp [h]), bind_of_ok (getPacketBuffer_eq pkt hl), lift_bind]
  rfl

theorem getLayer3_cached (ethertype : Nat) (h : c.l3Header.isSome = true) :
    getLayer3 m pkt ethertype c = .ok (⟨c.l3Header, c.l3Ethertype, c.l3Remaining⟩, c) := by
  rw [getLayer3, get_bind, if_pos h]
  rfl

theorem linkHeader_eq (c : Caches) : linkHeader m pkt c c = getLayer2 m pkt c := by
  unfold linkHeader
  split_ifs with h
  · exact (getLayer2_cached m pkt h).symm
  · rfl

theorem getLayer3_uncached (ethertype : Nat) (h : c.l3Header = none) :
    getLayer3 m pkt ethertype c = getLayer2 m pkt c >>= fun (link, c) =>
      findLayer3 m link ethertype >>= fun found => .ok (found, c.storeL3 found) := by
  rw [getLayer3, get_bind, if_neg (by simp [h])]
  change (linkHeader m pkt c c >>= fun p => _) = _
  rw [linkHeader_eq]
  congr 1
  funext p
  rw [lift_bind]
  rfl

theorem getTransport_cached (proto ethertype : Nat) (h : c.l4Header.isSome = true) :
    getTransport m pkt proto ethertype c =
      .ok (⟨c.l4Header, c.transportProto, c.l4Remaining⟩, c) := by
  rw [getTransport, get_bind, if_pos h]
  rfl

end

def Caches.storeTransport (c : Caches) (l3 found : Found Nat) : Caches :=
  if l3.ptr.isSome then c.storeL4 found else c

theorem getTransport_uncached (m : Memory) (pkt : Packet) (proto ethertype : Nat)
    (h : c.l4Header = none) :
    getTransport m pkt proto ethertype c = getLayer3 m pkt ethertype c >>= fun (l3, c) =>
      transportFrom m proto l3 >>= fun found => .ok (found, Caches.storeTransport c l3 found) := by
  rw [getTransport, get_bind, if_neg (by simp [h])]
  change (getLayer3 m pkt ethertype c >>= fun p => _) = _
  congr 1
  funext ⟨l3, c'⟩
  obtain ⟨ptr, type, remaining⟩ := l3
  cases ptr with
  | none => rfl
  | some p =>
    simp only [transportFrom]
    rw [lift_bind]
    rfl

section

variable (m : Memory) (pkt : Packet)

theorem layer2_fresh : (getLayer2 m pkt).run' clearCache = layer2Of m pkt := by
  rw [run'_eq, getLayer2_uncached m pkt rfl (.inl rfl)]
  exact fst_bind _ _

theorem layer3_fresh (ethertype : Nat) :
    (getLayer3 m pkt ethertype).run' clearCache = layer3Of m pkt ethertype := by
  rw [run'_eq, getLayer3_uncached m pkt ethertype rfl, getLayer2_uncached m pkt rfl (.inl rfl),
    layer3Of]
  cases layer2Of m pkt with
  | error e => rfl
  | ok link => exact fst_bind (findLayer3 m link ethertype) _

theorem transport_fresh (proto ethertype : Nat) :
    (getTransport m pkt proto ethertype).run' clearCache = transportOf m pkt proto ethertype := by
  rw [transportOf, ← layer3_fresh, run'_eq, run'_eq,
    getTransport_uncached m pkt proto ethertype rfl]
  cases getLayer3 m pkt ethertype clearCache with
  | error e => rfl
  | ok p => exact fst_bind (transportFrom m proto p.1) _

end

end Libtrace.PacketDecode
