import Libtrace.FlowHash

/-! The two directions of a flow: a packet, and the packet with its addresses and ports
exchanged. -/

namespace Libtrace.FlowReversal
open Exec Protocols PacketAccess PacketDecode PacketLayout HeaderChain RegionBounds ReadBounds
  DecodeAgreement TransportAgreement Toeplitz FlowHash

def swapAt (p n i : Nat) : Nat :=
  if p ≤ i ∧ i < p + n then i + n else if p + n ≤ i ∧ i < p + 2 * n then i - n else i

def addressesAt (x : Place) : Option (Nat × Nat) :=
  if x.type = ethertypeIp then some (x.offset + 12, 4)
  else if x.type = ethertypeIpv6 then some (x.offset + 8, 16)
  else none

def portsAt (pkt : Packet) (x : Place) : Option Nat :=
  match findTransport pkt.whole x.offset x.type 0 x.remaining with
  | .ok f => if f.type = 6 ∨ f.type = 17 then f.ptr else none
  | .error _ => none

def exchangeAt (ports : Bool) (pkt : Packet) (x : Place) (i : Nat) : Nat :=
  match addressesAt x with
  | none => i
  | some (p, n) =>
    if p ≤ i ∧ i < p + 2 * n then swapAt p n i
    else match portsAt pkt x with
      | some q => if ports then swapAt q 2 i else i
      | none => i

def exchange (ports : Bool) (pkt : Packet) (i : Nat) : Nat :=
  match layer3Of pkt.whole pkt 0 with
  | .ok ⟨some p, type, r⟩ => exchangeAt ports pkt ⟨type, p, r⟩ i
  | _ => i

/-- The packets are the same but for the addresses and ports. Ports behind an IPv6 fragment header
may be payload and need not be exchanged. -/
structure Reversed (ports : Bool) (pkt pkt' : Packet) : Prop where
  linkType : pkt'.linkType = pkt.linkType
  captureLength : pkt'.captureLength = pkt.captureLength
  wireLength : pkt'.wireLength = pkt.wireLength
  bytes : ∀ i < pkt.size, exchange ports pkt i < pkt.size →
    pkt'.bytes i = pkt.bytes (exchange ports pkt i)

def hashesAny (cnf : Conf) : Bool :=
  cnf.hashIpv4 || cnf.hashTcpIpv4 || cnf.xHashUdpIpv4 || cnf.hashIpv6 || cnf.hashTcpIpv6 ||
    cnf.xHashUdpIpv6

def hashesPorts (cnf : Conf) (ethertype : Nat) : Bool :=
  accepts cnf ethertype 6 || accepts cnf ethertype 17

/-- An IPv4 header that claims to be shorter than it is. -/
def Short (pkt : Packet) (x : Place) : Prop :=
  x.type = ethertypeIp ∧ (pkt.bytes x.offset).toNat % 16 < 5

/-- The header is so short that ports that are hashed, or the IPv6 header in front of them, lie in
it, or that any ports are its first bytes. -/
def Overlapping (cnf : Conf) (pkt : Packet) (x : Place) : Prop :=
  Short pkt x ∧ ∃ y, ip4Next pkt x.offset x.remaining = some y ∧
    (accepts cnf x.type y.type = true ∨ y.type = 41 ∧ hashesPorts cnf x.type = true ∨
      y.offset = x.offset ∧ (y.type = 6 ∨ y.type = 17))

/-- All that is hashed from `x` on, or decides what is hashed, is captured. -/
structure HashCaptured (cnf : Conf) (pkt : Packet) (x : Place) : Prop where
  addresses : ∀ p n, hashed cnf x = some (p, n) → p + 2 * n ≤ pkt.size
  transport : hashesPorts cnf x.type = true → TransportCaptured pkt x
  ports : ∀ f q, findTransport pkt.whole x.offset x.type 0 x.remaining = .ok f →
    f.ptr = some q → accepts cnf x.type f.type = true → 4 ≤ f.remaining → q + 4 ≤ pkt.size

/-- The ethertype is known, no more is hashed than was captured, and no IPv4 header is too short. -/
structure Readable (cnf : Conf) (pkt : Packet) : Prop where
  versioned : ¬ Unversioned pkt
  captured : Overcounted pkt → ∀ x, Layer3At pkt 0 x → HashCaptured cnf pkt x
  apart : ∀ x, Layer3At pkt 0 x → ¬ Overlapping cnf pkt x

section

variable {pkt : Packet} {x : Place}

theorem exchange_of_layer3 (ports : Bool) (hx : Layer3At pkt 0 x) (i : Nat) :
    exchange ports pkt i = exchangeAt ports pkt x i := by
  obtain ⟨y, hy, hok⟩ | ⟨hnone, -⟩ := finds_layer3 pkt 0
  · obtain rfl := layer3At_unique hx hy
    rw [exchange, hok]
    rfl
  · exact (hnone x hx).elim

theorem exchange_of_none (ports : Bool) (h : ∀ x, ¬ Layer3At pkt 0 x) (i : Nat) :
    exchange ports pkt i = i := by
  obtain ⟨y, hy, -⟩ | ⟨-, type, r, hok⟩ := finds_layer3 pkt 0
  · exact (h y hy).elim
  · rw [exchange, hok]

variable {p r : Nat} {f : Found Nat} {q n i : Nat}

theorem ip6_ge {prot : Nat} (h : getPayloadFromIp6 pkt.whole p prot r = .ok f)
    (hq : f.ptr = some q) : p + 40 ≤ q := by
  simp only [getPayloadFromIp6, byte_whole, bind, Except.bind] at h
  split_ifs at h
  · rw [← Except.ok.inj h] at hq
    cases hq
  · exact extensions_ge (x := ⟨_, p + 40, r - 40⟩) h hq

theorem ip4Next_offset {y : Place} (h : ip4Next pkt p r = some y) :
    y.offset = p + (pkt.bytes p).toNat % 16 * 4 := by
  rw [ip4Next_some pkt h]

theorem addressesAt_ge (hp : addressesAt x = some (p, n)) : x.offset + 8 ≤ p := by
  unfold addressesAt at hp
  split_ifs at hp <;> obtain ⟨rfl, rfl⟩ := Prod.mk.inj (Option.some.inj hp) <;> omega

theorem ip4Next_ge {y : Place} (h : ¬ Short pkt x) (h4 : x.type = ethertypeIp)
    (hy : ip4Next pkt x.offset x.remaining = some y) : x.offset + 20 ≤ y.offset := by
  have := ip4Next_offset hy
  by_contra hshort
  exact h ⟨h4, by omega⟩

/-- What `trace_get_transport` finds behind an IPv4 header: the header that it names, or one behind
an IPv6 header. -/
theorem findTransport_behind (h4 : x.type = ethertypeIp)
    (hf : findTransport pkt.whole x.offset x.type 0 x.remaining = .ok f) (hq : f.ptr = some q) :
    ∃ y, ip4Next pkt x.offset x.remaining = some y ∧
      (y.type = 41 ∧ y.offset + 40 ≤ q ∨ y.type ≠ 41 ∧ f.type = y.type ∧ y.offset = q) := by
  cases hy : ip4Next pkt x.offset x.remaining with
  | none =>
    obtain ⟨type, r, hok⟩ := findTransport_stops pkt h4 0 hy
    obtain rfl := ok_unique hok hf
    cases hq
  | some y =>
    rw [findTransport_next pkt h4 0 hy] at hf
    refine ⟨y, rfl, ?_⟩
    split_ifs at hf with h41
    · exact .inl ⟨h41, ip6_ge hf hq⟩
    · obtain rfl := Except.ok.inj hf
      exact .inr ⟨h41, rfl, Option.some.inj hq⟩

theorem ports_ge (h : ¬ Short pkt x) (hp : addressesAt x = some (p, n))
    (hf : findTransport pkt.whole x.offset x.type 0 x.remaining = .ok f) (hq : f.ptr = some q) :
    p + 2 * n ≤ q := by
  unfold addressesAt at hp
  split_ifs at hp with h4 h6 <;> obtain ⟨rfl, rfl⟩ := Prod.mk.inj (Option.some.inj hp)
  · obtain ⟨y, hy, hbehind⟩ := findTransport_behind h4 hf hq
    have := ip4Next_ge h h4 hy
    omega
  · rw [findTransport, if_neg h4, if_pos h6] at hf
    have := ip6_ge hf hq
    omega

theorem portsAt_found (hq : portsAt pkt x = some q) :
    ∃ f, findTransport pkt.whole x.offset x.type 0 x.remaining = .ok f ∧ f.ptr = some q ∧
      (f.type = 6 ∨ f.type = 17) := by
  obtain ⟨f, hf, -⟩ := findTransport_bounded pkt x.offset x.type 0 x.remaining
  simp only [portsAt, hf] at hq
  split_ifs at hq with hproto
  exact ⟨f, hf, hq, hproto⟩

theorem portsAt_ge (h : ¬ Short pkt x) (hp : addressesAt x = some (p, n))
    (hq : portsAt pkt x = some q) : p + 2 * n ≤ q := by
  obtain ⟨f, hf, hptr, -⟩ := portsAt_found hq
  exact ports_ge h hp hf hptr

theorem portsAt_gt {cnf : Conf} (h : ¬ Overlapping cnf pkt x) (hp : addressesAt x = some (p, n))
    (hq : portsAt pkt x = some q) : x.offset < q := by
  by_cases hshort : Short pkt x
  · obtain ⟨f, hf, hptr, hproto⟩ := portsAt_found hq
    obtain ⟨y, hy, ⟨-, hge⟩ | ⟨-, htype, rfl⟩⟩ := findTransport_behind hshort.1 hf hptr
    · have := ip4Next_offset hy
      omega
    · have hoffset := ip4Next_offset hy
      by_contra hle
      exact h ⟨hshort, y, hy, .inr (.inr ⟨by omega, htype ▸ hproto⟩)⟩
  · have := portsAt_ge hshort hp hq
    have := addressesAt_ge hp
    omega

theorem swapAt_of_lt (h : i < p) : swapAt p n i = i := by
  rw [swapAt, if_neg (by omega), if_neg (by omega)]

theorem exchangeAt_eq (ports : Bool)
    (ha : ∀ p n, addressesAt x = some (p, n) → i < p ∨ p + 2 * n ≤ i)
    (hq : ∀ q, portsAt pkt x = some q → i < q) : exchangeAt ports pkt x i = i := by
  unfold exchangeAt
  cases hp : addressesAt x with
  | none => rfl
  | some field =>
    have := ha field.1 field.2 hp
    simp only
    rw [if_neg (by omega)]
    cases hports : portsAt pkt x with
    | none => rfl
    | some q =>
      split_ifs
      · exact swapAt_of_lt (hq q hports)
      · rfl

theorem exchange_before {cnf : Conf} (ports : Bool) (hr : Readable cnf pkt)
    (hi : ∀ x, Layer3At pkt 0 x → i ≤ x.offset) : exchange ports pkt i = i := by
  by_cases h : ∃ x, Layer3At pkt 0 x
  · obtain ⟨x, hx⟩ := h
    have hle := hi x hx
    rw [exchange_of_layer3 ports hx]
    cases hp : addressesAt x with
    | none => simp [exchangeAt, hp]
    | some field =>
      refine exchangeAt_eq ports (fun p n hp => ?_) fun q hq => ?_
      · have := addressesAt_ge hp
        omega
      · have := portsAt_gt (hr.apart x hx) hp hq
        omega
  · exact exchange_of_none ports (fun x hx => h ⟨x, hx⟩) i

end

section

variable {cnf : Conf} {ports : Bool} {pkt pkt' : Packet} {x : Place}

section

variable (h : Reversed ports pkt pkt')
include h

theorem size_eq : pkt'.size = pkt.size := by
  unfold Packet.size
  rw [h.captureLength, h.wireLength]

theorem bytes_before (hr : Readable cnf pkt) {i : Nat} (hsize : i < pkt.size)
    (hi : ∀ x, Layer3At pkt 0 x → i ≤ x.offset) : pkt'.bytes i = pkt.bytes i := by
  have heq := exchange_before ports hr hi
  rw [h.bytes i hsize (by omega), heq]

theorem layer3At_reversed (hr : Readable cnf pkt) (hx : Layer3At pkt 0 x)
    (hsize : x.offset < pkt.size) : Layer3At pkt' 0 x := by
  refine layer3At_agree h.linkType (size_eq h) hx fun i hi => ?_
  refine bytes_before h hr (by omega) fun y hy => ?_
  rwa [← layer3At_unique hx hy]

theorem layer3At_of_reversed (hr : Readable cnf pkt)
    (hnone : ∀ x, Layer3At pkt 0 x → pkt.size ≤ x.offset) {x : Place} (hx : Layer3At pkt' 0 x) :
    pkt.size ≤ x.offset := by
  by_contra hsize
  have hpkt : Layer3At pkt 0 x := by
    refine layer3At_agree h.linkType.symm (size_eq h).symm hx fun i hi => ?_
    refine (bytes_before h hr (by omega) fun y hy => ?_).symm
    have := hnone y hy
    omega
  exact hsize (hnone x hpkt)

end

end

variable {pkt : Packet} {x : Place}

theorem layer3At_of_decoded {e : Nat} (h : layer3Of pkt.whole pkt e = .ok x.found) :
    Layer3At pkt e x := by
  obtain ⟨⟨type, p, r⟩, hy, hok⟩ | ⟨-, type, r, hok⟩ := finds_layer3 pkt e
  · have heq := ok_unique hok h
    obtain ⟨rfl, rfl, rfl⟩ := heq
    exact hy
  · simp [hok, Place.found] at h

theorem readable_of_ethernet (cnf : Conf) (hstart : headerStart pkt = some (0, .eth))
    (hx : layer3Of pkt.whole pkt 0 = .ok x.found) (hlong : ¬ (pkt.bytes x.offset).toNat % 16 < 5) :
    Readable cnf pkt where
  versioned := by simp [Unversioned, hstart]
  captured hover := by simp [Overcounted, hstart] at hover
  apart y hy := by
    rw [layer3At_unique hy (layer3At_of_decoded hx)]
    exact fun h => hlong h.1.2

end Libtrace.FlowReversal
