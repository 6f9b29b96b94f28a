import Libtrace.HeaderChain

/-! Whether the regions that the accessors return lie inside of the packet. -/

namespace Libtrace.RegionBounds
open Orbit Protocols PacketAccess PacketDecode PacketLayout HeaderChain

def Bounded {τ : Type} (n : Nat) (d : Decode (Found τ)) : Prop :=
  ∃ f, d = .ok f ∧ ∀ o, f.ptr = some o → o + f.remaining ≤ n

/-- The link header is skipped but not taken off the remaining bytes: OpenBSD loopback and 802.11
with LLC/SNAP. Or the count wraps. -/
def Overcounted (pkt : Packet) : Prop :=
  ∃ p, headerStart pkt = some (p, .openbsdLoop) ∨
    headerStart pkt = some (p, .ieee80211) ∧
      (isWifiLlc pkt p ∨ pkt.size - p < wifiLength pkt p + 2)

/-- How many bytes the count of the remaining bytes is too large behind the link header. -/
def uncounted (pkt : Packet) : Nat :=
  match headerStart pkt with
  | some (_, .openbsdLoop) => 4
  | some (p, .ieee80211) =>
    if isWifiLlc pkt p then wifiLength pkt p
    else if pkt.size - p < wifiLength pkt p + 2 then 2 ^ 32
    else 0
  | _ => 0

variable {τ : Type} {n : Nat} {pkt : Packet} {ethertype : Nat} {x : Place}

theorem bounded_none {type : τ} {r : Nat} :
    Bounded n (.ok ⟨none, type, r⟩) := ⟨_, rfl, by simp⟩

theorem bounded_some {o : Nat} (type : τ) {r : Nat} (h : o + r ≤ n) :
    Bounded n (.ok ⟨some o, type, r⟩) := by
  refine ⟨_, rfl, fun o' ho' => ?_⟩
  rw [← Option.some.inj ho']
  exact h

theorem bounded_mono {n' : Nat} {d : Decode (Found τ)} (h : Bounded n d) (hn : n ≤ n') :
    Bounded n' d := by
  obtain ⟨f, hf, hbound⟩ := h
  exact ⟨f, hf, fun o ho => Nat.le_trans (hbound o ho) hn⟩

theorem layer2_bounded (pkt : Packet) : Bounded pkt.size (layer2Of pkt.whole pkt) := by
  obtain ⟨-, lt, r, -, heq⟩ | ⟨p, lt, -, hp, -, heq⟩ := layer2_cases pkt <;> rw [heq]
  · exact bounded_none
  · exact bounded_some _ (by omega)

theorem size_lt (pkt : Packet) : pkt.size < 65536 := by
  have := pkt.captureLength_lt
  unfold Packet.size
  split_ifs <;> omega

theorem wifiLength_bounds (pkt : Packet) (p : Nat) :
    24 ≤ wifiLength pkt p ∧ wifiLength pkt p ≤ 32 := by
  unfold wifiLength headerLength80211
  split_ifs <;> omega

theorem overcounted_iff {p : Nat} {lt : LinkType} (h : headerStart pkt = some (p, lt)) :
    Overcounted pkt ↔ lt = .openbsdLoop ∨
      lt = .ieee80211 ∧ (isWifiLlc pkt p ∨ pkt.size - p < wifiLength pkt p + 2) := by
  unfold Overcounted
  rw [h]
  constructor
  · rintro ⟨q, heq | ⟨heq, hwifi⟩⟩ <;> obtain ⟨rfl, rfl⟩ := Prod.mk.inj (Option.some.inj heq)
    · exact .inl rfl
    · exact .inr ⟨rfl, hwifi⟩
  · rintro (rfl | ⟨rfl, hwifi⟩)
    · exact ⟨p, .inl rfl⟩
    · exact ⟨p, .inr ⟨rfl, hwifi⟩⟩

theorem overcounted_iff_uncounted (pkt : Packet) : Overcounted pkt ↔ uncounted pkt ≠ 0 := by
  unfold uncounted
  cases hstart : headerStart pkt with
  | none => simp [Overcounted, hstart]
  | some start =>
    obtain ⟨p, lt⟩ := start
    rw [overcounted_iff hstart]
    have hlength := wifiLength_bounds pkt p
    cases lt
    case ieee80211 =>
      dsimp only
      split_ifs <;> simp_all
      omega
    all_goals simp

theorem wifi_sum {p r : Nat} (hr : r < 65536) (h : payload pkt ethertype .ieee80211 p r = some x) :
    x.offset + x.remaining = p + r +
      if isWifiLlc pkt p then wifiLength pkt p
      else if r < wifiLength pkt p + 2 then 2 ^ 32
      else 0 := by
  have hlength := wifiLength_bounds pkt p
  simp only [payload] at h
  split_ifs at h with hdata hllc <;> obtain rfl := Option.some.inj h <;> have := hdata.1
  · rw [if_pos hllc]
    dsimp only
    omega
  · rw [if_neg hllc]
    split_ifs <;> dsimp only <;> omega

theorem stackStart_sum (h : stackStart pkt ethertype = some x) :
    x.offset + x.remaining = pkt.size + uncounted pkt := by
  have hloc := layer2Of_whole pkt
  unfold stackStart at h
  unfold uncounted
  cases hstart : headerStart pkt with
  | none => simp [hstart] at h
  | some start =>
    obtain ⟨p, lt⟩ := start
    rw [hstart] at h hloc
    have hp : p + (pkt.size - p) = pkt.size := Nat.add_sub_of_le hloc.1
    cases lt
    case ieee80211 =>
      have hsum := wifi_sum (by have := size_lt pkt; omega) h
      rwa [hp] at hsum
    case openbsdLoop =>
      obtain rfl := Option.some.inj h
      dsimp only
      omega
    case none =>
      obtain rfl := Option.some.inj h
      exact hp
    all_goals
      first
        | cases h
        | exact (after_sum h).1.trans hp

theorem layer3At_sum (h : Layer3At pkt ethertype x) :
    x.offset + x.remaining = pkt.size + uncounted pkt := by
  obtain ⟨start, hstart, hreach, -⟩ := h
  have hsum := reach_inv (fun y => y.offset + y.remaining = start.offset + start.remaining)
    (fun a b hab ha => (stackNext_sum hab).1.trans ha) hreach rfl
  exact hsum.trans (stackStart_sum hstart)

theorem layer3At_inside_iff (h : Layer3At pkt ethertype x) :
    x.offset + x.remaining ≤ pkt.size ↔ ¬ Overcounted pkt := by
  rw [layer3At_sum h, overcounted_iff_uncounted]
  omega

theorem ip6Extensions_bounded (pkt : Packet) (prot fuel payload nxt r : Nat) (h : r < fuel) :
    Bounded (payload + r) (ip6Extensions pkt.whole prot fuel payload nxt r) := by
  induction fuel generalizing payload nxt r with
  | zero => omega
  | succ fuel ih =>
    have skip (len nxt : Nat) (hlen : len ≤ r) (h8 : 8 ≤ len) :
        Bounded (payload + r) (ip6Extensions pkt.whole prot fuel (payload + len) nxt (r - len)) :=
      bounded_mono (ih (payload + len) nxt (r - len) (by omega)) (by omega)
    rw [ip6Extensions]
    by_cases hext : isExtension nxt = true
    · simp only [if_pos hext, byte_whole]
      by_cases hlen : r < (pkt.bytes (payload + 1)).toNat * 8 + 8
      · simp only [bind, Except.bind, if_pos hlen]
        exact bounded_none
      · simp only [bind, Except.bind, if_neg hlen]
        exact skip _ _ (by omega) (by omega)
    · rw [if_neg hext]
      by_cases hesp : nxt = 50
      · rw [if_pos hesp]
        exact bounded_some _ (Nat.le_refl _)
      by_cases hfrag : nxt = 44
      · rw [if_neg hesp, if_pos hfrag]
        by_cases hlen : r < 8
        · rw [if_pos hlen]
          exact bounded_none
        · rw [if_neg hlen, byte_whole]
          exact skip 8 _ (by omega) (Nat.le_refl 8)
      · rw [if_neg hesp, if_neg hfrag]
        exact bounded_some _ (Nat.le_refl _)

theorem getPayloadFromIp6_bounded (pkt : Packet) (p prot r : Nat) :
    Bounded (p + r) (getPayloadFromIp6 pkt.whole p prot r) := by
  simp only [getPayloadFromIp6, byte_whole, bind, Except.bind]
  by_cases h : r < 40
  · rw [if_pos h]
    exact bounded_none
  · rw [if_neg h]
    exact bounded_mono (ip6Extensions_bounded pkt prot r (p + 40) _ (r - 40) (by omega)) (by omega)

theorem getPayloadFromIp_bounded (pkt : Packet) (p prot r : Nat) :
    Bounded (p + r) (getPayloadFromIp pkt.whole p prot r) := by
  simp only [getPayloadFromIp, byte_whole, be16_whole, bind, Except.bind]
  split_ifs with hversion hfragment hlength
  · exact bounded_none
  · exact bounded_none
  · exact bounded_none
  · exact bounded_some _ (by omega)

theorem findTransport_bounded (pkt : Packet) (p ethertype proto r : Nat) :
    Bounded (p + r) (findTransport pkt.whole p ethertype proto r) := by
  unfold findTransport
  split_ifs
  · obtain ⟨f, hf, hbound⟩ := getPayloadFromIp_bounded pkt p proto r
    rw [hf]
    obtain ⟨ptr, type, r'⟩ := f
    cases ptr with
    | none => exact bounded_none
    | some q =>
      change Bounded _ (if type = 41 then getPayloadFromIp6 pkt.whole q type r' else _)
      split_ifs
      · exact bounded_mono (getPayloadFromIp6_bounded pkt q type r') (hbound q rfl)
      · exact bounded_some _ (hbound q rfl)
  · exact getPayloadFromIp6_bounded pkt p proto r
  · exact bounded_none

theorem transport_bounded {proto : Nat} (h : Bounded n (layer3Of pkt.whole pkt ethertype)) :
    Bounded n (transportOf pkt.whole pkt proto ethertype) := by
  obtain ⟨⟨ptr, type, r⟩, hf, hbound⟩ := h
  rw [transportOf, hf]
  cases ptr with
  | none => exact bounded_none
  | some p => exact bounded_mono (findTransport_bounded pkt p type proto r) (hbound p rfl)

theorem layer3_bounded_iff (pkt : Packet) (ethertype : Nat) :
    Bounded pkt.size (layer3Of pkt.whole pkt ethertype) ↔
      ¬ (Overcounted pkt ∧ ∃ x, Layer3At pkt ethertype x) := by
  obtain ⟨x, hx, hok⟩ | ⟨hnone, type, r, hok⟩ := finds_layer3 pkt ethertype
  · rw [hok]
    constructor
    · rintro ⟨f, hf, hbound⟩ ⟨hover, -⟩
      obtain rfl := Except.ok.inj hf
      exact (layer3At_inside_iff hx).mp (hbound x.offset rfl) hover
    · refine fun h => bounded_some _ ((layer3At_inside_iff hx).mpr fun hover => ?_)
      exact h ⟨hover, x, hx⟩
  · rw [hok]
    exact iff_of_true (bounded_none) fun h => h.2.elim hnone

/-- The regions that are returned on cleared caches lie inside of the packet, unless layer 3 is
behind a link header that is counted wrongly. -/
theorem regions_bounded_iff (pkt : Packet) (proto ethertype : Nat) :
    Bounded pkt.size ((getLayer2 pkt.whole pkt).run' clearCache) ∧
        Bounded pkt.size ((getLayer3 pkt.whole pkt ethertype).run' clearCache) ∧
        Bounded pkt.size ((getTransport pkt.whole pkt proto ethertype).run' clearCache) ↔
      ¬ (Overcounted pkt ∧ ∃ x, Layer3At pkt ethertype x) := by
  rw [layer2_fresh, layer3_fresh, transport_fresh, ← layer3_bounded_iff]
  exact ⟨fun h => h.2.1, fun h => ⟨layer2_bounded pkt, h, transport_bounded h⟩⟩

def wifiPacket : Packet where
  bytes i :=
    if i = 0 then 0x08 else if i = 1 then 0x01 else if i = 24 then 0xaa else if i = 25 then 0xaa
    else if i = 26 then 0x03 else if i = 30 then 0x08 else if i = 32 then 0x45 else 0
  linkType := .ieee80211
  captureLength := 52
  wireLength := 52
  captureLength_lt := by decide
  wireLength_lt := by decide

/-- Layer 3 is found at 32 of 52 bytes, with 44 bytes remaining. -/
theorem wifiPacket_overruns :
    wifiPacket.size = 52 ∧
      (getLayer3 wifiPacket.whole wifiPacket 0).run' clearCache =
        .ok ⟨some 32, ethertypeIp, 44⟩ := by
  decide +kernel

end Libtrace.RegionBounds
