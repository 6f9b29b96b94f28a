import Libtrace.HeaderChain

/-! The bytes that `trace_get_layer3` reads, and whether each header on the way is captured as far
as it is read. -/

namespace Libtrace.Layer3Reads
open Exec Orbit Protocols PacketAccess PacketDecode PacketLayout HeaderChain

def Captured (pkt : Packet) (p k : Nat) : Prop := k = 0 ∨ p + k ≤ pkt.size

def MetaCaptured (pkt : Packet) : Prop :=
  (pkt.linkType = .ieee80211Radio → Captured pkt 0 4) ∧
    (pkt.linkType = .linuxSll → 16 ≤ pkt.size →
      sllType (be pkt 2) (be pkt 14) = .ieee80211Radio → Captured pkt 16 4)

/-- How many bytes at `p` the decoder reads without having compared their number with
`remaining`. -/
def linkNeeds (pkt : Packet) (lt : LinkType) (p r : Nat) : Nat :=
  match lt with
  | .none => 1
  | .openbsdLoop => 5
  | .ieee80211 =>
    if ¬ isWifiData pkt p r then 0
    else wifiLength pkt p + if isWifiLlc pkt p then 8 else 2
  | _ => 0

def stackNeeds (pkt : Packet) (x : Place) : Nat :=
  if x.remaining = 0 then 0
  else if x.type = ethertype8021q then if x.remaining < 4 then 0 else 4
  else if x.type = ethertypeMpls then
    if (pkt.bytes (x.offset + 2)).toNat % 2 = 0 ∨ x.remaining < 5 then 3 else 5
  else if x.type = ethertypePppSes then if x.remaining < 8 then 0 else 8
  else 0

section

variable (pkt : Packet)

theorem guarded_byte (i : Nat) :
    Guarded .outOfRange (i < pkt.size) (byte pkt.captured i) (byte pkt.whole i) := by
  constructor <;> intro h <;> simp [byte, Packet.captured, Packet.whole, h]

theorem guarded_be16 (i : Nat) :
    Guarded .outOfRange (i + 2 ≤ pkt.size) (be16 pkt.captured i) (be16 pkt.whole i) := by
  refine guarded_of_iff (guarded_bind_ok (guarded_byte pkt i) rfl
    (guarded_bind_same (guarded_byte pkt (i + 1)) rfl rfl)) ?_
  omega

theorem guarded_le16 (i : Nat) :
    Guarded .outOfRange (i + 2 ≤ pkt.size) (le16 pkt.captured i) (le16 pkt.whole i) := by
  refine guarded_of_iff (guarded_bind_ok (guarded_byte pkt i) rfl
    (guarded_bind_same (guarded_byte pkt (i + 1)) rfl rfl)) ?_
  omega

theorem guarded_fixedHeader (size : Nat) (conv : Nat → Nat) (p type r : Nat) :
    Guarded .outOfRange (Captured pkt p (if r < size + 2 then 0 else size + 2))
      (fixedHeader (size + 2) size conv pkt.captured p type r)
      (fixedHeader (size + 2) size conv pkt.whole p type r) := by
  unfold fixedHeader
  by_cases h : r < size + 2
  · simp only [if_pos h]
    exact guarded_of_true rfl (.inl rfl)
  · simp only [if_neg h]
    refine guarded_of_iff (guarded_bind_same (guarded_be16 pkt (p + size)) rfl rfl) ?_
    simp only [Captured]
    omega

theorem guarded_pppoe (p type r : Nat) :
    Guarded .outOfRange (Captured pkt p (if r < 8 then 0 else 8))
      (getPayloadFromPppoe pkt.captured p type r) (getPayloadFromPppoe pkt.whole p type r) := by
  unfold getPayloadFromPppoe
  by_cases h : r < 6
  · simp only [if_pos h]
    exact guarded_of_true rfl (.inl (if_pos (by omega)))
  · simp only [if_neg h]
    refine guarded_of_iff (guarded_fixedHeader pkt 0 pppType (p + 6) type (r - 6)) ?_
    unfold Captured
    by_cases h8 : r < 8
    · rw [if_pos h8, if_pos (by omega)]
      simp
    · rw [if_neg h8, if_neg (by omega)]
      omega

theorem guarded_mpls (p type r : Nat) :
    Guarded .outOfRange
      (Captured pkt p (if (pkt.bytes (p + 2)).toNat % 2 = 0 ∨ r < 5 then 3 else 5))
      (getPayloadFromMpls pkt.captured p type r) (getPayloadFromMpls pkt.whole p type r) := by
  by_cases hlast : (pkt.bytes (p + 2)).toNat % 2 = 0 ∨ r < 5
  · rw [if_pos hlast]
    refine guarded_of_iff (guarded_bind_same (guarded_byte pkt (p + 2)) rfl ?_) ?_
    · by_cases hlabel : (pkt.bytes (p + 2)).toNat % 2 = 0
      · simp only [if_pos hlabel]
      · have hr : ¬ 5 ≤ r := by have := hlast.resolve_left hlabel; omega
        simp only [if_neg hlabel, if_neg hr]
    · simp only [Captured]
      omega
  · rw [if_neg hlast]
    obtain ⟨hlabel, hr⟩ := not_or.mp hlast
    have h5 : 5 ≤ r := by omega
    refine guarded_of_iff (guarded_bind_ok (guarded_byte pkt (p + 2)) rfl
      (g := p + 4 < pkt.size) ?_) ?_
    · simp only [if_neg hlabel, if_pos h5]
      exact guarded_bind_same (guarded_byte pkt (p + 4)) rfl rfl
    · simp only [Captured]
      omega

variable {x : Place} {p r : Nat}

theorem guarded_decoder {decoder : Memory → Nat → Nat → Nat → Decode (Found Nat)}
    (hr : x.remaining ≠ 0) (h : stackDecoder x.type = some decoder) :
    Guarded .outOfRange (Captured pkt x.offset (stackNeeds pkt x))
      (decoder pkt.captured x.offset x.type x.remaining)
      (decoder pkt.whole x.offset x.type x.remaining) := by
  unfold stackDecoder at h
  unfold stackNeeds
  rw [if_neg hr]
  split_ifs at h with h1 h2 h3 <;> obtain rfl := Option.some.inj h
  · rw [if_pos h1]
    exact guarded_fixedHeader pkt 2 id x.offset x.type x.remaining
  · rw [if_neg h1, if_pos h2]
    exact guarded_mpls pkt x.offset x.type x.remaining
  · rw [if_neg h1, if_neg h2, if_pos h3]
    exact guarded_pppoe pkt x.offset x.type x.remaining

theorem stackNeeds_stop (h : x.remaining = 0 ∨ stackDecoder x.type = none) :
    stackNeeds pkt x = 0 := by
  unfold stackNeeds
  by_cases hr : x.remaining = 0
  · rw [if_pos hr]
  · have hl3 := (isLayer3_iff x).mpr ⟨hr, h.resolve_left hr⟩
    rw [if_neg hr, if_neg hl3.2.1, if_neg hl3.2.2.1, if_neg hl3.2.2.2]

theorem guarded_skip (fuel : Nat) (x : Place) (h : x.remaining < fuel) :
    Guarded .outOfRange
      (∀ y, Reach (stackNext pkt) x y → Captured pkt y.offset (stackNeeds pkt y))
      (skipEncapsulation pkt.captured fuel (some x.offset) x.type x.remaining)
      (skipEncapsulation pkt.whole fuel (some x.offset) x.type x.remaining) := by
  induction fuel generalizing x with
  | zero => omega
  | succ fuel ih =>
    by_cases hr : x.remaining = 0
    · rw [forall_reach_stop (stackNext_of_empty pkt hr), skipEncapsulation, if_pos hr,
        skipEncapsulation, if_pos hr]
      exact guarded_of_true rfl (.inl (stackNeeds_stop pkt (.inl hr)))
    rw [skip_eq pkt.captured fuel x.offset x.type hr, skip_eq pkt.whole fuel x.offset x.type hr]
    cases hd : stackDecoder x.type with
    | none =>
      rw [forall_reach_stop (stackNext_of_decoder hd)]
      exact guarded_of_true rfl (.inl (stackNeeds_stop pkt (.inr hd)))
    | some decoder =>
      have hdecoder := guarded_decoder pkt hr hd
      obtain ⟨y, hy, hok⟩ | ⟨hnone, type, r, hok⟩ := finds_decoder pkt x hd
      · have := stackNext_sum hy
        rw [forall_reach_step hy]
        exact guarded_bind_ok hdecoder hok (ih y (by omega))
      · rw [forall_reach_stop (Option.eq_none_iff_forall_ne_some.mpr hnone)]
        obtain ⟨fuel, rfl⟩ : ∃ k, fuel = k + 1 := ⟨fuel - 1, by omega⟩
        exact guarded_bind_same hdecoder hok rfl

theorem guarded_wifi (ethertype : Nat) (hp : p + r ≤ pkt.size) :
    Guarded .outOfRange (Captured pkt p (linkNeeds pkt .ieee80211 p r))
      (getPayloadFrom80211 pkt.captured p ethertype r)
      (getPayloadFrom80211 pkt.whole p ethertype r) := by
  unfold getPayloadFrom80211 linkNeeds
  by_cases hr : r < 30
  · simp only [if_pos hr]
    exact guarded_of_true rfl (.inl (if_pos fun h => by have := h.1; omega))
  simp only [if_neg hr]
  by_cases hdata : (pkt.bytes p).toNat / 4 % 4 = 2
  · have hwifi : ¬ ¬ isWifiData pkt p r := not_not_intro ⟨by omega, hdata⟩
    have hframe : ¬ (pkt.bytes p).toNat / 4 % 4 ≠ 2 := not_not_intro hdata
    have h2 : ¬ r < 2 := by omega
    rw [if_neg hwifi]
    refine guarded_bind_sure (guarded_byte pkt p) (by omega) rfl ?_
    simp only [if_neg hframe]
    refine guarded_bind_sure (guarded_byte pkt (p + 1)) (by omega) rfl ?_
    simp only [if_neg h2]
    by_cases hllc : isWifiLlc pkt p
    · refine guarded_of_iff (guarded_bind_ok (guarded_be16 pkt _) (be16_whole pkt _)
        (g := Captured pkt (p + wifiLength pkt p) 8) ?_) ?_
      · have hllc' := hllc
        unfold isWifiLlc wifiLength at hllc'
        have h8 : ¬ r < 6 + 2 := by omega
        simp only [if_pos hllc']
        have := guarded_fixedHeader pkt 6 id (p + wifiLength pkt p) ethertype r
        rwa [if_neg h8] at this
      · change p + wifiLength pkt p + 2 ≤ _ ∧ _ ↔ _
        simp only [Captured, if_pos hllc]
        omega
    · refine guarded_of_iff (guarded_bind_same (guarded_be16 pkt _) (be16_whole pkt _) ?_) ?_
      · have hllc' := hllc
        unfold isWifiLlc wifiLength at hllc'
        simp only [if_neg hllc']
      · change p + wifiLength pkt p + 2 ≤ _ ↔ _
        simp only [Captured, if_neg hllc]
        omega
  · rw [if_pos fun h => hdata h.2]
    refine guarded_of_iff (guarded_bind_same (guarded_byte pkt p) rfl ?_)
      (iff_of_true (by omega) (.inl rfl))
    simp only [if_pos hdata]

theorem guarded_nibble (p type : Nat) :
    Guarded .outOfRange (p < pkt.size) (nibbleType pkt.captured p type)
      (nibbleType pkt.whole p type) := guarded_bind_same (guarded_byte pkt p) rfl rfl

theorem guarded_layer2 (lt : LinkType) (ethertype : Nat) (hp : p + r ≤ pkt.size) :
    Guarded .outOfRange (Captured pkt p (linkNeeds pkt lt p r))
      (getPayloadFromLayer2 pkt.captured (some p) lt ethertype r)
      (getPayloadFromLayer2 pkt.whole (some p) lt ethertype r) := by
  have fixed (size : Nat) (conv : Nat → Nat) {p r : Nat} (hp : p + r ≤ pkt.size) :
      Guarded .outOfRange (Captured pkt p 0)
        (fixedHeader (size + 2) size conv pkt.captured p ethertype r)
        (fixedHeader (size + 2) size conv pkt.whole p ethertype r) := by
    refine guarded_of_iff (guarded_fixedHeader pkt size conv p ethertype r) ?_
    refine iff_of_true ?_ (.inl rfl)
    unfold Captured
    split_ifs <;> omega
  cases lt
  case none =>
    refine guarded_of_iff (guarded_bind_same (guarded_nibble pkt p ethertype) rfl rfl) ?_
    simp only [Captured, linkNeeds]
    omega
  case openbsdLoop =>
    refine guarded_of_iff (guarded_bind_same (guarded_nibble pkt (p + 4) ethertype) rfl rfl) ?_
    simp only [Captured, linkNeeds]
    omega
  case ieee80211 => exact guarded_wifi pkt ethertype hp
  case atm =>
    simp only [getPayloadFromLayer2, getPayloadFromAtm]
    by_cases h : r < 4
    · simp only [if_pos h]
      exact guarded_of_true rfl (.inl rfl)
    · simp only [if_neg h]
      exact guarded_of_iff (fixed 6 id (by omega)) (iff_of_true (.inl rfl) (.inl rfl))
  case eth => exact fixed 12 id hp
  case ppp => exact fixed 0 pppType hp
  case llcsnap => exact fixed 6 id hp
  case hdlcPos => exact fixed 2 id hp
  case pos => exact fixed 2 pppType hp
  all_goals exact guarded_of_true rfl (.inl rfl)

theorem skipMeta_same (m m' : Memory) (fuel length p r : Nat) {lt next : LinkType}
    (hnext : isLayer2 next = true)
    (h : getPayloadFromMeta m p lt r = .ok (skipHeader length lt next p r))
    (h' : getPayloadFromMeta m' p lt r = .ok (skipHeader length lt next p r)) :
    skipMeta m (fuel + 2) p lt r = skipMeta m' (fuel + 2) p lt r := by
  rw [skipMeta, skipMeta, h, h']
  unfold skipHeader
  split_ifs
  · rfl
  · change skipMeta m (fuel + 1) _ next _ = skipMeta m' (fuel + 1) _ next _
    rw [skipMeta_layer2 m fuel _ hnext, skipMeta_layer2 m' fuel _ hnext]

theorem guarded_radio (fuel p r : Nat) :
    Guarded .outOfRange (p + 4 ≤ pkt.size)
      (skipMeta pkt.captured (fuel + 2) p .ieee80211Radio r)
      (skipMeta pkt.whole (fuel + 2) p .ieee80211Radio r) := by
  have hlength := guarded_le16 pkt (p + 2)
  refine guarded_of_iff (c := p + 2 + 2 ≤ pkt.size) ⟨fun h => ?_, fun h => ?_⟩ (by omega)
  · refine skipMeta_same _ _ fuel (le pkt (p + 2)) p r (rfl : isLayer2 .ieee80211 = true) ?_ rfl
    rw [getPayloadFromMeta, hlength.1 h]
    rfl
  · rw [skipMeta, getPayloadFromMeta, hlength.2 h]
    rfl

theorem skipMeta_captured_sll (fuel : Nat) (hr : p + r ≤ pkt.size) :
    skipMeta pkt.captured (fuel + 1) p .linuxSll r =
      if r < 16 then .ok ⟨none, .unknown, 0⟩
      else skipMeta pkt.captured fuel (p + 16) (sllType (be pkt (p + 2)) (be pkt (p + 14)))
        (r - 16) := by
  rw [skipMeta, getPayloadFromMeta]
  by_cases h : r < 16
  · rw [if_pos h, if_pos h]
    rfl
  · rw [if_neg h, if_neg h, (guarded_be16 pkt (p + 14)).1 (by omega),
      (guarded_be16 pkt (p + 2)).1 (by omega)]
    rfl

theorem guarded_sll (hr : r ≤ pkt.size) :
    Guarded .outOfRange
      (16 ≤ r → sllType (be pkt 2) (be pkt 14) = .ieee80211Radio → 20 ≤ pkt.size)
      (skipMeta pkt.captured 3 0 .linuxSll r) (skipMeta pkt.whole 3 0 .linuxSll r) := by
  rw [skipMeta_captured_sll pkt 2 (by omega), skipMeta_sll]
  by_cases h : r < 16
  · rw [if_pos h, if_pos h]
    exact guarded_of_true rfl (by omega)
  · rw [if_neg h, if_neg h]
    obtain hlt | hlt | hlt := sllType_cases (be pkt 2) (be pkt 14)
    · simp only [Nat.zero_add, hlt]
      exact guarded_of_true rfl (by simp)
    · simp only [Nat.zero_add, hlt]
      exact guarded_of_iff (guarded_radio pkt 0 16 (r - 16)) (by simp; omega)
    · simp only [Nat.zero_add]
      rw [skipMeta_layer2 _ 1 16 hlt, skipMeta_layer2 _ 1 16 hlt]
      refine guarded_of_true rfl fun _ hradio => ?_
      rw [hradio] at hlt
      cases hlt

theorem guarded_layer2Of :
    Guarded .outOfRange (MetaCaptured pkt) (layer2Of pkt.captured pkt)
      (layer2Of pkt.whole pkt) := by
  unfold layer2Of findLayer2 metaRounds MetaCaptured
  cases hlt : pkt.linkType
  case ieee80211Radio =>
    refine guarded_of_iff (guarded_radio pkt 1 0 pkt.size) ?_
    simp [Captured]
  case linuxSll =>
    refine guarded_of_iff (guarded_sll pkt (Nat.le_refl _)) ?_
    simp [Captured]
  case ieee80211Prism =>
    exact guarded_of_true (skipMeta_same _ _ 1 144 0 pkt.size rfl rfl rfl) (by simp)
  case pflog =>
    exact guarded_of_true (skipMeta_same _ _ 1 49 0 pkt.size rfl rfl rfl) (by simp)
  all_goals exact guarded_of_true rfl (by simp)

structure Layer3Captured (ethertype : Nat) : Prop where
  metaData : MetaCaptured pkt
  link : ∀ p lt, headerStart pkt = some (p, lt) →
    Captured pkt p (linkNeeds pkt lt p (pkt.size - p))
  stack : ∀ x y, stackStart pkt ethertype = some x → Reach (stackNext pkt) x y →
    Captured pkt y.offset (stackNeeds pkt y)

theorem guarded_findLayer3 (lt : LinkType) (ethertype : Nat) (hp : p + r ≤ pkt.size) :
    Guarded .outOfRange
      (Captured pkt p (linkNeeds pkt lt p r) ∧
        ∀ x y, payload pkt ethertype lt p r = some x → Reach (stackNext pkt) x y →
          Captured pkt y.offset (stackNeeds pkt y))
      (findLayer3 pkt.captured ⟨some p, lt, r⟩ ethertype)
      (findLayer3 pkt.whole ⟨some p, lt, r⟩ ethertype) := by
  rw [findLayer3_eq, findLayer3_eq]
  have hlink := guarded_layer2 pkt lt ethertype hp
  obtain ⟨x, hx, hok⟩ | ⟨hnone, type, r', hok⟩ := finds_payload pkt ethertype p r lt
  · refine guarded_of_iff (guarded_bind_ok hlink hok
      (guarded_map dropEmpty (guarded_skip pkt (x.remaining + 2) x (by omega)))) ?_
    refine and_congr_right fun _ => ⟨fun h x' y hx' => ?_, fun h y => h x y hx⟩
    rw [hx, Option.some.injEq] at hx'
    exact hx' ▸ h y
  · refine guarded_of_iff (guarded_bind_same hlink hok ?_) ?_
    · exact (skip_none _ _ type r').trans (skip_none _ _ type r').symm
    · exact (and_iff_left fun x y hx => (hnone x hx).elim).symm

theorem guarded_layer3 (ethertype : Nat) :
    Guarded .outOfRange (Layer3Captured pkt ethertype) (layer3Of pkt.captured pkt ethertype)
      (layer3Of pkt.whole pkt ethertype) := by
  obtain ⟨hstart, lt, r, hl2, heq⟩ | ⟨p, lt, hstart, hp, -, heq⟩ := layer2_cases pkt
  · refine guarded_of_iff (guarded_bind_same (guarded_layer2Of pkt) heq ?_) ?_
    · rw [findLayer3_none _ hl2, findLayer3_none _ hl2]
    · constructor
      · exact fun h => ⟨h, by simp [hstart], by simp [stackStart, hstart]⟩
      · exact Layer3Captured.metaData
  · refine guarded_of_iff (guarded_bind_ok (guarded_layer2Of pkt) heq
      (guarded_findLayer3 pkt lt ethertype (by omega))) ?_
    constructor
    · rintro ⟨hmeta, hlink, hstack⟩
      refine ⟨hmeta, fun p' lt' h => ?_, fun x y hx => hstack x y ?_⟩
      · obtain ⟨rfl, rfl⟩ := Prod.mk.inj (Option.mem_unique hstart h)
        exact hlink
      · simpa [stackStart, hstart] using hx
    · rintro ⟨hmeta, hlink, hstack⟩
      exact ⟨hmeta, hlink p lt hstart, fun x y hx => hstack x y (by simpa [stackStart, hstart])⟩

end

end Libtrace.Layer3Reads
