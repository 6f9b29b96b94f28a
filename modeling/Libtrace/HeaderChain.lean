import Libtrace.Orbit
import Libtrace.PacketLayout

/-! The headers between layer 2 and layer 3, read off the bytes of a packet. `trace_get_layer3`
finds layer 3 there. -/

namespace Libtrace.HeaderChain
open Orbit Protocols PacketAccess PacketDecode PacketLayout

/-- The ethertype of a header, where it starts and how many bytes are counted from there on. -/
structure Place where
  type : Nat
  offset : Nat
  remaining : Nat
  deriving DecidableEq, Repr

def Place.found (x : Place) : Found Nat := ⟨some x.offset, x.type, x.remaining⟩

def versionType (b : UInt8) (other : Nat) : Nat :=
  if b.toNat / 16 = 4 then ethertypeIp else if b.toNat / 16 = 6 then ethertypeIpv6 else other

def fixedLink : LinkType → Option (Nat × (Nat → Nat))
  | .eth => some (14, id)
  | .ppp => some (2, pppType)
  | .atm => some (12, id)
  | .llcsnap => some (8, id)
  | .hdlcPos => some (4, id)
  | .pos => some (4, pppType)
  | _ => none

def wifiLength (pkt : Packet) (p : Nat) : Nat :=
  headerLength80211 (pkt.bytes p).toNat (pkt.bytes (p + 1)).toNat

def isWifiData (pkt : Packet) (p r : Nat) : Prop := 30 ≤ r ∧ (pkt.bytes p).toNat / 4 % 4 = 2

instance (pkt : Packet) (p r : Nat) : Decidable (isWifiData pkt p r) :=
  inferInstanceAs (Decidable (_ ∧ _))

def isWifiLlc (pkt : Packet) (p : Nat) : Prop := be pkt (p + wifiLength pkt p) = 0xaaaa

instance (pkt : Packet) (p : Nat) : Decidable (isWifiLlc pkt p) :=
  inferInstanceAs (Decidable (_ = _))

def after (size type p r : Nat) : Option Place :=
  if r < size then none else some ⟨type, p + size, r - size⟩

def payload (pkt : Packet) (ethertype : Nat) (lt : LinkType) (p r : Nat) : Option Place :=
  match lt with
  | .none => some ⟨versionType (pkt.bytes p) ethertype, p, r⟩
  | .openbsdLoop => some ⟨versionType (pkt.bytes (p + 4)) ethertype, p + 4, r⟩
  | .ieee80211 =>
    let q := p + wifiLength pkt p
    if ¬ isWifiData pkt p r then none
    else if isWifiLlc pkt p then some ⟨be pkt (q + 6), q + 8, r - 8⟩
    else some ⟨be pkt q, q + 2, (r + 2 ^ 32 - wifiLength pkt p - 2) % 2 ^ 32⟩
  | lt =>
    match fixedLink lt with
    | some (size, conv) => after size (conv (be pkt (p + size - 2))) p r
    | none => none

def vlanNext (pkt : Packet) (p r : Nat) : Option Place := after 4 (be pkt (p + 2)) p r

def mplsNext (pkt : Packet) (p r : Nat) : Option Place :=
  after 4 (if (pkt.bytes (p + 2)).toNat % 2 = 0 ∨ r < 5 then ethertypeMpls
    else versionType (pkt.bytes (p + 4)) 0) p r

def pppoeNext (pkt : Packet) (p r : Nat) : Option Place := after 8 (pppType (be pkt (p + 6))) p r

def stackNext (pkt : Packet) (x : Place) : Option Place :=
  if x.type = ethertype8021q then vlanNext pkt x.offset x.remaining
  else if x.type = ethertypeMpls then mplsNext pkt x.offset x.remaining
  else if x.type = ethertypePppSes then pppoeNext pkt x.offset x.remaining
  else none

def isLayer3 (x : Place) : Prop :=
  x.remaining ≠ 0 ∧ x.type ≠ ethertype8021q ∧ x.type ≠ ethertypeMpls ∧ x.type ≠ ethertypePppSes

def stackStart (pkt : Packet) (ethertype : Nat) : Option Place :=
  match headerStart pkt with
  | some (p, lt) => payload pkt ethertype lt p (pkt.size - p)
  | none => none

def Layer3At (pkt : Packet) (ethertype : Nat) (x : Place) : Prop :=
  ∃ start, stackStart pkt ethertype = some start ∧ Reach (stackNext pkt) start x ∧ isLayer3 x

def Finds (P : Place → Prop) (d : Decode (Found Nat)) : Prop :=
  (∃ x, P x ∧ d = .ok x.found) ∨ (∀ x, ¬ P x) ∧ ∃ type r, d = .ok ⟨none, type, r⟩

variable {o : Option Place} {d : Decode (Found Nat)} {x : Place} {type r : Nat} {y : Place}
  {pkt : Packet} {decoder : Memory → Nat → Nat → Nat → Decode (Found Nat)}

theorem finds_some (ho : o = some x) (hd : d = .ok x.found) :
    Finds (o = some ·) d := .inl ⟨x, ho, hd⟩

theorem finds_none (ho : o = none) (hd : d = .ok ⟨none, type, r⟩) : Finds (o = some ·) d :=
  .inr ⟨fun x hx => by simp [ho] at hx, type, r, hd⟩

theorem finds_congr {P Q : Place → Prop} (h : ∀ x, P x ↔ Q x) (hd : Finds P d) : Finds Q d := by
  obtain ⟨x, hx, hok⟩ | ⟨hnone, hok⟩ := hd
  · exact .inl ⟨x, (h x).mp hx, hok⟩
  · exact .inr ⟨fun x hx => hnone x ((h x).mpr hx), hok⟩

theorem finds_fixedHeader (pkt : Packet) (size : Nat) (conv : Nat → Nat) (p type r : Nat) :
    Finds (after (size + 2) (conv (be pkt (p + size))) p r = some ·)
      (fixedHeader (size + 2) size conv pkt.whole p type r) := by
  by_cases h : r < size + 2
  · exact finds_none (if_pos h) (if_pos h)
  · exact finds_some (if_neg h) (if_neg h)

theorem after_after (size size' type p r : Nat) (h : size ≤ r) :
    after size' type (p + size) (r - size) = after (size + size') type p r := by
  unfold after
  by_cases h' : r < size + size'
  · rw [if_pos h', if_pos (by omega)]
  · rw [if_neg h', if_neg (by omega), Nat.sub_sub, Nat.add_assoc]

theorem finds_atm (pkt : Packet) (ethertype p r : Nat) :
    Finds (payload pkt ethertype .atm p r = some ·)
      (getPayloadFromLayer2 pkt.whole (some p) .atm ethertype r) := by
  simp only [getPayloadFromLayer2, getPayloadFromAtm]
  by_cases h : r < 4
  · rw [if_pos h]
    exact finds_none (if_pos (by omega)) rfl
  · rw [if_neg h]
    have hllc := finds_fixedHeader pkt 6 id (p + 4) ethertype (r - 4)
    rwa [after_after _ _ _ _ _ (by omega)] at hllc

theorem finds_wifi (pkt : Packet) (ethertype p r : Nat) :
    Finds (payload pkt ethertype .ieee80211 p r = some ·)
      (getPayloadFrom80211 pkt.whole p ethertype r) := by
  unfold getPayloadFrom80211
  by_cases hr : r < 30
  · exact finds_none (if_pos fun h => by have := h.1; omega) (if_pos hr)
  by_cases hdata : (pkt.bytes p).toNat / 4 % 4 = 2
  · have hwifi : ¬ ¬ isWifiData pkt p r := not_not_intro ⟨by omega, hdata⟩
    have hshort : ¬ r < 2 := by omega
    by_cases hllc : isWifiLlc pkt p
    · have h8 : ¬ r < 8 := by omega
      refine finds_some ((if_neg hwifi).trans (if_pos hllc)) ?_
      unfold isWifiLlc wifiLength at hllc
      simp [hr, hdata, hshort, hllc, h8, getPayloadFromLlcsnap, fixedHeader, Place.found,
        wifiLength, bind, Except.bind, pure, Except.pure]
    · refine finds_some ((if_neg hwifi).trans (if_neg hllc)) ?_
      unfold isWifiLlc wifiLength at hllc
      simp [hr, hdata, hshort, hllc, Place.found, wifiLength, bind, Except.bind, pure, Except.pure]
  · refine finds_none (if_pos fun h => hdata h.2) (?_ : _ = Except.ok (Found.mk none ethertype r))
    simp [hr, hdata, bind, Except.bind, pure, Except.pure]

theorem finds_payload (pkt : Packet) (ethertype : Nat) (p r : Nat) (lt : LinkType) :
    Finds (payload pkt ethertype lt p r = some ·)
      (getPayloadFromLayer2 pkt.whole (some p) lt ethertype r) := by
  cases lt
  case none => exact finds_some rfl rfl
  case openbsdLoop => exact finds_some rfl rfl
  case ieee80211 => exact finds_wifi pkt ethertype p r
  case eth => exact finds_fixedHeader pkt 12 id p ethertype r
  case ppp => exact finds_fixedHeader pkt 0 pppType p ethertype r
  case atm => exact finds_atm pkt ethertype p r
  case llcsnap => exact finds_fixedHeader pkt 6 id p ethertype r
  case hdlcPos => exact finds_fixedHeader pkt 2 id p ethertype r
  case pos => exact finds_fixedHeader pkt 2 pppType p ethertype r
  all_goals exact finds_none rfl rfl

def dropEmpty (f : Found Nat) : Found Nat := if f.remaining = 0 then { f with ptr := none } else f

theorem findLayer3_eq (m : Memory) (link : Found LinkType) (ethertype : Nat) :
    findLayer3 m link ethertype =
      getPayloadFromLayer2 m link.ptr link.type ethertype link.remaining >>= fun f =>
        dropEmpty <$> skipEncapsulation m (f.remaining + 2) f.ptr f.type f.remaining := by
  rw [findLayer3]
  refine congrArg _ (funext fun f => ?_)
  rfl

theorem after_some {size p : Nat} (h : after size type p r = some y) :
    y = ⟨type, p + size, r - size⟩ ∧ size ≤ r := by
  unfold after at h
  split_ifs at h
  exact ⟨(Option.some.inj h).symm, by omega⟩

theorem after_sum {size p : Nat} (h : after size type p r = some y) :
    y.offset + y.remaining = p + r ∧ y.remaining + size = r := by
  obtain ⟨rfl, hsize⟩ := after_some h
  constructor <;> simp only <;> omega

theorem stackNext_sum (h : stackNext pkt x = some y) :
    y.offset + y.remaining = x.offset + x.remaining ∧ y.remaining < x.remaining := by
  unfold stackNext vlanNext mplsNext pppoeNext at h
  split_ifs at h <;> obtain ⟨hsum, hsize⟩ := after_sum h <;> exact ⟨hsum, by omega⟩

theorem stackNext_of_empty (pkt : Packet) (h : x.remaining = 0) : stackNext pkt x = none := by
  by_contra hne
  obtain ⟨y, hy⟩ := Option.ne_none_iff_exists'.mp hne
  have := stackNext_sum hy
  omega

def stackDecoder (type : Nat) : Option (Memory → Nat → Nat → Nat → Decode (Found Nat)) :=
  if type = ethertype8021q then some getPayloadFromVlan
  else if type = ethertypeMpls then some getPayloadFromMpls
  else if type = ethertypePppSes then some getPayloadFromPppoe
  else none

theorem skip_eq (m : Memory) (fuel p type : Nat) (hr : r ≠ 0) :
    skipEncapsulation m (fuel + 1) (some p) type r =
      match stackDecoder type with
      | some decoder => decoder m p type r >>= fun f =>
          skipEncapsulation m fuel f.ptr f.type f.remaining
      | none => .ok ⟨some p, type, r⟩ := by
  rw [skipEncapsulation, if_neg hr, stackDecoder]
  split_ifs <;> rfl

theorem finds_mpls (pkt : Packet) (p r : Nat) :
    Finds (mplsNext pkt p r = some ·) (getPayloadFromMpls pkt.whole p ethertypeMpls r) := by
  have hdecode : getPayloadFromMpls pkt.whole p ethertypeMpls r = .ok (
      if r < 4 then ⟨none, ethertypeMpls, r⟩
      else ⟨some (p + 4), if (pkt.bytes (p + 2)).toNat % 2 = 0 ∨ r < 5 then ethertypeMpls
        else versionType (pkt.bytes (p + 4)) 0, r - 4⟩) := by
    by_cases hbottom : (pkt.bytes (p + 2)).toNat % 2 = 0
    · simp [getPayloadFromMpls, hbottom, bind, Except.bind, pure, Except.pure]
    · by_cases h5 : 5 ≤ r
      · have h4 : ¬ r < 4 := by omega
        have h5' : ¬ r < 5 := by omega
        simp [getPayloadFromMpls, hbottom, h5, h4, h5', versionType, bind, Except.bind, pure,
          Except.pure]
      · have h5' : r < 5 := by omega
        simp [getPayloadFromMpls, hbottom, h5, h5', bind, Except.bind, pure, Except.pure]
  rw [hdecode]
  by_cases h : r < 4
  · rw [if_pos h]
    exact finds_none (if_pos h) rfl
  · rw [if_neg h]
    exact finds_some (if_neg h) rfl

theorem finds_pppoe (pkt : Packet) (p type r : Nat) :
    Finds (pppoeNext pkt p r = some ·) (getPayloadFromPppoe pkt.whole p type r) := by
  unfold getPayloadFromPppoe
  by_cases h : r < 6
  · rw [if_pos h]
    exact finds_none (if_pos (by omega)) rfl
  · rw [if_neg h]
    have hppp := finds_fixedHeader pkt 0 pppType (p + 6) type (r - 6)
    rwa [after_after _ _ _ _ _ (by omega)] at hppp

theorem finds_decoder (pkt : Packet) (x : Place) (h : stackDecoder x.type = some decoder) :
    Finds (stackNext pkt x = some ·) (decoder pkt.whole x.offset x.type x.remaining) := by
  unfold stackDecoder at h
  unfold stackNext
  split_ifs at h ⊢ with h1 h2 h3 <;> obtain rfl := Option.some.inj h
  · exact finds_fixedHeader pkt 2 id x.offset x.type x.remaining
  · rw [h2]
    exact finds_mpls pkt x.offset x.remaining
  · exact finds_pppoe pkt x.offset x.type x.remaining

theorem skip_none (m : Memory) (fuel type r : Nat) :
    dropEmpty <$> skipEncapsulation m (fuel + 1) none type r = .ok ⟨none, type, r⟩ := by
  refine congrArg Except.ok (?_ : dropEmpty ⟨none, type, r⟩ = _)
  unfold dropEmpty
  split_ifs <;> rfl

theorem stackNext_of_decoder (h : stackDecoder x.type = none) : stackNext pkt x = none := by
  unfold stackDecoder at h
  unfold stackNext
  split_ifs at h ⊢
  rfl

theorem isLayer3_iff (x : Place) : isLayer3 x ↔ x.remaining ≠ 0 ∧ stackDecoder x.type = none := by
  unfold isLayer3 stackDecoder
  split_ifs with h1 h2 h3 <;> simp [*]

theorem finds_here (pkt : Packet) (hnext : stackNext pkt x = none)
    (h : Finds (fun y => y = x ∧ isLayer3 x) d) :
    Finds (fun y => Reach (stackNext pkt) x y ∧ isLayer3 y) d := by
  refine finds_congr (fun y => ?_) h
  constructor
  · rintro ⟨rfl, hl3⟩
    exact ⟨reach_refl y, hl3⟩
  · rintro ⟨hreach, hl3⟩
    obtain rfl := reach_stop hnext hreach
    exact ⟨rfl, hl3⟩

theorem not_isLayer3_of_decoder (h : stackDecoder x.type = some decoder) : ¬ isLayer3 x := by
  rw [isLayer3_iff, h]
  simp

theorem finds_skip (pkt : Packet) (fuel : Nat) (x : Place) (h : x.remaining < fuel) :
    Finds (fun y => Reach (stackNext pkt) x y ∧ isLayer3 y)
      (dropEmpty <$> skipEncapsulation pkt.whole fuel (some x.offset) x.type x.remaining) := by
  induction fuel generalizing x with
  | zero => omega
  | succ fuel ih =>
    by_cases hr : x.remaining = 0
    · refine finds_here pkt (stackNext_of_empty pkt hr)
        (.inr ⟨fun y hy => hy.2.1 hr, x.type, 0, ?_⟩)
      rw [skipEncapsulation, if_pos hr, hr]
      rfl
    · rw [skip_eq pkt.whole fuel x.offset x.type hr]
      cases hd : stackDecoder x.type with
      | none =>
        refine finds_here pkt (stackNext_of_decoder hd) (.inl ⟨x, ⟨rfl, ?_⟩, ?_⟩)
        · exact (isLayer3_iff x).mpr ⟨hr, hd⟩
        · exact congrArg Except.ok (if_neg hr)
      | some decoder =>
        obtain ⟨y, hy, hok⟩ | ⟨hnone, type, r, hok⟩ := finds_decoder pkt x hd
        · have := stackNext_sum hy
          simp only [hok]
          refine finds_congr (fun z => and_congr_left fun hl3 => ?_) (ih y (by omega))
          refine ⟨reach_head hy, fun hz => (reach_step hy hz).resolve_left ?_⟩
          rintro rfl
          exact not_isLayer3_of_decoder hd hl3
        · have hnext : stackNext pkt x = none := Option.eq_none_iff_forall_ne_some.mpr hnone
          refine finds_here pkt hnext (.inr ⟨fun y hy => not_isLayer3_of_decoder hd hy.2, ?_⟩)
          obtain ⟨fuel, rfl⟩ : ∃ k, fuel = k + 1 := ⟨fuel - 1, by omega⟩
          simp only [hok]
          exact ⟨type, r, skip_none pkt.whole fuel type r⟩

theorem findLayer3_none (m : Memory) {lt : LinkType} (h : isLayer2 lt = false) (ethertype r : Nat) :
    findLayer3 m ⟨none, lt, r⟩ ethertype = .ok ⟨none, ethertype, r⟩ := by
  have hdecode : getPayloadFromLayer2 m none lt ethertype r = .ok ⟨none, ethertype, r⟩ := by
    cases lt <;> first | rfl | simp [isLayer2] at h
  rw [findLayer3_eq, hdecode]
  exact skip_none m (r + 1) ethertype r

theorem finds_findLayer3 (pkt : Packet) (ethertype p r : Nat) (lt : LinkType) :
    Finds (fun x => ∃ start, payload pkt ethertype lt p r = some start ∧
        Reach (stackNext pkt) start x ∧ isLayer3 x)
      (findLayer3 pkt.whole ⟨some p, lt, r⟩ ethertype) := by
  rw [findLayer3_eq]
  obtain ⟨y, hy, hok⟩ | ⟨hnone, type, r', hok⟩ := finds_payload pkt ethertype p r lt
  · simp only [hok]
    refine finds_congr (fun x => ?_) (finds_skip pkt (y.remaining + 2) y (by omega))
    constructor
    · exact fun h => ⟨y, hy, h⟩
    · rintro ⟨start, hstart, h⟩
      rw [hy, Option.some.injEq] at hstart
      exact hstart ▸ h
  · simp only [hok]
    exact .inr ⟨fun x ⟨start, hstart, _⟩ => hnone start hstart, type, r',
      skip_none pkt.whole (r' + 1) type r'⟩

theorem layer3At_unique {ethertype : Nat} (hx : Layer3At pkt ethertype x)
    (hy : Layer3At pkt ethertype y) : x = y := by
  obtain ⟨start, hstart, hreach, hl3⟩ := hx
  obtain ⟨start', hstart', hreach', hl3'⟩ := hy
  obtain rfl := Option.mem_unique hstart hstart'
  exact reach_end_unique hreach hreach' (stackNext_of_decoder ((isLayer3_iff x).mp hl3).2)
    (stackNext_of_decoder ((isLayer3_iff y).mp hl3').2)

theorem finds_layer3 (pkt : Packet) (ethertype : Nat) :
    Finds (Layer3At pkt ethertype) (layer3Of pkt.whole pkt ethertype) := by
  unfold layer3Of Layer3At stackStart
  obtain ⟨hstart, lt, r, hl2, heq⟩ | ⟨p, lt, hstart, -, -, heq⟩ := layer2_cases pkt
  · rw [hstart, heq]
    exact .inr ⟨by simp, ethertype, r, findLayer3_none pkt.whole hl2 ethertype r⟩
  · rw [hstart, heq]
    exact finds_findLayer3 pkt ethertype p (pkt.size - p) lt

end Libtrace.HeaderChain
