import Libtrace.Layer3Reads
import Libtrace.RegionBounds

/-! The bytes that `trace_get_transport` reads behind the layer 3 header, and whether they are
captured. -/

namespace Libtrace.ReadBounds
open Exec Orbit Protocols PacketAccess PacketDecode PacketLayout HeaderChain RegionBounds
  Layer3Reads

section

variable (pkt : Packet)

def extNext (x : Place) : Option Place :=
  if isExtension x.type then
    after ((pkt.bytes (x.offset + 1)).toNat * 8 + 8) (pkt.bytes x.offset).toNat x.offset x.remaining
  else if x.type = 44 then after 8 (pkt.bytes x.offset).toNat x.offset x.remaining
  else none

def extNeeds (x : Place) : Nat :=
  if isExtension x.type then 2 else if x.type = 44 then if x.remaining < 8 then 0 else 1 else 0

def ip4Next (p r : Nat) : Option Place :=
  if (pkt.bytes p).toNat / 16 = 4 ∧ be pkt (p + 6) % 0x2000 = 0 then
    after ((pkt.bytes p).toNat % 16 * 4) (pkt.bytes (p + 9)).toNat p r
  else none

/-- The version, the fragment offset and, if the header is all there by its own length, the
protocol. -/
def ip4Needs (p r : Nat) : Nat :=
  if (pkt.bytes p).toNat / 16 ≠ 4 then 1 else if (ip4Next pkt p r).isSome then 10 else 8

def ip6Start (x : Place) : Option (Nat × Nat) :=
  if x.type = ethertypeIp then
    match ip4Next pkt x.offset x.remaining with
    | some y => if y.type = 41 then some (y.offset, y.remaining) else none
    | none => none
  else if x.type = ethertypeIpv6 then some (x.offset, x.remaining)
  else none

def extStart (p r : Nat) : Option Place := after 40 (pkt.bytes (p + 6)).toNat p r

def ExtCaptured (x : Place) : Prop :=
  ∀ y, Reach (extNext pkt) x y → Captured pkt y.offset (extNeeds y)

def Ip6Captured (p r : Nat) : Prop :=
  Captured pkt p 7 ∧ ∀ y, extStart pkt p r = some y → ExtCaptured pkt y

structure TransportCaptured (x : Place) : Prop where
  ip4 : x.type = ethertypeIp → Captured pkt x.offset (ip4Needs pkt x.offset x.remaining)
  ip6 : ∀ p r, ip6Start pkt x = some (p, r) → Ip6Captured pkt p r

theorem extNext_of_extension {x : Place} (h : isExtension x.type = true) :
    extNext pkt x = after ((pkt.bytes (x.offset + 1)).toNat * 8 + 8) (pkt.bytes x.offset).toNat
      x.offset x.remaining := if_pos h

theorem extNext_of_fragment {x : Place} (h : x.type = 44) :
    extNext pkt x = after 8 (pkt.bytes x.offset).toNat x.offset x.remaining := by
  unfold extNext
  rw [if_neg (by rw [h]; decide), if_pos h]

theorem extNext_of_other {x : Place} (h : ¬ isExtension x.type = true) (h' : x.type ≠ 44) :
    extNext pkt x = none ∧ extNeeds x = 0 := by
  unfold extNext extNeeds
  rw [if_neg h, if_neg h', if_neg h, if_neg h']
  exact ⟨rfl, rfl⟩

theorem extNext_lt {x y : Place} (h : extNext pkt x = some y) : y.remaining < x.remaining := by
  unfold extNext at h
  split_ifs at h <;> have := after_sum h <;> omega

theorem guarded_extensions (prot fuel : Nat) (x : Place) (h : x.remaining < fuel) :
    Guarded .outOfRange (ExtCaptured pkt x)
      (ip6Extensions pkt.captured prot fuel x.offset x.type x.remaining)
      (ip6Extensions pkt.whole prot fuel x.offset x.type x.remaining) := by
  induction fuel generalizing x with
  | zero => omega
  | succ fuel ih =>
    -- the next header field is read before the loop goes on behind `len` bytes
    have next (len : Nat) (hlen : len ≤ x.remaining) (h8 : 8 ≤ len) :
        Guarded .outOfRange (x.offset < pkt.size ∧
            ExtCaptured pkt ⟨(pkt.bytes x.offset).toNat, x.offset + len, x.remaining - len⟩)
          (do
            let nxt ← byte pkt.captured x.offset
            ip6Extensions pkt.captured prot fuel (x.offset + len) nxt (x.remaining - len))
          (do
            let nxt ← byte pkt.whole x.offset
            ip6Extensions pkt.whole prot fuel (x.offset + len) nxt (x.remaining - len)) :=
      guarded_bind_ok (guarded_byte pkt x.offset) (byte_whole pkt x.offset)
        (ih ⟨_, _, _⟩ (by simp only; omega))
    simp only [ip6Extensions]
    by_cases hext : isExtension x.type = true
    · have hneeds : extNeeds x = 2 := if_pos hext
      have hnext := extNext_of_extension pkt hext
      simp only [if_pos hext]
      by_cases hlen : x.remaining < (pkt.bytes (x.offset + 1)).toNat * 8 + 8
      · rw [ExtCaptured, forall_reach_stop (hnext.trans (if_pos hlen)), hneeds]
        refine guarded_of_iff (guarded_bind_same (guarded_byte pkt (x.offset + 1)) rfl ?_) ?_
        · simp only [if_pos hlen]
        · simp only [Captured]
          omega
      · rw [ExtCaptured, forall_reach_step (hnext.trans (if_neg hlen)), hneeds]
        have hrest := next ((pkt.bytes (x.offset + 1)).toNat * 8 + 8) (by omega) (by omega)
        refine guarded_of_iff (guarded_bind_ok (guarded_byte pkt (x.offset + 1)) rfl
          (by simpa only [if_neg hlen] using hrest)) ?_
        rw [← and_assoc]
        refine and_congr_left fun _ => ?_
        simp only [Captured]
        omega
    · simp only [if_neg hext]
      by_cases hfragment : x.type = 44
      · have hne : x.type ≠ 50 := by omega
        have hnext := extNext_of_fragment pkt hfragment
        have hneeds : extNeeds x = if x.remaining < 8 then 0 else 1 := by
          rw [extNeeds, if_neg hext, if_pos hfragment]
        simp only [if_neg hne, if_pos hfragment]
        by_cases hlen : x.remaining < 8
        · rw [ExtCaptured, forall_reach_stop (hnext.trans (if_pos hlen)), hneeds, if_pos hlen]
          simp only [if_pos hlen]
          exact guarded_of_true rfl (.inl rfl)
        · rw [ExtCaptured, forall_reach_step (hnext.trans (if_neg hlen)), hneeds, if_neg hlen]
          simp only [if_neg hlen]
          refine guarded_of_iff (next 8 (by omega) (by omega)) (and_congr_left fun _ => ?_)
          simp only [Captured]
          omega
      · obtain ⟨hnext, hneeds⟩ := extNext_of_other pkt hext hfragment
        rw [ExtCaptured, forall_reach_stop hnext, hneeds]
        refine guarded_of_true ?_ (.inl rfl)
        by_cases hesp : x.type = 50 <;> simp only [hesp, hfragment] <;> rfl

theorem guarded_ip6 (p prot r : Nat) :
    Guarded .outOfRange (Ip6Captured pkt p r) (getPayloadFromIp6 pkt.captured p prot r)
      (getPayloadFromIp6 pkt.whole p prot r) := by
  unfold getPayloadFromIp6 Ip6Captured extStart after
  by_cases h : r < 40
  · simp only [if_pos h]
    refine guarded_of_iff (guarded_bind_same (guarded_byte pkt (p + 6)) rfl rfl) ?_
    rw [and_iff_left (by simp)]
    simp only [Captured]
    omega
  · simp only [if_neg h]
    refine guarded_of_iff (guarded_bind_ok (guarded_byte pkt (p + 6)) rfl
      (guarded_extensions pkt prot r ⟨_, p + 40, r - 40⟩ (by simp only; omega))) ?_
    simp only [Captured, Option.some.injEq, forall_eq']
    refine and_congr_left fun _ => ?_
    omega

theorem ip4_cases (p r : Nat) :
    (be pkt (p + 6) % 0x2000 ≠ 0 ∧ ip4Next pkt p r = none) ∨
    (be pkt (p + 6) % 0x2000 = 0 ∧ r < (pkt.bytes p).toNat % 16 * 4 ∧ ip4Next pkt p r = none) ∨
    (be pkt (p + 6) % 0x2000 = 0 ∧ ¬ r < (pkt.bytes p).toNat % 16 * 4 ∧
      ((pkt.bytes p).toNat / 16 = 4 → ip4Next pkt p r = some ⟨(pkt.bytes (p + 9)).toNat,
        p + (pkt.bytes p).toNat % 16 * 4, r - (pkt.bytes p).toNat % 16 * 4⟩)) := by
  unfold ip4Next after
  by_cases hoff : be pkt (p + 6) % 0x2000 = 0
  · by_cases hlen : r < (pkt.bytes p).toNat % 16 * 4
    · exact .inr (.inl ⟨hoff, hlen, by simp [hlen]⟩)
    · exact .inr (.inr ⟨hoff, hlen, fun hv => by rw [if_pos ⟨hv, hoff⟩, if_neg hlen]⟩)
  · exact .inl ⟨hoff, if_neg fun h => hoff h.2⟩

theorem finds_ip4 (p prot r : Nat) :
    Finds (ip4Next pkt p r = some ·) (getPayloadFromIp pkt.whole p prot r) := by
  simp only [getPayloadFromIp, byte_whole, be16_whole, bind, Except.bind]
  by_cases hversion : (pkt.bytes p).toNat / 16 = 4
  · simp only [hversion, ne_eq, not_true_eq_false, if_false]
    obtain ⟨hoff, hnext⟩ | ⟨hoff, hlen, hnext⟩ | ⟨hoff, hlen, hnext⟩ := ip4_cases pkt p r
    · simp only [hoff, not_false_eq_true, if_true]
      exact finds_none hnext rfl
    · simp only [hoff, not_true_eq_false, if_false, if_pos hlen]
      exact finds_none hnext rfl
    · simp only [hoff, not_true_eq_false, if_false, if_neg hlen]
      exact finds_some (hnext hversion) rfl
  · rw [if_pos hversion]
    exact finds_none (if_neg fun h => hversion h.1) rfl

theorem ip4Next_some {p r : Nat} {x : Place} (h : ip4Next pkt p r = some x) :
    x = ⟨(pkt.bytes (p + 9)).toNat, p + (pkt.bytes p).toNat % 16 * 4,
      r - (pkt.bytes p).toNat % 16 * 4⟩ := by
  unfold ip4Next at h
  split_ifs at h
  exact (after_some h).1

theorem extStart_some {p r : Nat} {x : Place} (h : extStart pkt p r = some x) :
    x = ⟨(pkt.bytes (p + 6)).toNat, p + 40, r - 40⟩ ∧ 40 ≤ r := after_some h

section

variable {type : Nat} (hip : type = ethertypeIp) (proto : Nat) {p r : Nat}
include hip

theorem findTransport_next {x : Place} (h : ip4Next pkt p r = some x) :
    findTransport pkt.whole p type proto r =
      if x.type = 41 then getPayloadFromIp6 pkt.whole x.offset 41 x.remaining else .ok x.found := by
  obtain ⟨y, hy, hok⟩ | ⟨hnone, -⟩ := finds_ip4 pkt p proto r
  · obtain rfl := Option.mem_unique h hy
    rw [findTransport, if_pos hip, hok, ok_bind]
    change (if x.type = 41 then getPayloadFromIp6 pkt.whole x.offset x.type x.remaining
      else Except.ok x.found) = _
    exact if_ctx_congr Iff.rfl (fun h41 => by rw [h41]) fun _ => rfl
  · exact absurd h (hnone x)

theorem findTransport_stops (h : ip4Next pkt p r = none) :
    ∃ type' r', findTransport pkt.whole p type proto r = .ok ⟨none, type', r'⟩ := by
  obtain ⟨y, hy, -⟩ | ⟨-, type', r', hok⟩ := finds_ip4 pkt p proto r
  · rw [h] at hy
    cases hy
  · refine ⟨type', r', ?_⟩
    rw [findTransport, if_pos hip, hok]
    rfl

end

theorem guarded_ip4 (p prot r : Nat) :
    Guarded .outOfRange (Captured pkt p (ip4Needs pkt p r)) (getPayloadFromIp pkt.captured p prot r)
      (getPayloadFromIp pkt.whole p prot r) := by
  unfold getPayloadFromIp ip4Needs
  by_cases hversion : (pkt.bytes p).toNat / 16 = 4
  · have hv : ¬ (pkt.bytes p).toNat / 16 ≠ 4 := not_not_intro hversion
    rw [if_neg hv]
    obtain ⟨hoff, hnext⟩ | ⟨hoff, hlen, hnext⟩ | ⟨hoff, hlen, hnext⟩ := ip4_cases pkt p r
    · refine guarded_of_iff (guarded_bind_ok (guarded_byte pkt p) rfl
        (g := p + 6 + 2 ≤ pkt.size) ?_) ?_
      · simp only [if_neg hv]
        refine guarded_bind_same (guarded_be16 pkt (p + 6)) (be16_whole pkt _) ?_
        simp only [if_pos hoff]
      · rw [hnext]
        change _ ↔ Captured pkt p 8
        simp only [Captured]
        omega
    · have hoff' : ¬ be pkt (p + 6) % 0x2000 ≠ 0 := not_not_intro hoff
      refine guarded_of_iff (guarded_bind_ok (guarded_byte pkt p) rfl
        (g := p + 6 + 2 ≤ pkt.size) ?_) ?_
      · simp only [if_neg hv]
        refine guarded_bind_same (guarded_be16 pkt (p + 6)) (be16_whole pkt _) ?_
        simp only [if_neg hoff', if_pos hlen]
      · rw [hnext]
        change _ ↔ Captured pkt p 8
        simp only [Captured]
        omega
    · have hoff' : ¬ be pkt (p + 6) % 0x2000 ≠ 0 := not_not_intro hoff
      refine guarded_of_iff (guarded_bind_ok (guarded_byte pkt p) rfl
        (g := p + 6 + 2 ≤ pkt.size ∧ p + 9 < pkt.size) ?_) ?_
      · simp only [if_neg hv]
        refine guarded_bind_ok (guarded_be16 pkt (p + 6)) (be16_whole pkt _) ?_
        simp only [if_neg hoff', if_neg hlen]
        exact guarded_bind_same (guarded_byte pkt (p + 9)) rfl rfl
      · rw [hnext hversion]
        change _ ↔ Captured pkt p 10
        simp only [Captured]
        omega
  · rw [if_pos hversion]
    refine guarded_of_iff (guarded_bind_same (guarded_byte pkt p) rfl ?_) ?_
    · simp only [if_pos hversion]
    · simp only [Captured]
      omega

theorem transportCaptured_of_ip4 {x y : Place} (hip : x.type = ethertypeIp)
    (hy : ip4Next pkt x.offset x.remaining = some y) :
    TransportCaptured pkt x ↔ Captured pkt x.offset (ip4Needs pkt x.offset x.remaining) ∧
      (y.type = 41 → Ip6Captured pkt y.offset y.remaining) := by
  have hstart : ip6Start pkt x = if y.type = 41 then some (y.offset, y.remaining) else none := by
    simp only [ip6Start, if_pos hip, hy]
  constructor
  · exact fun h => ⟨h.ip4 hip, fun h41 => h.ip6 _ _ (hstart.trans (if_pos h41))⟩
  · rintro ⟨hip4, hip6⟩
    refine ⟨fun _ => hip4, fun p r h => ?_⟩
    rw [hstart] at h
    split_ifs at h with h41
    obtain ⟨rfl, rfl⟩ := Prod.mk.inj (Option.some.inj h)
    exact hip6 h41

theorem guarded_transport (x : Place) (proto : Nat) :
    Guarded .outOfRange (TransportCaptured pkt x)
      (findTransport pkt.captured x.offset x.type proto x.remaining)
      (findTransport pkt.whole x.offset x.type proto x.remaining) := by
  unfold findTransport
  by_cases hip : x.type = ethertypeIp
  · simp only [if_pos hip]
    have hip4 := guarded_ip4 pkt x.offset proto x.remaining
    obtain ⟨y, hy, hok⟩ | ⟨hnone, type, r, hok⟩ := finds_ip4 pkt x.offset proto x.remaining
    · rw [transportCaptured_of_ip4 pkt hip hy]
      refine guarded_bind_ok hip4 hok ?_
      change Guarded _ _ (if y.type = 41 then _ else _) (if y.type = 41 then _ else _)
      by_cases h41 : y.type = 41
      · rw [if_pos h41, if_pos h41]
        exact guarded_of_iff (guarded_ip6 pkt y.offset y.type y.remaining)
          ⟨fun h _ => h, fun h => h h41⟩
      · rw [if_neg h41, if_neg h41]
        exact guarded_of_true rfl fun h => (h41 h).elim
    · refine guarded_of_iff (guarded_bind_same hip4 hok rfl) ?_
      have hnext : ip4Next pkt x.offset x.remaining = none :=
        Option.eq_none_iff_forall_ne_some.mpr hnone
      constructor
      · exact fun h => ⟨fun _ => h, by simp [ip6Start, hip, hnext]⟩
      · exact fun h => h.ip4 hip
  · simp only [if_neg hip]
    by_cases hip6 : x.type = ethertypeIpv6
    · simp only [if_pos hip6]
      refine guarded_of_iff (guarded_ip6 pkt x.offset proto x.remaining) ?_
      have hstart : ip6Start pkt x = some (x.offset, x.remaining) := by
        rw [ip6Start, if_neg hip, if_pos hip6]
      constructor
      · refine fun h => ⟨fun h' => (hip h').elim, fun p r hpr => ?_⟩
        obtain ⟨rfl, rfl⟩ := Prod.mk.inj (Option.mem_unique hstart hpr)
        exact h
      · exact fun h => h.ip6 _ _ hstart
    · simp only [if_neg hip6]
      exact guarded_of_true rfl ⟨fun h => (hip h).elim, by simp [ip6Start, hip, hip6]⟩

structure Complete (ethertype : Nat) : Prop where
  layer3 : Layer3Captured pkt ethertype
  transport : ∀ x, Layer3At pkt ethertype x → TransportCaptured pkt x

theorem guarded_transportOf (proto ethertype : Nat) :
    Guarded .outOfRange (Complete pkt ethertype) (transportOf pkt.captured pkt proto ethertype)
      (transportOf pkt.whole pkt proto ethertype) := by
  have hl3 := guarded_layer3 pkt ethertype
  obtain ⟨x, hx, hok⟩ | ⟨hnone, type, r, hok⟩ := finds_layer3 pkt ethertype
  · refine guarded_of_iff (guarded_bind_ok hl3 hok (guarded_transport pkt x proto)) ?_
    constructor
    · rintro ⟨h3, h4⟩
      exact ⟨h3, fun x' hx' => layer3At_unique hx hx' ▸ h4⟩
    · exact fun h => ⟨h.layer3, h.transport x hx⟩
  · refine guarded_of_iff (guarded_bind_same hl3 hok rfl) ?_
    exact ⟨fun h => ⟨h, fun x hx => (hnone x hx).elim⟩, Complete.layer3⟩

theorem layer3_returns (ethertype : Nat) : ∃ f, layer3Of pkt.whole pkt ethertype = .ok f := by
  obtain ⟨x, -, hok⟩ | ⟨-, type, r, hok⟩ := finds_layer3 pkt ethertype
  · exact ⟨_, hok⟩
  · exact ⟨_, hok⟩

theorem getLayer3_uncachedAll (e : Nat) {c : Caches} (h2 : c.l2Header = none)
    (hl : c.linkType = .legacy) (h3 : c.l3Header = none) (h4 : c.l4Header = none) :
    ∃ f c', getLayer3 pkt.whole pkt e c = .ok (f, c') ∧ layer3Of pkt.whole pkt e = .ok f ∧
      c'.l4Header = none ∧ (c'.l2Header = none → c'.linkType = pkt.linkType) ∧
      (f.ptr.isSome = true → ⟨c'.l3Header, c'.l3Ethertype, c'.l3Remaining⟩ = f) ∧
      c'.payloadLength = c.payloadLength := by
  obtain ⟨f, hf⟩ := layer3_returns pkt e
  obtain ⟨link, hlink, hfind⟩ := except_bind_ok.mp hf
  have hrun := getLayer3_uncached pkt.whole pkt e h3
  rw [getLayer2_uncached pkt.whole pkt h2 (.inl hl), hlink] at hrun
  change _ = (findLayer3 pkt.whole link e >>= fun found => _) at hrun
  rw [hfind] at hrun
  refine ⟨f, _, hrun, hf, ?_⟩
  unfold Caches.storeL3 Caches.storeL2
  split_ifs with hf3 hf2 hf2 <;> simp [h2, h4, hf3]

theorem getLayer3_first (e : Nat) :
    ∃ f c, getLayer3 pkt.whole pkt e clearCache = .ok (f, c) ∧ layer3Of pkt.whole pkt e = .ok f ∧
      c.l4Header = none ∧ (c.l2Header = none → c.linkType = pkt.linkType) ∧
      (f.ptr.isSome = true → ⟨c.l3Header, c.l3Ethertype, c.l3Remaining⟩ = f) := by
  obtain ⟨f, c, hrun, hf, h4, hl, h3, -⟩ := getLayer3_uncachedAll pkt e (c := clearCache) rfl rfl
    rfl rfl
  exact ⟨f, c, hrun, hf, h4, hl, h3⟩

theorem transport_returns (proto ethertype : Nat) :
    ∃ f, transportOf pkt.whole pkt proto ethertype = .ok f := by
  obtain ⟨⟨ptr, type, r⟩, hok⟩ := layer3_returns pkt ethertype
  rw [transportOf, hok]
  cases ptr with
  | none => exact ⟨_, rfl⟩
  | some p =>
    obtain ⟨f, hf, -⟩ := findTransport_bounded pkt p type proto r
    exact ⟨f, hf⟩

end

/-- Only captured bytes are read, by either accessor on cleared caches, exactly if each header that
they reach is captured as far as they read it. -/
theorem reads_captured_iff (pkt : Packet) (proto ethertype : Nat) :
    ((getLayer3 pkt.captured pkt ethertype).run' clearCache ≠ .error .outOfRange ∧
        (getTransport pkt.captured pkt proto ethertype).run' clearCache ≠ .error .outOfRange ↔
      Complete pkt ethertype) ∧
    (Complete pkt ethertype →
      (∃ f, (getLayer3 pkt.captured pkt ethertype).run' clearCache = .ok f) ∧
        ∃ f, (getTransport pkt.captured pkt proto ethertype).run' clearCache = .ok f) := by
  rw [layer3_fresh, transport_fresh]
  have returns (h : Complete pkt ethertype) :
      (∃ f, layer3Of pkt.captured pkt ethertype = .ok f) ∧
        ∃ f, transportOf pkt.captured pkt proto ethertype = .ok f := by
    rw [(guarded_layer3 pkt ethertype).1 h.layer3, (guarded_transportOf pkt proto ethertype).1 h]
    exact ⟨layer3_returns pkt ethertype, transport_returns pkt proto ethertype⟩
  refine ⟨⟨fun h => ?_, fun h => ?_⟩, returns⟩
  · by_contra hc
    exact h.2 ((guarded_transportOf pkt proto ethertype).2 hc)
  · obtain ⟨⟨f, hf⟩, f', hf'⟩ := returns h
    rw [hf, hf']
    exact ⟨by simp, by simp⟩

def cutPacket : Packet where
  bytes i := if i = 12 then 0x88 else if i = 13 then 0x47 else 0
  linkType := .eth
  captureLength := 16
  wireLength := 64
  captureLength_lt := by decide
  wireLength_lt := by decide

/-- The bottom-of-stack bit is read behind the end. -/
theorem cutPacket_outOfRange :
    cutPacket.size = 16 ∧
      (getLayer3 cutPacket.captured cutPacket 0).run' clearCache = .error .outOfRange := by
  decide +kernel

end Libtrace.ReadBounds
