import Libtrace.ExtensionWalk
import Libtrace.FlowHash

/-! `trace_get_fragment_offset` and the port accessors that ask it first. For IPv6 its loop takes
the IPv6 header to be where the extension headers are, and the other way round. -/

namespace Libtrace.FragmentOffset
open Exec Orbit Protocols PacketAccess PacketDecode PacketLayout HeaderChain RegionBounds ReadBounds
  FlowHash

/-- The offset and `*more`. `payload` stays at the IPv6 header. -/
def ip6Fragment (m : Memory) (payload : Nat) : Nat → Nat → Nat → Decode (Nat × Nat)
  | 0, _, _ => .error .unfinished
  | fuel + 1, nxt, remaining =>
    if isExtension nxt then do
      let len ← byte m (payload + 1)
      let len := len * 8 + 8
      if remaining < len then return (0, 0)
      let nxt ← byte m payload
      ip6Fragment m payload fuel nxt (remaining - len)
    else if nxt = 44 then
      if remaining < 8 then .ok (0, 0)
      else do
        let offset ← be16 m (payload + 2)
        return (offset / 8 * 8, offset % 2)
    else .ok (0, 0)

/-- The pointer to the IPv6 header is moved on before its next header field is read. -/
def findFragment (m : Memory) (l3 : Found Nat) : Decode (Nat × Nat) :=
  match l3.ptr with
  | none => .ok (0, 0)
  | some p =>
    if l3.type = ethertypeIp then
      if l3.remaining < 8 then .ok (0, 0)
      else do
        let offset ← be16 m (p + 6)
        return (offset % 0x2000 * 8, offset / 0x2000 % 2)
    else if l3.type = ethertypeIpv6 then do
      let nxt ← byte m (p + 40 + 6)
      if l3.remaining < 40 then return (0, 0)
      ip6Fragment m p l3.remaining nxt (l3.remaining - 40)
    else .ok (0, 0)

def getFragmentOffset (m : Memory) (pkt : Packet) (ethertype : Nat) : Access (Nat × Nat) := do
  let l3 ← getLayer3 m pkt ethertype
  (findFragment m l3 : Decode (Nat × Nat))

def portIn (m : Memory) (size : Nat) (port : Found Nat) : Decode Nat :=
  if port.remaining < size then .ok 0
  else if port.type = 1 ∨ port.type = 58 then .ok 0
  else match port.ptr with
    | some q => be16 m (q + size - 2)
    | none => .ok 0

/-- `ethertype` and `inner` are the local variables of the two callees. -/
def getPort (size : Nat) (m : Memory) (pkt : Packet) (ethertype inner proto : Nat) :
    Access Nat := do
  let fragment ← getFragmentOffset m pkt ethertype
  if fragment.1 ≠ 0 then return 0
  let port ← getTransport m pkt proto inner
  (portIn m size port : Decode Nat)

def getSourcePort : Memory → Packet → Nat → Nat → Nat → Access Nat := getPort 2

def getDestinationPort : Memory → Packet → Nat → Nat → Nat → Access Nat := getPort 4

section

variable (pkt : Packet)

def hopNext (x : Place) : Option Place := if x.type = 44 then none else extNext pkt x

def FirstFragment (x y : Place) : Prop :=
  ∃ start, extStart pkt x.offset x.remaining = some start ∧ Reach (hopNext pkt) start y ∧
    y.type = 44 ∧ 8 ≤ y.remaining

/-- The offset of a fragment and whether more follow, and 0 and 0 without a fragment header. -/
def FragmentIs (x : Place) (v : Nat × Nat) : Prop :=
  (∃ y, FirstFragment pkt x y ∧ v = (be pkt (y.offset + 2) / 8 * 8, be pkt (y.offset + 2) % 2)) ∨
    (∀ y, ¬ FirstFragment pkt x y) ∧ v = (0, 0)

/-- The offset is what the first fragment header says, and the source port is 0 for a fragment that
is not the first and else that of the transport header. -/
structure FragmentsAgree (ethertype inner proto : Nat) (x : Place) : Prop where
  info : ∀ v, FragmentIs pkt x v →
    (getFragmentOffset pkt.whole pkt ethertype).run' clearCache = .ok v
  port : ∀ v, FragmentIs pkt x v →
    (getSourcePort pkt.whole pkt ethertype inner proto).run' clearCache =
      if v.1 ≠ 0 then .ok 0 else transportOf pkt.whole pkt proto ethertype >>= portIn pkt.whole 2

/-- The seventh byte behind the IPv6 header is the number of the fragment header. -/
def Misplaced (x : Place) : Prop :=
  48 ≤ x.remaining ∧ (pkt.bytes (x.offset + 40 + 6)).toNat = 44

instance (x : Place) : Decidable (Misplaced pkt x) := inferInstanceAs (Decidable (_ ∧ _))

/-- The two bytes that are taken for the offset of a fragment are in the flow label. -/
def flowLabel (x : Place) : Nat × Nat :=
  if Misplaced pkt x then (be pkt (x.offset + 2) / 8 * 8, be pkt (x.offset + 2) % 2) else (0, 0)

end

section

variable {pkt : Packet} {x : Place}

theorem hopNext_fragment {y : Place} (h : y.type = 44) : hopNext pkt y = none := if_pos h

theorem firstFragment_unique {y z : Place} (hy : FirstFragment pkt x y)
    (hz : FirstFragment pkt x z) : y = z := by
  obtain ⟨start, hstart, hreach, htype, -⟩ := hy
  obtain ⟨start', hstart', hreach', htype', -⟩ := hz
  obtain rfl := Option.mem_unique hstart hstart'
  exact reach_end_unique hreach hreach' (hopNext_fragment htype) (hopNext_fragment htype')

theorem fragmentIs_unique {v w : Nat × Nat} (hv : FragmentIs pkt x v) (hw : FragmentIs pkt x w) :
    v = w := by
  obtain ⟨y, hy, rfl⟩ | ⟨hnone, rfl⟩ := hv
  · obtain ⟨z, hz, rfl⟩ | ⟨hnone, -⟩ := hw
    · rw [firstFragment_unique hy hz]
    · exact (hnone y hy).elim
  · obtain ⟨z, hz, -⟩ | ⟨-, rfl⟩ := hw
    · exact (hnone z hz).elim
    · rfl

theorem fragmentIs_exists (pkt : Packet) (x : Place) : ∃ v, FragmentIs pkt x v := by
  by_cases h : ∃ y, FirstFragment pkt x y
  · obtain ⟨y, hy⟩ := h
    exact ⟨_, .inl ⟨y, hy, rfl⟩⟩
  · exact ⟨_, .inr ⟨not_exists.mp h, rfl⟩⟩

theorem version_not_chained {b : UInt8} (h : b.toNat / 16 = 6) :
    isExtension b.toNat = false ∧ b.toNat ≠ 44 := by
  refine ⟨?_, by omega⟩
  unfold isExtension
  simp only [Bool.or_eq_false_iff, decide_eq_false_iff_not]
  omega

theorem ip6Fragment_eq {p : Nat} (h6 : (pkt.bytes p).toNat / 16 = 6) (fuel nxt r : Nat) :
    ip6Fragment pkt.whole p (fuel + 2) nxt r =
      .ok (if nxt = 44 ∧ 8 ≤ r then (be pkt (p + 2) / 8 * 8, be pkt (p + 2) % 2) else (0, 0)) := by
  obtain ⟨hext6, h44⟩ := version_not_chained h6
  rw [ip6Fragment]
  by_cases hext : isExtension nxt = true
  · have hne : ¬ (nxt = 44 ∧ 8 ≤ r) := fun h => by rw [h.1] at hext; cases hext
    simp only [if_pos hext, byte_whole, bind, Except.bind, if_neg hne]
    split_ifs
    · rfl
    · simp [ip6Fragment, hext6, h44]
  · rw [if_neg hext]
    by_cases hfragment : nxt = 44
    · rw [if_pos hfragment]
      by_cases hshort : r < 8
      · rw [if_pos hshort, if_neg (by omega)]
      · rw [if_neg hshort, if_pos ⟨hfragment, by omega⟩, be16_whole]
        rfl
    · rw [if_neg hfragment, if_neg fun h => hfragment h.1]

theorem findFragment_ip6 (hip6 : x.type = ethertypeIpv6)
    (h6 : (pkt.bytes x.offset).toNat / 16 = 6) :
    findFragment pkt.whole x.found = .ok (flowLabel pkt x) := by
  have hne : ¬ ethertypeIpv6 = ethertypeIp := by decide
  simp only [findFragment, Place.found, hip6, if_neg hne, if_true, byte_whole, bind, Except.bind]
  by_cases hshort : x.remaining < 40
  · rw [if_pos hshort, flowLabel, if_neg fun h => by have := h.1; omega]
    rfl
  · obtain ⟨fuel, hfuel⟩ : ∃ k, x.remaining = k + 2 := ⟨x.remaining - 2, by omega⟩
    rw [if_neg hshort]
    rw [hfuel, ip6Fragment_eq h6, ← hfuel, flowLabel]
    refine congrArg Except.ok (if_congr ?_ rfl rfl)
    unfold Misplaced
    omega

theorem getFragmentOffset_fresh {e : Nat} (hx : Layer3At pkt e x) :
    (getFragmentOffset pkt.whole pkt e).run' clearCache = findFragment pkt.whole x.found := by
  obtain ⟨l3, c, hrun, hl3, -⟩ := getLayer3_first pkt e
  obtain ⟨y, hy, hok⟩ | ⟨hnone, -⟩ := finds_layer3 pkt e
  · obtain rfl := layer3At_unique hx hy
    obtain rfl := ok_unique hl3 hok
    rw [run'_eq, getFragmentOffset, bind_of_ok hrun]
    cases findFragment pkt.whole x.found <;> rfl
  · exact (hnone x hx).elim

theorem getPort_fresh (size : Nat) {e : Nat} (inner proto : Nat) (hx : Layer3At pkt e x)
    {v : Nat × Nat} (hv : findFragment pkt.whole x.found = .ok v) :
    (getPort size pkt.whole pkt e inner proto).run' clearCache =
      if v.1 ≠ 0 then .ok 0
      else transportOf pkt.whole pkt proto e >>= portIn pkt.whole size := by
  obtain ⟨l3, c, hrun, hl3, h4, -, h3⟩ := getLayer3_first pkt e
  obtain ⟨y, hy, hok⟩ | ⟨hnone, -⟩ := finds_layer3 pkt e
  · obtain rfl := layer3At_unique hx hy
    obtain rfl := ok_unique hl3 hok
    have hfragment : getFragmentOffset pkt.whole pkt e clearCache = .ok (v, c) := by
      rw [getFragmentOffset, bind_of_ok hrun, hv]
      rfl
    obtain ⟨f, hf, -⟩ := findTransport_bounded pkt x.offset x.type proto x.remaining
    have hrun' := getTransport_cached3 pkt proto inner h4 (h3 rfl) hf
    have htransport : transportOf pkt.whole pkt proto e = .ok f := by
      rw [transportOf, hok]
      exact hf
    rw [run'_eq, getPort, bind_of_ok hfragment, htransport]
    by_cases hoff : v.1 ≠ 0
    · rw [if_pos hoff, if_pos hoff]
      rfl
    · rw [if_neg hoff, if_neg hoff, bind_of_ok hrun', ok_bind]
      cases portIn pkt.whole size f <;> rfl
  · exact (hnone x hx).elim

end

/-- The fragment offset of an IPv6 packet is right exactly if it is what the flow label says where
the seventh byte behind the IPv6 header is 44, and 0 elsewhere. -/
theorem fragmentsAgree_iff (pkt : Packet) (ethertype inner proto : Nat) {x : Place}
    (hx : Layer3At pkt ethertype x) (hip6 : x.type = ethertypeIpv6)
    (h6 : (pkt.bytes x.offset).toNat / 16 = 6) :
    FragmentsAgree pkt ethertype inner proto x ↔ FragmentIs pkt x (flowLabel pkt x) := by
  have hfind := findFragment_ip6 hip6 h6
  have hinfo := (getFragmentOffset_fresh hx).trans hfind
  constructor
  · intro h
    obtain ⟨v, hv⟩ := fragmentIs_exists pkt x
    rwa [Except.ok.inj (hinfo.symm.trans (h.info v hv))]
  · intro h
    refine ⟨fun v hv => ?_, fun v hv => ?_⟩
    · rw [hinfo, fragmentIs_unique h hv]
    · rw [← fragmentIs_unique h hv]
      exact getPort_fresh 2 inner proto hx hfind

def udpPacket : Packet where
  bytes i := if i = 12 then 0x86 else if i = 13 then 0xdd else if i = 14 then 0x60
    else if i = 19 then 8 else if i = 20 then 17 else if i = 55 then 53 else 0
  linkType := .eth
  captureLength := 62
  wireLength := 66
  captureLength_lt := by decide
  wireLength_lt := by decide

theorem udpPacket_layer3 : Layer3At udpPacket 0 ⟨ethertypeIpv6, 14, 48⟩ :=
  ⟨⟨ethertypeIpv6, 14, 48⟩, by decide +kernel, reach_refl _, by unfold isLayer3; decide⟩

theorem udpPacket_noFragment (y : Place) : ¬ FirstFragment udpPacket ⟨ethertypeIpv6, 14, 48⟩ y := by
  rintro ⟨start, hstart, hreach, htype, -⟩
  obtain rfl := Option.some.inj (hstart.symm.trans
    (by decide +kernel : _ = some (⟨17, 54, 8⟩ : Place)))
  rw [reach_stop (by decide +kernel) hreach] at htype
  cases htype

theorem udpPacket_agrees : FragmentsAgree udpPacket 0 0 0 ⟨ethertypeIpv6, 14, 48⟩ :=
  (fragmentsAgree_iff udpPacket 0 0 0 udpPacket_layer3 rfl (by decide)).mpr
    (.inr ⟨udpPacket_noFragment, by decide +kernel⟩)

def fragmentPacket : Packet where
  bytes i := if i = 12 then 0x86 else if i = 13 then 0xdd else if i = 14 then 0x60
    else if i = 19 then 16 else if i = 20 then 44 else if i = 54 then 17
    else if i = 56 then 0x05 else if i = 57 then 0xc8 else if i = 62 then 0x12
    else if i = 63 then 0x34 else 0
  linkType := .eth
  captureLength := 70
  wireLength := 74
  captureLength_lt := by decide
  wireLength_lt := by decide

/-- It is taken for a whole packet, and its payload for the ports. -/
theorem fragmentPacket_misread :
    FragmentIs fragmentPacket ⟨ethertypeIpv6, 14, 56⟩ (1480, 0) ∧
      (getFragmentOffset fragmentPacket.whole fragmentPacket 0).run' clearCache = .ok (0, 0) ∧
      (getSourcePort fragmentPacket.whole fragmentPacket 0 0 0).run' clearCache = .ok 0x1234 ∧
      ¬ FragmentsAgree fragmentPacket 0 0 0 ⟨ethertypeIpv6, 14, 56⟩ := by
  have hfragment : FragmentIs fragmentPacket ⟨ethertypeIpv6, 14, 56⟩ (1480, 0) :=
    .inl ⟨⟨44, 54, 16⟩, ⟨⟨44, 54, 16⟩, by decide +kernel, reach_refl _, rfl, by decide⟩,
      by decide +kernel⟩
  have hrun : (getFragmentOffset fragmentPacket.whole fragmentPacket 0).run' clearCache =
      .ok (0, 0) := by decide +kernel
  refine ⟨hfragment, hrun, by decide +kernel, fun h => ?_⟩
  have heq := hrun.symm.trans (h.info _ hfragment)
  revert heq
  decide

end Libtrace.FragmentOffset
