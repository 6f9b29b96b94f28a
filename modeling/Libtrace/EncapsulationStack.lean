import Libtrace.ByteOrder
import Libtrace.FlowHash

/-! The headers between an Ethernet header and an IP packet, as a grammar, and whether
`trace_get_layer3` gets through them. -/

namespace Libtrace.EncapsulationStack
open Exec Orbit ByteOrder Protocols PacketAccess PacketDecode PacketLayout HeaderChain FlowHash

structure IpPacket where
  six : Bool
  low : Fin 16
  rest : List UInt8

structure Label where
  tag : Fin (2 ^ 23)
  ttl : UInt8

structure Addresses where
  bytes : Fin 12 → UInt8
  no_version : (bytes 0).toNat / 16 ≠ 4 ∧ (bytes 0).toNat / 16 ≠ 6

inductive Stack where
  | ip (packet : IpPacket)
  | vlan (tci : UInt16) (next : Stack)
  /-- A label stack, the last label apart, that carries an IP packet. -/
  | mpls (labels : List Label) (last : Label) (packet : IpPacket)
  | vpls (labels : List Label) (last : Label) (addresses : Addresses) (next : Stack)
  | pppoe (header : Fin 6 → UInt8) (low : Fin 16) (rest : List UInt8)

section

def IpPacket.type (p : IpPacket) : Nat := if p.six then ethertypeIpv6 else ethertypeIp

def IpPacket.first (p : IpPacket) : UInt8 := UInt8.ofNat ((if p.six then 0x60 else 0x40) + p.low)

def IpPacket.encode (p : IpPacket) : List UInt8 := p.first :: p.rest

def Label.encode (l : Label) (bottom : Nat) : List UInt8 :=
  beBytes 3 (2 * l.tag + bottom) ++ [l.ttl]

def encodeLabels (labels : List Label) (last : Label) : List UInt8 :=
  labels.flatMap (·.encode 0) ++ last.encode 1

def Stack.type : Stack → Nat
  | ip packet => packet.type
  | vlan _ _ => ethertype8021q
  | mpls _ _ _ => ethertypeMpls
  | vpls _ _ _ _ => ethertypeMpls
  | pppoe _ _ _ => ethertypePppSes

def Stack.encode : Stack → List UInt8
  | ip packet => packet.encode
  | vlan tci next => beBytes 2 tci.toNat ++ beBytes 2 next.type ++ next.encode
  | mpls labels last packet => encodeLabels labels last ++ packet.encode
  | vpls labels last addresses next =>
    encodeLabels labels last ++ List.ofFn addresses.bytes ++ beBytes 2 next.type ++ next.encode
  | pppoe header low rest =>
    List.ofFn header ++ [0x00, 0x21] ++ IpPacket.encode ⟨false, low, rest⟩

def Stack.ipType : Stack → Nat
  | ip packet => packet.type
  | vlan _ next => next.ipType
  | mpls _ _ packet => packet.type
  | vpls _ _ _ next => next.ipType
  | pppoe _ _ _ => ethertypeIp

def Stack.ipOffset : Stack → Nat
  | ip _ => 0
  | vlan _ next => 4 + next.ipOffset
  | mpls labels _ _ => 4 * (labels.length + 1)
  | vpls labels _ _ next => 4 * (labels.length + 1) + 14 + next.ipOffset
  | pppoe _ _ _ => 8

def Stack.hasVpls : Stack → Bool
  | vlan _ next => next.hasVpls
  | vpls _ _ _ _ => true
  | _ => false

end

/-- The packet is a captured Ethernet frame with the stack for its payload. -/
structure Carries (pkt : Packet) (s : Stack) : Prop where
  ethernet : pkt.linkType = .eth
  captured : pkt.size = 14 + s.encode.length
  type : be pkt 12 = s.type
  payload : bytesAt pkt 14 s.encode.length = s.encode

def FindsIp (pkt : Packet) (ethertype : Nat) (s : Stack) : Prop :=
  (getLayer3 pkt.whole pkt ethertype).run' clearCache =
    .ok ⟨some (14 + s.ipOffset), s.ipType, pkt.size - (14 + s.ipOffset)⟩

section

@[simp] theorem IpPacket.length_encode (p : IpPacket) : p.encode.length = p.rest.length + 1 := rfl

@[simp] theorem Label.length_encode (l : Label) (bottom : Nat) : (l.encode bottom).length = 4 := by
  simp [Label.encode]

@[simp] theorem length_encodeLabels (labels : List Label) (last : Label) :
    (encodeLabels labels last).length = 4 * (labels.length + 1) := by
  have hlabels : (labels.flatMap (·.encode 0)).length = 4 * labels.length := by
    induction labels with
    | nil => rfl
    | cons l labels ih =>
      rw [List.flatMap_cons, List.length_append, ih, Label.length_encode, List.length_cons]
      omega
  rw [encodeLabels, List.length_append, hlabels, Label.length_encode, Nat.mul_add]

theorem Stack.ipOffset_lt (s : Stack) : s.ipOffset < s.encode.length := by
  induction s with
  | ip packet => simp [ipOffset, encode]
  | vlan tci next ih =>
    simp only [ipOffset, encode, List.length_append, length_beBytes]
    omega
  | mpls labels last packet => simp [ipOffset, encode]
  | vpls labels last addresses next ih =>
    simp only [ipOffset, encode, List.length_append, length_beBytes, length_encodeLabels,
      List.length_ofFn]
    omega
  | pppoe header low rest => simp [ipOffset, encode]

end

section

def Agrees (pkt : Packet) (p : Nat) (bytes : List UInt8) : Prop :=
  bytesAt pkt p bytes.length = bytes

variable {pkt : Packet} {p : Nat}

theorem agrees_append {before after : List UInt8} (h : Agrees pkt p (before ++ after)) :
    Agrees pkt p before ∧ Agrees pkt (p + before.length) after := by
  rw [Agrees, List.length_append, bytesAt_add] at h
  exact List.append_inj h (by simp)

theorem agrees_cons {b : UInt8} {bytes : List UInt8} (h : Agrees pkt p (b :: bytes)) :
    pkt.bytes p = b ∧ Agrees pkt (p + 1) bytes := by
  obtain ⟨hfirst, hrest⟩ := agrees_append (show Agrees pkt p ([b] ++ bytes) from h)
  exact ⟨List.head_eq_of_cons_eq hfirst, hrest⟩

theorem be_of_agrees {v : Nat} (hv : v < 65536) (h : Agrees pkt p (beBytes 2 v)) :
    be pkt p = v := by
  have hbytes : Agrees pkt p [UInt8.ofNat (v / 256), UInt8.ofNat v] := h
  obtain ⟨hhigh, hrest⟩ := agrees_cons hbytes
  obtain ⟨hlow, -⟩ := agrees_cons hrest
  rw [be, hhigh, hlow, UInt8.toNat_ofNat', UInt8.toNat_ofNat']
  omega

theorem Stack.type_lt (s : Stack) : s.type < 65536 := by
  cases s with
  | ip packet =>
    simp only [type, IpPacket.type]
    split_ifs <;> decide
  | vlan | mpls | vpls | pppoe => simp only [type]; decide

end

section

variable {pkt : Packet} {p : Nat}

def Stack.stop : Stack → Nat × Nat
  | ip packet => (packet.type, 0)
  | vlan _ next => (next.stop.1, 4 + next.stop.2)
  | mpls labels _ packet => (packet.type, 4 * (labels.length + 1))
  | vpls labels _ _ _ => (0, 4 * (labels.length + 1))
  | pppoe _ _ _ => (ethertypeIp, 8)

theorem IpPacket.versionType_first (packet : IpPacket) (other : Nat) :
    versionType packet.first other = packet.type := by
  unfold versionType first type
  rw [UInt8.toNat_ofNat']
  cases packet.six
  · simp only [Bool.false_eq_true, if_false]
    rw [if_pos (by omega)]
  · simp only [if_true]
    rw [if_neg (by omega), if_pos (by omega)]

theorem Label.bytes_of_agrees {l : Label} {bottom : Nat} (hb : bottom < 2)
    (h : Agrees pkt p (l.encode bottom)) : (pkt.bytes (p + 2)).toNat % 2 = bottom := by
  have hthird := (agrees_cons (agrees_cons (agrees_cons h).2).2).1
  rw [hthird, UInt8.toNat_ofNat']
  omega

theorem stackNext_vlan (pkt : Packet) (p r : Nat) :
    stackNext pkt ⟨ethertype8021q, p, r⟩ = vlanNext pkt p r := by
  rw [stackNext, if_pos rfl]

theorem stackNext_mpls (pkt : Packet) (p r : Nat) :
    stackNext pkt ⟨ethertypeMpls, p, r⟩ = mplsNext pkt p r := by
  rw [stackNext, if_neg (show ethertypeMpls ≠ ethertype8021q by decide), if_pos rfl]

theorem stackNext_pppoe (pkt : Packet) (p r : Nat) :
    stackNext pkt ⟨ethertypePppSes, p, r⟩ = pppoeNext pkt p r := by
  rw [stackNext, if_neg (show ethertypePppSes ≠ ethertype8021q by decide),
    if_neg (show ethertypePppSes ≠ ethertypeMpls by decide), if_pos rfl]

theorem reach_labels (labels : List Label) (last : Label) (b : UInt8) (rest : List UInt8)
    (h : Agrees pkt p (encodeLabels labels last ++ b :: rest)) :
    Reach (stackNext pkt) ⟨ethertypeMpls, p, 4 * (labels.length + 1) + (rest.length + 1)⟩
      ⟨versionType b 0, p + 4 * (labels.length + 1), rest.length + 1⟩ := by
  induction labels generalizing p with
  | nil =>
    obtain ⟨hlast, hrest⟩ := agrees_append h
    have hbottom := Label.bytes_of_agrees (by decide) hlast
    have hb : pkt.bytes (p + 4) = b := (agrees_cons hrest).1
    refine reach_head ?_ (reach_refl _)
    rw [stackNext_mpls, mplsNext, hb, if_neg (by simp; omega), after,
      if_neg (by simp), List.length_nil, Nat.add_sub_cancel_left]
  | cons l labels ih =>
    rw [encodeLabels, List.flatMap_cons, List.append_assoc, List.append_assoc] at h
    obtain ⟨hfirst, hrest⟩ := agrees_append h
    rw [← List.append_assoc] at hrest
    have hmiddle := Label.bytes_of_agrees (by decide) hfirst
    have hreach := ih hrest
    rw [Label.length_encode] at hreach
    have hplace : p + 4 + 4 * (labels.length + 1) = p + 4 * ((l :: labels).length + 1) := by
      rw [List.length_cons]
      omega
    rw [hplace] at hreach
    refine reach_head ?_ hreach
    rw [stackNext_mpls, mplsNext, if_pos (.inl hmiddle), after,
      if_neg (by rw [List.length_cons]; omega), List.length_cons]
    congr 2
    omega

theorem Addresses.versionType_first (a : Addresses) (other : Nat) :
    versionType (a.bytes 0) other = other := by
  rw [versionType, if_neg a.no_version.1, if_neg a.no_version.2]

theorem reach_stopPlace (s : Stack) (h : Agrees pkt p s.encode) :
    Reach (stackNext pkt) ⟨s.type, p, s.encode.length⟩
      ⟨s.stop.1, p + s.stop.2, s.encode.length - s.stop.2⟩ := by
  induction s generalizing p with
  | ip packet => exact reach_refl _
  | vlan tci next ih =>
    obtain ⟨hheader, hnext⟩ := agrees_append h
    have htype := be_of_agrees next.type_lt (agrees_append hheader).2
    have hreach := ih hnext
    have hlength : (Stack.vlan tci next).encode.length = 4 + next.encode.length := by
      simp [Stack.encode]
      omega
    simp only [List.length_append, length_beBytes] at htype hreach
    refine reach_head (y := ⟨next.type, p + 4, next.encode.length⟩) ?_ ?_
    · rw [Stack.type, stackNext_vlan, vlanNext, htype, hlength, after, if_neg (by omega),
        Nat.add_sub_cancel_left]
    · rw [hlength, Stack.stop, ← Nat.add_assoc, Nat.add_sub_add_left]
      exact hreach
  | mpls labels last packet =>
    have hreach := reach_labels labels last packet.first packet.rest h
    have hlength : (Stack.mpls labels last packet).encode.length =
        4 * (labels.length + 1) + (packet.rest.length + 1) := by simp [Stack.encode]
    rw [packet.versionType_first] at hreach
    rw [hlength, Stack.stop, Nat.add_sub_cancel_left]
    exact hreach
  | vpls labels last addresses next =>
    rw [Stack.encode, List.append_assoc, List.append_assoc, List.ofFn_succ, List.cons_append] at h
    have hreach := reach_labels labels last _ _ h
    have hlength : (Stack.vpls labels last addresses next).encode.length =
        4 * (labels.length + 1) + (13 + next.encode.length + 1) := by
      simp [Stack.encode]
      omega
    rw [addresses.versionType_first] at hreach
    rw [hlength, Stack.stop, Nat.add_sub_cancel_left]
    simp only [List.length_append, List.length_ofFn, length_beBytes] at hreach
    rw [show 11 + (2 + next.encode.length) + 1 = 13 + next.encode.length + 1 by omega] at hreach
    exact hreach
  | pppoe header low rest =>
    obtain ⟨hheader, -⟩ := agrees_append h
    have hproto := be_of_agrees (v := 0x21) (by decide) (agrees_append hheader).2
    have hlength : (Stack.pppoe header low rest).encode.length = 8 + (rest.length + 1) := by
      simp [Stack.encode]
      omega
    rw [List.length_ofFn] at hproto
    refine reach_head ?_ (reach_refl _)
    rw [hlength, Stack.type, stackNext_pppoe, pppoeNext, hproto, after, if_neg (by omega)]
    rfl

theorem Stack.stop_le (s : Stack) : s.stop.2 ≤ s.ipOffset := by
  induction s with
  | ip packet => exact Nat.le_refl 0
  | vlan tci next ih => exact Nat.add_le_add_left ih 4
  | mpls labels last packet => exact Nat.le_refl _
  | vpls labels last addresses next =>
    simp only [stop, ipOffset]
    omega
  | pppoe header low rest => exact Nat.le_refl 8

theorem IpPacket.type_cases (packet : IpPacket) :
    packet.type = ethertypeIp ∨ packet.type = ethertypeIpv6 := by
  unfold type
  split_ifs <;> simp

theorem Stack.ipType_cases (s : Stack) : s.ipType = ethertypeIp ∨ s.ipType = ethertypeIpv6 := by
  induction s with
  | ip packet => exact packet.type_cases
  | vlan tci next ih => exact ih
  | mpls labels last packet => exact packet.type_cases
  | vpls labels last addresses next ih => exact ih
  | pppoe header low rest => exact .inl rfl

theorem Stack.stop_cases (s : Stack) :
    s.stop.1 = ethertypeIp ∨ s.stop.1 = ethertypeIpv6 ∨ s.stop.1 = 0 := by
  induction s with
  | ip packet =>
    have := packet.type_cases
    exact this.imp_right .inl
  | vlan tci next ih => exact ih
  | mpls labels last packet =>
    have := packet.type_cases
    exact this.imp_right .inl
  | vpls labels last addresses next => exact .inr (.inr rfl)
  | pppoe header low rest => exact .inl rfl

theorem Stack.stop_iff (s : Stack) : s.stop = (s.ipType, s.ipOffset) ↔ s.hasVpls = false := by
  induction s with
  | ip packet => exact iff_of_true rfl rfl
  | vlan tci next ih =>
    simp only [stop, ipType, ipOffset, hasVpls, ← ih, Prod.ext_iff]
    omega
  | mpls labels last packet => exact iff_of_true rfl rfl
  | vpls labels last addresses next =>
    refine iff_of_false (fun h => ?_) nofun
    have htype : 0 = next.ipType := congrArg Prod.fst h
    obtain hip | hip := next.ipType_cases <;> rw [hip] at htype <;> cases htype
  | pppoe header low rest => exact iff_of_true rfl rfl

theorem layer3At_stop {s : Stack} (h : Carries pkt s) (ethertype : Nat) :
    Layer3At pkt ethertype ⟨s.stop.1, 14 + s.stop.2, s.encode.length - s.stop.2⟩ := by
  have hlt := s.ipOffset_lt
  have hle := s.stop_le
  have hstart : stackStart pkt ethertype = some ⟨s.type, 14, s.encode.length⟩ := by
    have heth := h.ethernet
    have hsize := h.captured
    simp only [stackStart, headerStart, heth, HeaderChain.payload, fixedLink, hsize, id]
    rw [after, if_neg (by omega), h.type, Nat.sub_zero, Nat.add_sub_cancel_left]
  refine ⟨_, hstart, reach_stopPlace s h.payload, ?_⟩
  refine ⟨by simp only; omega, ?_⟩
  obtain hip | hip | hip := s.stop_cases <;> simp only [hip] <;> decide

end

/-- Layer 3 is found exactly if no Ethernet frame is below a label stack. -/
theorem findsIp_iff (pkt : Packet) (ethertype : Nat) {s : Stack} (h : Carries pkt s) :
    FindsIp pkt ethertype s ↔ s.hasVpls = false := by
  rw [← s.stop_iff]
  have hsize := h.captured
  obtain ⟨x, hx, hok⟩ | ⟨hnone, -⟩ := finds_layer3 pkt ethertype
  · obtain rfl := layer3At_unique (layer3At_stop h ethertype) hx
    rw [FindsIp, layer3_fresh, hok, Except.ok.injEq]
    simp only [Place.found, Found.mk.injEq, Option.some.injEq, Prod.ext_iff]
    omega
  · exact (hnone _ (layer3At_stop h ethertype)).elim

def labelled : Stack :=
  .vlan 7 (.mpls [⟨0x12345, 64⟩] ⟨0x54321, 64⟩ ⟨true, ⟨0, by decide⟩, []⟩)

def bridged : Stack :=
  .vlan 7 (.vpls [⟨0x12345, 64⟩] ⟨0x54321, 64⟩ ⟨fun _ => 2, by decide⟩
    (.ip ⟨true, ⟨0, by decide⟩, []⟩))

def frameOf (s : Stack) (h : s.encode.length < 65000) : Packet where
  bytes i := ((List.replicate 12 0 ++ beBytes 2 s.type ++ s.encode)[i]?).getD 0
  linkType := .eth
  captureLength := 14 + s.encode.length
  wireLength := 14 + s.encode.length
  captureLength_lt := by omega
  wireLength_lt := by omega

theorem labelled_found : FindsIp (frameOf labelled (by decide)) 0 labelled :=
  (findsIp_iff _ 0 ⟨rfl, by decide +kernel, by decide +kernel, by decide +kernel⟩).mpr rfl

/-- The IP header is 40 bytes from the start of the frame. -/
theorem bridged_lost :
    Carries (frameOf bridged (by decide)) bridged ∧
      bridged.ipOffset = 26 ∧ bridged.ipType = ethertypeIpv6 ∧
      (getLayer3 (frameOf bridged (by decide)).whole (frameOf bridged (by decide)) 0).run'
        clearCache = .ok ⟨some 26, 0, 15⟩ :=
  ⟨⟨rfl, by decide +kernel, by decide +kernel, by decide +kernel⟩, rfl, rfl, by decide +kernel⟩

end Libtrace.EncapsulationStack
