import Libtrace.PacketAccess
import Libtrace.PcapCopy

/-! `promote_packet` puts a Linux SLL header in front of a packet of a live libpcap trace, writing
its lengths as if its framing header were that of a pcap file; `demote_packet` takes it off. The
framing header of libpcap starts with two `long`s. The caches are cleared where needed, and are left
out. -/

namespace Libtrace.SllPromotion
open Exec ByteOrder Window Protocols
open PacketAccess (findLayer3 toSize)
open PcapFile (pcapLinktypeToRt rtToPcapLinktype pcapLinktypeToLibtrace toInt32 packetBufsize
  wirelessFlags uint32At uint32At_store uint32At_store_other)

inductive Abi where
  | ilp32
  | lp64
  deriving DecidableEq, Repr

def Abi.long : Abi → Nat
  | .ilp32 => 4
  | .lp64 => 8

structure PcapPacket where
  type : Nat
  header : Nat → UInt8
  payload : Nat → UInt8

section

variable (abi : Abi) (p : PcapPacket)

def PcapPacket.caplen : Nat := uint32At p.header (2 * abi.long)

def PcapPacket.len : Nat := uint32At p.header (2 * abi.long + 4)

def getTimeval : Nat × Nat :=
  (leNat (window p.header 0 abi.long), leNat (window p.header abi.long (2 * abi.long)))

def getLinkType : Decode LinkType := do
  let linktype ← rtToPcapLinktype p.type
  return pcapLinktypeToLibtrace linktype

def getCaptureLength : Decode Nat :=
  if p.caplen abi < packetBufsize then .ok (p.caplen abi) else .error .assertion

/-- As an unsigned number. `flags` is what the variable holds if there are no wireless flags. -/
def formatWireLength (flags : Nat) : Decode Nat :=
  if p.type = pcapLinktypeToRt 1 then .ok ((p.len abi + 4) % 2 ^ 32)
  else if p.type = pcapLinktypeToRt 127 then do
    let found ← wirelessFlags fun i => some (p.payload i)
    return if found.getD flags / 16 % 2 = 0 then (p.len abi + 4) % 2 ^ 32 else p.len abi
  else .ok (p.len abi)

def getWireLength (flags : Nat) : Decode Int := do
  let n ← formatWireLength abi p flags
  if toInt32 n < packetBufsize then return toInt32 n else throw .assertion

def getRemaining (flags : Nat) : Decode Nat := do
  let capture ← getCaptureLength abi p
  let wire ← getWireLength abi p flags
  return if wire < 0 then capture else if wire < capture then wire.toNat else capture

/-- The packet afterwards. It cannot be made longer. -/
def setCaptureLength (size : Nat) : Decode PcapPacket := do
  let capture ← getCaptureLength abi p
  let q := if capture < size then p
    else { p with header := store p.header (2 * abi.long) (leBytes 4 size) }
  let _ ← getCaptureLength abi q
  return q

end

def sllSize : Nat := 16

/-- What is not set is as `malloc` left it. -/
def sllHeader (junk : Nat → UInt8) (hatype protocol : Nat) : List UInt8 :=
  leBytes 2 4 ++ beBytes 2 hatype ++ beBytes 2 6 ++ window junk 6 14 ++ beBytes 2 protocol

variable (abi : Abi)

variable (flags : Nat)

/-- `trace_get_layer3` may leave the protocol as it is. -/
def sllTypes (junk : Nat → UInt8) (p : PcapPacket) : LinkType → Decode (Option (Nat × Nat))
  | .none => do
    let remaining ← getRemaining abi p flags
    let found ← findLayer3 (fun i => some (p.payload i)) ⟨some 0, .none, remaining⟩
      (leNat (window junk 14 16))
    return some (512, found.type)
  | .eth => .ok (some (1, 0x0060))
  | _ => .ok none

def growLengths (header : Nat → UInt8) : Nat → UInt8 :=
  let longer := store header 8 (leBytes 4 (uint32At header 8 + sllSize))
  store longer 12 (leBytes 4 (uint32At longer 12 + sllSize))

def promotePacket (junk : Nat → UInt8) (p : PcapPacket) : Decode PcapPacket := do
  let linktype ← getLinkType p
  if linktype = .linuxSll then return p
  let capture ← getCaptureLength abi p
  let types ← sllTypes abi flags junk p linktype
  match types with
  | none => return p
  | some (hatype, protocol) =>
    return {
      type := pcapLinktypeToRt 113
      header := growLengths p.header
      payload := store junk 0 (sllHeader junk hatype protocol ++ window p.payload 0 capture) }

def demotedType (hatype nextProto : Nat) : Option Nat :=
  if hatype = 512 then some (pcapLinktypeToRt 12)
  else if nextProto = 0x0060 then some (pcapLinktypeToRt 1)
  else if nextProto = ethertypeIp then some (pcapLinktypeToRt 12)
  else if nextProto = ethertypeIpv6 then some (pcapLinktypeToRt 12)
  else none

/-- What is returned and the packet afterwards. libpcap has no ATM packets. -/
def demotePacket (p : PcapPacket) : Decode (Bool × PcapPacket) := do
  let linktype ← getLinkType p
  if linktype ≠ .linuxSll then return (false, p)
  match demotedType (beNat (window p.payload 2 4)) (beNat (window p.payload 14 16)) with
  | none => return (false, p)
  | some type => do
    let q : PcapPacket := { p with type := type, payload := fun i => p.payload (sllSize + i) }
    let capture ← getCaptureLength abi q
    let q ← setCaptureLength abi q (toSize ((capture : Int) - sllSize))
    return (true, q)

structure View where
  linkType : LinkType
  timeval : Nat × Nat
  captureLength : Nat
  wireLength : Int
  captured : List UInt8
  deriving DecidableEq, Repr

def view (p : PcapPacket) : Decode View := do
  let linkType ← getLinkType p
  let capture ← getCaptureLength abi p
  let wire ← getWireLength abi p flags
  return ⟨linkType, getTimeval abi p, capture, wire, window p.payload 0 capture⟩

def Restores (junk : Nat → UInt8) (p : PcapPacket) : Prop :=
  ∃ promoted demoted v, promotePacket abi flags junk p = .ok promoted ∧
    demotePacket abi promoted = .ok (true, demoted) ∧ view abi flags p = .ok v ∧
    view abi flags demoted = .ok v

section

theorem growLengths_fields (header : Nat → UInt8) :
    uint32At (growLengths header) 8 = (uint32At header 8 + 16) % 2 ^ 32 ∧
      uint32At (growLengths header) 12 = (uint32At header 12 + 16) % 2 ^ 32 := by
  rw [growLengths]
  rw [uint32At_store_other _ (.inl (by decide)), uint32At_store, uint32At_store,
    uint32At_store_other _ (.inr (Nat.le_of_eq (by rw [length_leBytes]))), sllSize]
  exact ⟨rfl, rfl⟩

end

section

variable {abi : Abi} {flags : Nat} {junk : Nat → UInt8} {p q r : PcapPacket}

def Promotable (p : PcapPacket) : Prop := getLinkType p = .ok .eth ∨ getLinkType p = .ok .none

theorem sllTypes_some (h : Promotable p) {linktype : LinkType}
    (hlink : getLinkType p = .ok linktype) {types : Option (Nat × Nat)}
    (htypes : sllTypes abi flags junk p linktype = .ok types) : types.isSome := by
  obtain h | h := h
  · obtain rfl := ok_unique hlink h
    exact Except.ok.inj htypes ▸ rfl
  · obtain rfl := ok_unique hlink h
    obtain ⟨_, -, htypes⟩ := except_bind_ok.mp htypes
    obtain ⟨_, -, htypes⟩ := except_bind_ok.mp htypes
    exact Except.ok.inj htypes ▸ rfl

theorem promotePacket_header (h : Promotable p) (hp : promotePacket abi flags junk p = .ok q) :
    q.header = growLengths p.header := by
  obtain ⟨linktype, hlink, hp⟩ := except_bind_ok.mp hp
  have hsll : linktype ≠ .linuxSll := by
    rintro rfl
    obtain h | h := h <;> cases hlink.symm.trans h
  rw [if_neg hsll] at hp
  obtain ⟨capture, -, hp⟩ := except_bind_ok.mp hp
  obtain ⟨types, htypes, hp⟩ := except_bind_ok.mp hp
  cases types with
  | none => cases sllTypes_some h hlink htypes
  | some types => rw [← Except.ok.inj hp]

theorem demotePacket_fields (h : demotePacket abi q = .ok (true, r)) :
    (r.header = q.header ∨ ∃ n, r.header = store q.header (2 * abi.long) (leBytes 4 n)) ∧
      (r.type = pcapLinktypeToRt 12 ∨ r.type = pcapLinktypeToRt 1) := by
  obtain ⟨linktype, -, h⟩ := except_bind_ok.mp h
  split_ifs at h with hsll
  · cases Except.ok.inj h
  · cases htype : demotedType (beNat (window q.payload 2 4)) (beNat (window q.payload 14 16)) with
    | none =>
      rw [htype] at h
      cases Except.ok.inj h
    | some type =>
      rw [htype] at h
      have hbase : type = pcapLinktypeToRt 12 ∨ type = pcapLinktypeToRt 1 := by
        unfold demotedType at htype
        split_ifs at htype <;> cases htype <;> decide
      obtain ⟨capture, -, h⟩ := except_bind_ok.mp h
      obtain ⟨set, hset, h⟩ := except_bind_ok.mp h
      obtain ⟨capture', -, hset⟩ := except_bind_ok.mp hset
      obtain ⟨_, -, hset⟩ := except_bind_ok.mp hset
      have hr : r = set := (congrArg Prod.snd (Except.ok.inj h)).symm
      rw [hr, ← Except.ok.inj hset]
      split_ifs
      · exact ⟨.inl rfl, hbase⟩
      · exact ⟨.inr ⟨_, rfl⟩, hbase⟩

theorem formatWireLength_cases (htype : p.type ≠ pcapLinktypeToRt 127) {n : Nat}
    (h : formatWireLength abi p flags = .ok n) : n = p.len abi ∨ n = (p.len abi + 4) % 2 ^ 32 := by
  rw [formatWireLength] at h
  split_ifs at h with heth
  · exact .inr (Except.ok.inj h).symm
  · exact .inl (Except.ok.inj h).symm

theorem not_radiotap (h : Promotable p) : p.type ≠ pcapLinktypeToRt 127 := by
  intro htype
  rw [Promotable, getLinkType, htype] at h
  revert h
  decide

theorem view_wireLength (htype : p.type ≠ pcapLinktypeToRt 127) {v : View}
    (h : view abi flags p = .ok v) :
    v.wireLength = toInt32 (p.len abi) ∨ v.wireLength = toInt32 ((p.len abi + 4) % 2 ^ 32) := by
  obtain ⟨linkType, -, h⟩ := except_bind_ok.mp h
  obtain ⟨capture, -, h⟩ := except_bind_ok.mp h
  obtain ⟨wire, hwire, h⟩ := except_bind_ok.mp h
  obtain ⟨n, hn, hwire⟩ := except_bind_ok.mp hwire
  have hv : v.wireLength = wire := (congrArg View.wireLength (Except.ok.inj h)).symm
  split_ifs at hwire
  rw [hv, ← Except.ok.inj hwire]
  exact (formatWireLength_cases htype hn).imp (congrArg toInt32) (congrArg toInt32)

theorem view_timeval {v : View} (h : view abi flags p = .ok v) : v.timeval = getTimeval abi p := by
  obtain ⟨linkType, -, h⟩ := except_bind_ok.mp h
  obtain ⟨capture, -, h⟩ := except_bind_ok.mp h
  obtain ⟨wire, -, h⟩ := except_bind_ok.mp h
  exact (congrArg View.timeval (Except.ok.inj h)).symm

end

section

variable {flags : Nat} {junk : Nat → UInt8} {p q r : PcapPacket}

theorem len_ilp32 (hq : q.header = growLengths p.header)
    (hr : demotePacket .ilp32 q = .ok (true, r)) : r.len .ilp32 = (p.len .ilp32 + 16) % 2 ^ 32 := by
  have hgrown : uint32At q.header 12 = (uint32At p.header 12 + 16) % 2 ^ 32 :=
    hq ▸ (growLengths_fields p.header).2
  change uint32At r.header 12 = _
  obtain ⟨hsame | ⟨n, hset⟩, -⟩ := demotePacket_fields hr
  · rw [hsame]
    exact hgrown
  · rw [hset, uint32At_store_other _ (.inr (Nat.le_of_eq (by rw [length_leBytes]; rfl)))]
    exact hgrown

theorem usec_lp64 (hq : q.header = growLengths p.header)
    (hr : demotePacket .lp64 q = .ok (true, r)) :
    uint32At r.header 8 = (uint32At p.header 8 + 16) % 2 ^ 32 := by
  have hgrown : uint32At q.header 8 = (uint32At p.header 8 + 16) % 2 ^ 32 :=
    hq ▸ (growLengths_fields p.header).1
  obtain ⟨hsame | ⟨n, hset⟩, -⟩ := demotePacket_fields hr
  · rw [hsame]
    exact hgrown
  · rw [hset, uint32At_store_other _ (.inl (by decide))]
    exact hgrown

theorem uint32At_of_timeval (h : getTimeval .lp64 r = getTimeval .lp64 p) :
    uint32At r.header 8 = uint32At p.header 8 := by
  simp only [getTimeval, Abi.long, Prod.mk.injEq, Nat.reduceMul] at h
  have hbytes : window r.header 8 16 = window p.header 8 16 := by
    have hr := leBytes_leNat (window r.header 8 16)
    have hp := leBytes_leNat (window p.header 8 16)
    rw [length_window] at hr hp
    rw [← hr, ← hp, h.2]
  rw [window_append _ (show 8 ≤ 12 by decide) (show 12 ≤ 16 by decide),
    window_append p.header (show 8 ≤ 12 by decide) (show 12 ≤ 16 by decide)] at hbytes
  have hlow := List.append_inj_left hbytes (by rw [length_window, length_window])
  exact congrArg leNat hlow

theorem ne_of_grown (n : Nat) : (n + 16) % 2 ^ 32 ≠ n := by omega

theorem toInt32_ne_of_grown {n : Nat} (hn : n < 2 ^ 32) {x : Int}
    (h : x = toInt32 n ∨ x = toInt32 ((n + 4) % 2 ^ 32)) :
    ¬ (x = toInt32 ((n + 16) % 2 ^ 32) ∨ x = toInt32 (((n + 16) % 2 ^ 32 + 4) % 2 ^ 32)) := by
  have hinj : ∀ {a b : Nat}, a < 2 ^ 32 → b < 2 ^ 32 → toInt32 a = toInt32 b → a = b :=
    fun ha hb => (PcapCopy.toInt32_inj ha hb).mp
  have hmod : ∀ k, k % 2 ^ 32 < 2 ^ 32 := fun k => Nat.mod_lt k (by decide)
  rintro (h' | h')
  · obtain h | h := h
    · have := hinj hn (hmod _) (h.symm.trans h')
      omega
    · have := hinj (hmod _) (hmod _) (h.symm.trans h')
      omega
  · obtain h | h := h
    · have := hinj hn (hmod _) (h.symm.trans h')
      omega
    · have := hinj (hmod _) (hmod _) (h.symm.trans h')
      omega

end

/-- No packet that is promoted is the same when it is demoted again. -/
theorem promotion_not_undone (abi : Abi) (flags : Nat) (junk : Nat → UInt8) (p : PcapPacket)
    (h : Promotable p) : ¬ Restores abi flags junk p := by
  rintro ⟨q, r, v, hp, hr, hv, hv'⟩
  have hq := promotePacket_header h hp
  cases abi with
  | ilp32 =>
    have hbase : r.type ≠ pcapLinktypeToRt 127 := by
      obtain ⟨-, htype | htype⟩ := demotePacket_fields hr <;> rw [htype] <;> decide
    have hwire := view_wireLength hbase hv'
    rw [len_ilp32 hq hr] at hwire
    exact toInt32_ne_of_grown (PcapRecords.uint32At_lt _ _) (view_wireLength (not_radiotap h) hv)
      hwire
  | lp64 =>
    have hsame := uint32At_of_timeval ((view_timeval hv').symm.trans (view_timeval hv))
    rw [usec_lp64 hq hr] at hsame
    exact ne_of_grown _ hsame

def frame : PcapPacket where
  type := pcapLinktypeToRt 1
  header := store (fun _ => 0) 16 (leBytes 4 20 ++ leBytes 4 60)
  payload _ := 0

theorem frame_promotable : Promotable frame := by
  rw [Promotable]
  decide +kernel

theorem frame_not_undone : Promotable frame ∧ ¬ Restores .lp64 0 (fun _ => 0) frame :=
  ⟨frame_promotable, promotion_not_undone .lp64 0 (fun _ => 0) frame frame_promotable⟩

def viewBack (junk : Nat → UInt8) (p : PcapPacket) : Decode (Bool × View) := do
  let promoted ← promotePacket abi flags junk p
  let demoted ← demotePacket abi promoted
  let v ← view abi flags demoted.2
  return (demoted.1, v)

theorem viewBack_of_restores {abi : Abi} {flags : Nat} {junk : Nat → UInt8} {p : PcapPacket}
    (h : Restores abi flags junk p) :
    ∃ v, view abi flags p = .ok v ∧ viewBack abi flags junk p = .ok (true, v) := by
  obtain ⟨promoted, demoted, v, hp, hd, hv, hv'⟩ := h
  refine ⟨v, hv, ?_⟩
  rw [viewBack, hp, ok_bind, hd, ok_bind, hv']
  rfl

/-- Of the 20 bytes four are left, and the time is some hours later. -/
theorem frame_cut :
    view .lp64 0 frame = .ok ⟨.eth, (0, 0), 20, 64, List.replicate 20 0⟩ ∧
      viewBack .lp64 0 (fun _ => 0) frame =
        .ok (true, ⟨.eth, (0, 68719476752), 4, 64, List.replicate 4 0⟩) ∧
      ¬ Restores .lp64 0 (fun _ => 0) frame := by
  have hview : view .lp64 0 frame = .ok ⟨.eth, (0, 0), 20, 64, List.replicate 20 0⟩ := by
    decide +kernel
  have hback : viewBack .lp64 0 (fun _ => 0) frame =
      .ok (true, ⟨.eth, (0, 68719476752), 4, 64, List.replicate 4 0⟩) := by
    decide +kernel
  refine ⟨hview, hback, fun h => ?_⟩
  obtain ⟨v, hv, hv'⟩ := viewBack_of_restores h
  have hsame : (20 : Nat) = 4 := by
    have hcapture := congrArg View.captureLength (Except.ok.inj hv)
    have hcapture' := congrArg (fun x => View.captureLength x.2) (Except.ok.inj hv')
    exact hcapture.trans hcapture'.symm
  exact absurd hsame (by decide)

end Libtrace.SllPromotion
