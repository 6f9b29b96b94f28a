import Libtrace.StripRun

/-! The packet after `trace_strip_packet`: the Ethernet header is in front of what the loop has
stopped at, with its type. -/

namespace Libtrace.StripMove
open Exec Orbit ByteOrder Window Protocols PacketAccess PacketLayout HeaderChain StripPacket
  StripRun
open PcapFile (PcapPacket swapl uint32At uint32At_store_other)
open PcapRecords (swapl_swapl withCaplen withCaplen_caplen)

section

variable {p : PcapPacket} {pkt : Packet} {q : Nat} {y : Place}

def moved (pkt : Packet) (y : Place) : Packet where
  bytes i :=
    if i < 14 then store pkt.bytes 12 (beBytes 2 (finalType y)) i
    else pkt.bytes (i + (y.offset - 14))
  linkType := pkt.linkType
  captureLength := pkt.captureLength - (y.offset - 14)
  wireLength := pkt.wireLength
  captureLength_lt := by have := pkt.captureLength_lt; omega
  wireLength_lt := pkt.wireLength_lt

def movedPacket (p : PcapPacket) (q : Nat) (y : Place) (size : Nat) : PcapPacket :=
  let p := withCaplen { p with buffer := store p.buffer (q + 12) (beBytes 2 (finalType y)) } size
  { p with
    buffer := store p.buffer (q + y.offset - 14) (window p.buffer q (q + 14))
    payload := some (q + y.offset - 14) }

theorem moveHeader_eq (h : Describes p pkt) (hq : p.payload = some q) {size : Nat}
    (hs : size ≤ pkt.captureLength) :
    moveHeader p q 0 y.offset (finalType y) size = .ok (movedPacket p q y size) := by
  have h16 : 16 ≤ q := (h.payload q hq).1
  have hcaplen : ({ p with buffer := store p.buffer (q + 12) (beBytes 2 (finalType y)) } :
      PcapPacket).caplen = pkt.captureLength := by
    rw [← h.capture]
    exact congrArg (swapl p.header) (uint32At_store_other p.buffer (by omega))
  have hset := setCaptureLength_eq hcaplen pkt.captureLength_lt hs
  rw [moveHeader, Nat.add_zero, hset]
  rfl

theorem uint32At_moved (h : Describes p pkt) (hq : p.payload = some q) (h14 : 14 ≤ y.offset)
    (size : Nat) {i : Nat} (hi : i + 4 ≤ 16) :
    uint32At (movedPacket p q y size).buffer i =
      uint32At (store p.buffer 8 (leBytes 4 (swapl p.header size))) i := by
  have h16 : 16 ≤ q := (h.payload q hq).1
  refine (uint32At_store_other _ (by omega)).trans ?_
  refine congrArg leNat (window_congr _ fun k hk hk' => ?_)
  by_cases hin : 8 ≤ k ∧ k < 12
  · obtain ⟨j, rfl⟩ := Nat.exists_eq_add_of_le hin.1
    exact (store_inside _ (by rw [length_leBytes]; omega)).trans
      (store_inside _ (by rw [length_leBytes]; omega)).symm
  · have hout : k < 8 ∨ 8 + (leBytes 4 (swapl p.header size)).length ≤ k := by
      rw [length_leBytes]
      omega
    exact (store_outside _ hout).trans
      ((store_outside _ (by omega)).trans (store_outside _ hout).symm)

theorem store_shift (m : Nat → UInt8) (q k i : Nat) (data : List UInt8) :
    store m (q + k) data (q + i) = store (fun j => m (q + j)) k data i := by
  unfold store
  rw [Nat.add_sub_add_left]
  split_ifs <;> first | rfl | omega

section

variable (h : Describes p pkt) (hq : p.payload = some q)
include h hq

theorem movedPacket_header (size : Nat) {i : Nat} (hi : i < 14) :
    (movedPacket p q y size).buffer (q + y.offset - 14 + i) =
      store pkt.bytes 12 (beBytes 2 (finalType y)) i := by
  obtain ⟨h16, hbytes⟩ := h.payload q hq
  have h16 : 16 ≤ q := h16
  refine (store_inside _ (by rw [length_window]; omega)).trans ?_
  simp only [window, List.getElem_map, List.getElem_range]
  refine (store_outside _ (by rw [length_leBytes]; omega)).trans ?_
  refine (store_shift p.buffer q 12 i _).trans ?_
  exact congrFun (congrArg (store · 12 _) (funext fun j => (hbytes j).symm)) i

theorem movedPacket_behind (h14 : 14 ≤ y.offset) (size : Nat) {k : Nat} (hk : q + y.offset ≤ k) :
    (movedPacket p q y size).buffer k = p.buffer k := by
  have h16 : 16 ≤ q := (h.payload q hq).1
  refine (store_outside _ (by rw [length_window]; omega)).trans ?_
  refine (store_outside _ (by rw [length_leBytes]; omega)).trans ?_
  exact store_outside _ (by rw [length_beBytes]; omega)

theorem movedPacket_describes (h14 : 14 ≤ y.offset) :
    Describes (movedPacket p q y (pkt.captureLength - (y.offset - 14))) (moved pkt y) where
  type := h.type
  ethernet := h.ethernet
  capture := by
    have hlt := pkt.captureLength_lt
    rw [PcapPacket.caplen, uint32At_moved h hq h14 _ (by decide)]
    exact withCaplen_caplen p (by omega)
  wire := by
    have hwire : (movedPacket p q y (pkt.captureLength - (y.offset - 14))).wirelen = p.wirelen := by
      rw [PcapPacket.wirelen, uint32At_moved h hq h14 _ (by decide)]
      exact congrArg (swapl p.header) (uint32At_store_other p.buffer (by simp))
    rw [hwire]
    exact h.wire
  covered := by
    have := h.covered
    simp only [moved]
    omega
  payload := by
    rintro q' hq'
    obtain rfl := Option.some.inj hq'
    obtain ⟨h16, hbytes⟩ := h.payload q hq
    refine ⟨by omega, fun i => ?_⟩
    simp only [moved]
    split_ifs with hi
    · exact (movedPacket_header h hq _ hi).symm
    · rw [movedPacket_behind h hq h14 _ (by omega), hbytes]
      congr 1
      omega
  empty := nofun

end

theorem window_two (m : Nat → UInt8) (i : Nat) :
    window m i (i + 2) = beBytes 2 ((m i).toNat * 256 + (m (i + 1)).toNat) := by
  have hhigh := (m i).toNat_lt
  have hlow := (m (i + 1)).toNat_lt
  have hfirst : UInt8.ofNat (((m i).toNat * 256 + (m (i + 1)).toNat) / 256) = m i := by
    refine UInt8.toNat_inj.mp ?_
    rw [UInt8.toNat_ofNat']
    omega
  have hsecond : UInt8.ofNat ((m i).toNat * 256 + (m (i + 1)).toNat) = m (i + 1) := by
    refine UInt8.toNat_inj.mp ?_
    rw [UInt8.toNat_ofNat']
    omega
  rw [beBytes, leBytes, leBytes, leBytes, hfirst, hsecond]
  simp [window, List.range_succ]

theorem movedPacket_same (h : Describes p pkt) (hq : p.payload = some q) (h14 : y.offset = 14)
    (ht : finalType y = be pkt 12) : clear (movedPacket p q y pkt.captureLength) = clear p := by
  have hbytes := (h.payload q hq).2
  have htype : store p.buffer (q + 12) (beBytes 2 (finalType y)) = p.buffer := by
    rw [ht, be, hbytes, hbytes, ← Nat.add_assoc, ← window_two]
    exact store_window p.buffer (q + 12) _
  have hlength : store p.buffer 8 (leBytes 4 (swapl p.header pkt.captureLength)) = p.buffer := by
    have hword := leBytes_leNat (window p.buffer 8 (8 + 4))
    have hlt := leNat_lt (window p.buffer 8 (8 + 4))
    rw [length_window] at hword hlt
    rw [← h.capture, PcapPacket.caplen, uint32At, swapl_swapl _ hlt, hword]
    exact store_window p.buffer 8 12
  unfold movedPacket withCaplen clear
  simp only [htype, hlength, h14, Nat.add_sub_cancel]
  rw [store_window p.buffer q (q + 14), ← hq]

end

section

variable {p : PcapPacket} {pkt : Packet} {q : Nat} {y : Place}

theorem stackNext_type_lt {a b : Place} (h : stackNext pkt a = some b) : b.type < 65536 := by
  have htype {size type p r : Nat} (h : after size type p r = some b) : b.type = type := by
    unfold after at h
    split_ifs at h
    rw [← Option.some.inj h]
  unfold stackNext vlanNext mplsNext pppoeNext at h
  split_ifs at h <;> rw [htype h]
  · exact be_lt pkt _
  · decide
  · unfold versionType
    split_ifs <;> decide
  · unfold pppType
    split_ifs <;> decide

theorem finalType_lt (h : Ends (stackNext pkt) (start pkt) y) : finalType y < 65536 := by
  have htype : y.type < 65536 := by
    refine reach_inv (fun z => z.type < 65536) (fun a b hab _ => ?_) h.1 (be_lt pkt 12)
    exact stackNext_type_lt hab
  unfold finalType
  split_ifs <;> omega

theorem ends_sum (h : Ends (stackNext pkt) (start pkt) y) (h14 : 14 ≤ pkt.size) :
    y.offset + y.remaining = pkt.size ∧ 14 ≤ y.offset := by
  have hinv : y.offset + y.remaining = pkt.size ∧ y.remaining ≤ pkt.size - 14 := by
    refine reach_inv (fun z => z.offset + z.remaining = pkt.size ∧ z.remaining ≤ pkt.size - 14)
      (fun a b hab ha => ?_) h.1 ?_
    · have := stackNext_sum hab
      omega
    · simp only [start]
      omega
  omega

def Kept (pkt : Packet) (y : Place) : Prop :=
  le pkt 12 = ethertypeIp ∨ le pkt 12 = ethertypeIpv6 ∨ pkt.size ≤ 14 ∨
    y.remaining ≠ 0 ∧ ¬ isLayer3 y

section

variable (h : Describes p pkt) (hq : p.payload = some q) (flags : Nat)
include h hq flags

theorem stripPacket_eq :
    stripPacket flags p =
      if le pkt 12 = ethertypeIp ∨ le pkt 12 = ethertypeIpv6 then .ok p
      else if pkt.size ≤ 14 then .ok p
      else stripHeaders pkt.whole (pkt.size + 2) (some 14) (be pkt 12) (pkt.size - 14) 0 >>=
        finishStrip p q 0 pkt.size := by
  have hlt := pkt.captureLength_lt
  have hcaplen : ((pkt.captureLength : Int) % 65536).toNat = pkt.captureLength := by omega
  rw [stripPacket, getLayer2_eq h, ok_bind, memory_eq h hq, hq, getCaptureLength_clear h, size_eq h]
  simp only [Option.map_some, le16_whole, be16_whole, ok_bind, hcaplen, Nat.zero_add]
  rfl

theorem stripPacket_kept (hend : Ends (stackNext pkt) (start pkt) y) (hkept : Kept pkt y) :
    stripPacket flags p = .ok p := by
  have hlt := pkt.captureLength_lt
  have hsize := size_eq h
  rw [stripPacket_eq h hq]
  by_cases hraw : le pkt 12 = ethertypeIp ∨ le pkt 12 = ethertypeIpv6
  · rw [if_pos hraw]
  · by_cases hshort : pkt.size ≤ 14
    · rw [if_neg hraw, if_pos hshort]
    · have hcut : y.remaining ≠ 0 ∧ ¬ isLayer3 y := by
        obtain h1 | h1 | h1 | h1 := hkept
        · exact (hraw (.inl h1)).elim
        · exact (hraw (.inr h1)).elim
        · exact (hshort h1).elim
        · exact h1
      obtain ⟨removed, hloop⟩ := (stripHeaders_of_ends (pkt.size + 2) 0 hend
        (by simp only [start]; omega) (by simp only [start]; omega)).2 hcut
      simp only [start] at hloop
      rw [if_neg hraw, if_neg hshort, hloop]
      rfl

theorem stripPacket_moved (hend : Ends (stackNext pkt) (start pkt) y) (hkept : ¬ Kept pkt y) :
    stripPacket flags p = .ok (movedPacket p q y (pkt.captureLength - (y.offset - 14))) := by
  have hlt := pkt.captureLength_lt
  have hsize := size_eq h
  unfold Kept at hkept
  push Not at hkept
  obtain ⟨hip, hip6, hlong, hlayer3⟩ := hkept
  obtain ⟨hsum, h14⟩ := ends_sum hend (by omega)
  have hstop : y.remaining = 0 ∨ isLayer3 y := by
    by_cases hr : y.remaining = 0
    · exact .inl hr
    · exact .inr (hlayer3 hr)
  have hloop := (stripHeaders_of_ends (pkt.size + 2) 0 hend (by simp only [start]; omega)
    (by simp only [start]; omega)).1 hstop
  have hremoved : toSize ((pkt.size : Int) - (0 + ((start pkt).remaining - y.remaining) : Nat)) =
      pkt.captureLength - (y.offset - 14) := by
    unfold toSize
    simp only [start]
    omega
  rw [stripPacket_eq h hq, if_neg (by simp [hip, hip6]), if_neg (by omega)]
  simp only [start] at hloop hremoved
  rw [hloop, ok_bind, finishStrip]
  rw [hremoved]
  exact moveHeader_eq h hq (by omega)

end

end

end Libtrace.StripMove
