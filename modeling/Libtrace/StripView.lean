import Libtrace.StripMove

/-! Stripping keeps the layer 3 view, unless there is no payload: the type in the Ethernet header is
read first. -/

namespace Libtrace.StripView
open Exec Orbit ByteOrder Window PacketAccess PacketDecode PacketLayout HeaderChain StripPacket
  StripRun StripMove
open PcapFile (PcapPacket pcapLinktypeToRt)

section

variable {p : PcapPacket} {pkt : Packet} {q : Nat} {y : Place}

theorem layer3_of_ends (he : pkt.linkType = .eth) (hend : Ends (stackNext pkt) (start pkt) y)
    (h14 : 14 ≤ pkt.size) (ethertype : Nat) :
    ∃ f, layer3Of pkt.whole pkt ethertype = .ok f ∧ (isLayer3 y → f = y.found) ∧
      (¬ isLayer3 y → f.ptr = none) := by
  have hstart : stackStart pkt ethertype = some (start pkt) := by
    rw [stackStart_eq he, if_neg (by omega)]
  have hat (x : Place) (hx : Layer3At pkt ethertype x) : x = y := by
    obtain ⟨s, hs, hreach, hl3⟩ := hx
    obtain rfl := Option.mem_unique hstart hs
    exact reach_end_unique hreach hend.1
      (stackNext_of_decoder ((isLayer3_iff x).mp hl3).2) hend.2
  obtain ⟨x, hx, hok⟩ | ⟨hnone, type, r, hok⟩ := finds_layer3 pkt ethertype
  · have hl3 : isLayer3 x := hx.choose_spec.2.2
    obtain rfl := hat x hx
    exact ⟨_, hok, fun _ => rfl, fun hn => (hn hl3).elim⟩
  · exact ⟨_, hok, fun hl3 => (hnone y ⟨start pkt, hstart, hend.1, hl3⟩).elim, fun _ => rfl⟩

theorem be_store (m : Nat → UInt8) {v : Nat} (hv : v < 65536) :
    (store m 12 (beBytes 2 v) 12).toNat * 256 + (store m 12 (beBytes 2 v) 13).toNat = v := by
  have hhigh : store m 12 (beBytes 2 v) 12 = UInt8.ofNat (v / 256) :=
    store_inside m (i := 0) (by simp)
  have hlow : store m 12 (beBytes 2 v) 13 = UInt8.ofNat v := store_inside m (i := 1) (by simp)
  rw [hhigh, hlow, UInt8.toNat_ofNat', UInt8.toNat_ofNat']
  omega

theorem start_moved (h : Describes p pkt) (hend : Ends (stackNext pkt) (start pkt) y)
    (h14 : 14 ≤ pkt.size) : start (moved pkt y) = ⟨finalType y, 14, y.remaining⟩ := by
  obtain ⟨hsum, hoffset⟩ := ends_sum hend h14
  have hsize := size_eq h
  have hcovered := h.covered
  have hsize' : (moved pkt y).size = pkt.captureLength - (y.offset - 14) := by
    unfold Packet.size moved
    simp only
    rw [if_neg (by omega), if_neg (by omega)]
  have htype : be (moved pkt y) 12 = finalType y := be_store pkt.bytes (finalType_lt hend)
  rw [start, htype, hsize']
  congr 1
  omega

theorem isLayer3_final (y : Place) : isLayer3 ⟨finalType y, 14, y.remaining⟩ ↔ isLayer3 y := by
  unfold isLayer3 finalType
  by_cases hr : y.remaining = 0
  · simp [hr]
  · simp [hr]

theorem ends_moved (h : Describes p pkt) (hend : Ends (stackNext pkt) (start pkt) y)
    (h14 : 14 ≤ pkt.size) (hstop : y.remaining = 0 ∨ isLayer3 y) :
    Ends (stackNext (moved pkt y)) (start (moved pkt y)) (start (moved pkt y)) := by
  refine ⟨reach_refl _, ?_⟩
  rw [start_moved h hend h14]
  obtain hr | hl3 := hstop
  · exact stackNext_of_empty _ hr
  · exact stackNext_of_decoder ((isLayer3_iff _).mp ((isLayer3_final y).mpr hl3)).2

section

variable (h : Describes p pkt) (hq : p.payload = some q) (hend : Ends (stackNext pkt) (start pkt) y)
  (h14 : 14 ≤ pkt.size) (hstop : y.remaining = 0 ∨ isLayer3 y)
include h hq hend h14 hstop

theorem sameLayer3_moved (flags ethertype : Nat) :
    ∃ f f', StripPacket.getLayer3 flags ethertype p = .ok f ∧
      StripPacket.getLayer3 flags ethertype
        (movedPacket p q y (pkt.captureLength - (y.offset - 14))) = .ok f' ∧
      SameLayer3 p (movedPacket p q y (pkt.captureLength - (y.offset - 14))) f f' := by
  obtain ⟨hsum, hoffset⟩ := ends_sum hend h14
  have h' := movedPacket_describes h hq hoffset
  have hstart := start_moved h hend h14
  have hsize : 14 ≤ (moved pkt y).size := by
    have hlength : (moved pkt y).captureLength = pkt.captureLength - (y.offset - 14) := rfl
    rw [size_eq h', hlength, ← size_eq h]
    omega
  obtain ⟨f, hf, hfound, hnull⟩ := layer3_of_ends h.ethernet hend h14 ethertype
  obtain ⟨f', hf', hfound', hnull'⟩ :=
    layer3_of_ends h'.ethernet (ends_moved h hend h14 hstop) hsize ethertype
  rw [hstart] at hfound' hnull'
  refine ⟨f, f', (getLayer3_eq h hq flags ethertype).trans hf,
    (getLayer3_eq h' rfl flags ethertype).trans hf', ?_⟩
  by_cases hl3 : isLayer3 y
  · obtain rfl := hfound hl3
    obtain rfl := hfound' ((isLayer3_final y).mpr hl3)
    refine ⟨by simp [Place.found], fun _ => ⟨if_neg hl3.1, rfl, ?_⟩⟩
    have haddress : q + y.offset - 14 + 14 = q + y.offset := by omega
    simp only [bytesFrom, hq, Place.found]
    change some (window (movedPacket p q y _).buffer (q + y.offset - 14 + 14) _) = _
    rw [haddress, window_congr p.buffer fun k hk _ => movedPacket_behind h hq hoffset _ hk]
  · have hptr := hnull hl3
    have hptr' := hnull' (fun h3 => hl3 ((isLayer3_final y).mp h3))
    exact ⟨by simp [hptr, hptr'], fun hne => (hne hptr).elim⟩

theorem strip_moved (flags : Nat) :
    ∃ p'', stripPacket flags (movedPacket p q y (pkt.captureLength - (y.offset - 14))) = .ok p'' ∧
      clear p'' = clear (movedPacket p q y (pkt.captureLength - (y.offset - 14))) := by
  have h' := movedPacket_describes h hq (ends_sum hend h14).2
  have hend' := ends_moved h hend h14 hstop
  by_cases hkept : Kept (moved pkt y) (start (moved pkt y))
  · exact ⟨_, stripPacket_kept h' rfl flags hend' hkept, rfl⟩
  · refine ⟨_, stripPacket_moved h' rfl flags hend' hkept, ?_⟩
    refine movedPacket_same h' rfl rfl (if_neg fun hr => hkept ?_)
    simp only [start] at hr
    exact .inr (.inr (.inl (by omega)))

end

end

theorem stripPacket_null (flags : Nat) {p : PcapPacket} {pkt : Packet} (h : Describes p pkt)
    (hnone : p.payload = none) : stripPacket flags p = .error .nullPointer := by
  rw [stripPacket, getLayer2_eq h, ok_bind, if_neg (by simp), hnone]
  rfl

/-- Stripping keeps the layer 3 view exactly if there is a payload. -/
theorem stripKeeps_iff (flags ethertype : Nat) {p : PcapPacket} {pkt : Packet}
    (h : Describes p pkt) : StripKeeps flags ethertype p pkt ↔ p.payload ≠ none := by
  constructor
  · rintro ⟨p', hstrip, -⟩ hnone
    rw [stripPacket_null flags h hnone] at hstrip
    cases hstrip
  · intro hne
    obtain ⟨q, hq⟩ := Option.ne_none_iff_exists'.mp hne
    obtain ⟨y, hend⟩ := stackNext_ends pkt (start pkt)
    by_cases hkept : Kept pkt y
    · have hstrip := stripPacket_kept h hq flags hend hkept
      obtain ⟨f, hf⟩ := ReadBounds.layer3_returns pkt ethertype
      have hlayer3 := (getLayer3_eq h hq flags ethertype).trans hf
      exact ⟨p, hstrip, ⟨f, f, hlayer3, hlayer3, Iff.rfl, fun _ => ⟨rfl, rfl, rfl⟩⟩,
        fun _ => rfl, p, hstrip, rfl⟩
    · have hstrip := stripPacket_moved h hq flags hend hkept
      have hlong : ¬ pkt.size ≤ 14 := fun hshort => hkept (.inr (.inr (.inl hshort)))
      have hstop : y.remaining = 0 ∨ isLayer3 y := by
        by_contra hcut
        rw [not_or] at hcut
        exact hkept (.inr (.inr (.inr hcut)))
      refine ⟨_, hstrip, sameLayer3_moved h hq hend (by omega) hstop flags ethertype, ?_,
        strip_moved h hq hend (by omega) hstop flags⟩
      rintro (hshort | ⟨z, hz, hcut⟩)
      · omega
      · obtain rfl := ends_unique hend hz
        exact (hkept (.inr (.inr (.inr hcut)))).elim

def recordOf (body : List UInt8) (payload : Option Nat) : PcapPacket where
  buffer := store (fun _ => 0) 0
    (PcapFile.encodePktHdr 0 0 body.length body.length ++ body)
  payload
  captureLength := none
  header := ⟨0xa1b2c3d4, 2, 4, 1⟩
  type := pcapLinktypeToRt 1

def frameOf (p : PcapPacket) (q length : Nat) (h : length + 4 < 65536) : Packet where
  bytes i := p.buffer (q + i)
  linkType := .eth
  captureLength := length
  wireLength := (length + 4 : Nat)
  captureLength_lt := by omega
  wireLength_lt := by omega

def tagged : PcapPacket :=
  recordOf ([2, 2, 2, 2, 2, 2, 3, 3, 3, 3, 3, 3, 0x81, 0x00, 0x00, 0x07, 0x08, 0x00, 0x45])
    (some 16)

theorem tagged_kept : StripKeeps 0 0 tagged (frameOf tagged 16 19 (by decide)) := by
  refine (stripKeeps_iff 0 0
    ⟨rfl, rfl, by decide +kernel, by decide +kernel, by decide, ?_, ?_⟩).mpr (by decide)
  · intro q hq
    obtain rfl := Option.some.inj hq
    exact ⟨by decide, fun i => rfl⟩
  · nofun

def emptyRecord : PcapPacket := recordOf [] none

theorem emptyRecord_describes : Describes emptyRecord (frameOf emptyRecord 0 0 (by decide)) :=
  ⟨rfl, rfl, by decide +kernel, by decide +kernel, by decide, nofun, fun _ => rfl⟩

theorem emptyRecord_crashes :
    (PcapFile.readPacket ⟨emptyRecord.header, PcapFile.encodePktHdr 0 0 0 0⟩
      (PcapFile.createPacket fun _ => 0)).1 = .packet emptyRecord 16 ∧
      Describes emptyRecord (frameOf emptyRecord 0 0 (by decide)) ∧
      StripPacket.getLayer3 0 0 emptyRecord = .ok ⟨none, 0, 0⟩ ∧
      stripPacket 0 emptyRecord = .error .nullPointer := by
  refine ⟨?_, emptyRecord_describes, by decide +kernel,
    stripPacket_null 0 emptyRecord_describes rfl⟩
  unfold PcapFile.readPacket
  rw [if_neg (by decide), if_neg (by decide), if_neg (by decide +kernel),
    if_pos (by decide +kernel)]
  rfl

end Libtrace.StripView
