import Libtrace.ReadBounds
import Libtrace.StripPacket

/-! What the parts of `trace_strip_packet` do to a packet: accessors, loop and new capture
length. -/

namespace Libtrace.StripRun
open Exec Orbit ByteOrder Window Protocols PacketAccess PacketDecode PacketLayout HeaderChain
  StripPacket
open PcapFile (PcapPacket packetBufsize)
open PcapRecords (toInt32_of_lt getCaptureLength_of_lt withCaplen setCaptureLength_shorter)
open PacketReuse (bufferSize locateLayer2)

section

variable {p : PcapPacket} {pkt : Packet} {flags : Nat}

section

variable (h : Describes p pkt)
include h

theorem size_eq : pkt.size = pkt.captureLength := by
  have hcovered := h.covered
  unfold Packet.size
  rw [if_neg (by omega), if_neg (by omega)]

theorem getCaptureLength_clear :
    PcapFile.getCaptureLength (clear p) = .ok pkt.captureLength :=
  getCaptureLength_of_lt h.capture pkt.captureLength_lt

theorem getWireLength_eq (flags : Nat) : PcapFile.getWireLength flags p = .ok pkt.wireLength := by
  have hlt := pkt.wireLength_lt
  have hwire := h.wire
  have hmissing : PcapFile.missingFcs flags p = .ok true := if_pos h.type
  have hformat : PcapFile.formatWireLength flags p = .ok (p.wirelen + 4) := by
    rw [PcapFile.formatWireLength, hmissing, ok_bind, if_pos rfl, Nat.mod_eq_of_lt (by omega)]
    rfl
  have hlength : p.wirelen + 4 < packetBufsize := by
    unfold packetBufsize
    omega
  rw [PcapFile.getWireLength, hformat, ok_bind, toInt32_of_lt hlength, hwire,
    if_pos (by unfold packetBufsize; omega)]
  rfl

theorem getLayer2_eq (flags : Nat) :
    StripPacket.getLayer2 flags p = .ok ⟨p.payload.map fun _ => 0, .eth, pkt.captureLength⟩ := by
  have hlink : PcapFile.getLinkType p = .ok .eth := by
    rw [PcapFile.getLinkType, h.type]
    rfl
  have hsize : bufferSize pkt.captureLength pkt.wireLength = pkt.captureLength := by
    have hcovered := h.covered
    unfold bufferSize
    rw [if_neg (by omega), if_neg (by omega)]
    rfl
  have hbuffer : StripPacket.getPacketBuffer flags p =
      .ok ⟨p.payload.map fun _ => 0, .eth, pkt.captureLength⟩ := by
    rw [StripPacket.getPacketBuffer, hlink, ok_bind, getCaptureLength_clear h, ok_bind,
      getWireLength_eq h, ok_bind, if_neg (by omega), hsize]
    rfl
  rw [StripPacket.getLayer2, hbuffer, ok_bind, locateLayer2, if_neg (by simp [isLayer2])]
  rfl

theorem memory_eq {q : Nat} (hq : p.payload = some q) : memory p = pkt.whole := by
  funext i
  rw [memory, hq, Packet.whole, (h.payload q hq).2]
  rfl

theorem getLayer3_eq {q : Nat} (hq : p.payload = some q) (flags ethertype : Nat) :
    StripPacket.getLayer3 flags ethertype p = layer3Of pkt.whole pkt ethertype := by
  rw [StripPacket.getLayer3, getLayer2_eq h, ok_bind, memory_eq h hq, hq, layer3Of, layer2Of,
    h.ethernet, size_eq h]
  rfl

end

def start (pkt : Packet) : Place := ⟨be pkt 12, 14, pkt.size - 14⟩

theorem stackStart_eq (he : pkt.linkType = .eth) (ethertype : Nat) :
    stackStart pkt ethertype = if pkt.size < 14 then none else some (start pkt) := by
  simp only [stackStart, headerStart, he, HeaderChain.payload, fixedLink, after, id]
  rfl

end

section

variable {pkt : Packet} {x y : Place}

theorem strip_eq (m : Memory) (fuel p type removed : Nat) {r : Nat} (hr : r ≠ 0) :
    stripHeaders m (fuel + 1) (some p) type r removed =
      match stackDecoder type with
      | some decoder => decoder m p type r >>= fun f =>
          stripHeaders m fuel f.ptr f.type f.remaining ((removed + (r - f.remaining)) % 65536)
      | none => .ok ⟨some p, type, removed⟩ := by
  rw [stripHeaders, if_neg hr, stackDecoder]
  split_ifs <;> rfl

def finalType (y : Place) : Nat := if y.remaining = 0 then 0 else y.type

/-- The loop ends where there is no next header, or nowhere if that header is cut short. -/
theorem stripHeaders_of_ends (fuel removed : Nat) (h : Ends (stackNext pkt) x y)
    (hfuel : x.remaining + 1 < fuel) (hremoved : removed + x.remaining < 65536) :
    (y.remaining = 0 ∨ isLayer3 y →
      stripHeaders pkt.whole fuel (some x.offset) x.type x.remaining removed =
        .ok ⟨some y.offset, finalType y, removed + (x.remaining - y.remaining)⟩) ∧
    (y.remaining ≠ 0 ∧ ¬ isLayer3 y →
      ∃ removed', stripHeaders pkt.whole fuel (some x.offset) x.type x.remaining removed =
        .ok ⟨none, 0, removed'⟩) := by
  induction fuel generalizing x removed with
  | zero => omega
  | succ fuel ih =>
    by_cases hr : x.remaining = 0
    · obtain rfl := reach_stop (stackNext_of_empty pkt hr) h.1
      refine ⟨fun _ => ?_, fun hy => (hy.1 hr).elim⟩
      rw [stripHeaders, if_pos hr, finalType, if_pos hr, Nat.sub_self, Nat.add_zero]
    · rw [strip_eq pkt.whole fuel x.offset x.type removed hr]
      cases hd : stackDecoder x.type with
      | none =>
        obtain rfl := reach_stop (stackNext_of_decoder hd) h.1
        refine ⟨fun _ => ?_, fun hy => (hy.2 ((isLayer3_iff _).mpr ⟨hr, hd⟩)).elim⟩
        rw [finalType, if_neg hr, Nat.sub_self, Nat.add_zero]
      | some decoder =>
        obtain ⟨z, hz, hok⟩ | ⟨hnone, type, r, hok⟩ := finds_decoder pkt x hd
        · have hsum := stackNext_sum hz
          have hend : Ends (stackNext pkt) z y := (ends_along (reach_head hz (reach_refl z))).mp h
          have hle : y.remaining ≤ z.remaining := by
            refine reach_inv (fun w => w.remaining ≤ z.remaining) (fun a b hab ha => ?_) hend.1
              (Nat.le_refl _)
            have := stackNext_sum hab
            omega
          simp only [hok, ok_bind, Place.found]
          rw [Nat.mod_eq_of_lt (by omega)]
          obtain ⟨hstop, hcut⟩ :=
            ih (removed + (x.remaining - z.remaining)) hend (by omega) (by omega)
          refine ⟨fun hy => ?_, hcut⟩
          rw [hstop hy]
          congr 2
          omega
        · have hnext : stackNext pkt x = none := Option.eq_none_iff_forall_ne_some.mpr hnone
          obtain rfl := reach_stop hnext h.1
          obtain ⟨fuel, rfl⟩ : ∃ k, fuel = k + 1 := ⟨fuel - 1, by omega⟩
          refine ⟨fun hy => ?_, fun _ => ?_⟩
          · obtain hy | hy := hy
            · exact (hr hy).elim
            · exact (not_isLayer3_of_decoder hd hy).elim
          · simp only [hok, ok_bind]
            exact ⟨_, rfl⟩

theorem stackNext_ends (pkt : Packet) (x : Place) : ∃ y, Ends (stackNext pkt) x y :=
  ends_exists Place.remaining (fun _ _ h => (stackNext_sum h).2) x

end

section

variable {p : PcapPacket}

theorem setCaptureLength_eq {c size : Nat} (hc : p.caplen = c) (hlt : c < 65536) (hs : size ≤ c) :
    setCaptureLength p size = .ok (withCaplen p size) := by
  rw [setCaptureLength, setCaptureLength_shorter (p := clear p) hc hlt hs]
  rfl

end

end Libtrace.StripRun
