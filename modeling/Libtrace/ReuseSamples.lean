import Libtrace.PacketDecode
import Libtrace.StaleReplies

/-! Records and the replies of a new packet: an Ethernet frame without captured bytes, and a UDP
datagram. -/

namespace Libtrace.ReuseSamples
open Exec Protocols PacketReuse PacketReplies PacketRefill StaleReplies
open PcapRecords PcapViews PcapCopy
open PcapFile (packetBufsize)
open PacketDecode (lengthOf)

theorem network_written (dlt : Nat) (h : dlt < 2 ^ 32) (time : Nat × Nat) (w : Nat)
    (data : List UInt8) : network (writtenTrace dlt time w data) = dlt := by
  change PcapFile.swapl (writtenHeader dlt) (UInt32.ofNat dlt).toNat = dlt
  exact Nat.mod_eq_of_lt h

def emptyFrame (w : Nat) (hw : w < 2 ^ 32) : Record (writtenTrace 1 (0, 0) w []) :=
  writtenRecord 1 ⟨by decide, by decide⟩ hw (by decide)

def frame60 : Record (writtenTrace 1 (0, 0) 60 []) := emptyFrame 60 (by decide)

def frame61 : Record (writtenTrace 1 (0, 0) 61 []) := emptyFrame 61 (by decide)

def datagram : List UInt8 :=
  [0x45, 0, 0, 29, 0, 0, 0, 0, 64, 17, 0, 0, 10, 0, 0, 1, 10, 0, 0, 2,
    0, 53, 0, 53, 0, 9, 0, 0, 7]

def udpRecord : Record (writtenTrace 101 (0, 0) 29 datagram) :=
  writtenRecord 101 ⟨by decide, by decide⟩ (by decide) (by decide)

structure Uncached (o : PacketObject) : Prop where
  wireLength : o.wireLength = none
  linkType : o.caches.linkType = .legacy
  l2Header : o.caches.l2Header = none
  l3Header : o.caches.l3Header = none
  l4Header : o.caches.l4Header = none

theorem uncached_createPacket (b : Nat → UInt8) : Uncached (createPacket b) :=
  ⟨rfl, rfl, rfl, rfl, rfl⟩

variable {o : PacketObject} {id : Nat}

theorem unasked_emptyFrame (h : Uncached o) {w : Nat} (hw : w < 2 ^ 32) (hsmall : w < 65532) :
    Unasked (settled (loaded (emptyFrame w hw) id o) 0) .eth 0 (w + 4) := by
  have hnet := network_written 1 (by decide) (0, 0) w []
  have hwire : wireOf (emptyFrame w hw) = w + 4 := by
    have hwirelen : (emptyFrame w hw).wirelen = w :=
      (writtenRecord_fields 1 ⟨by decide, by decide⟩ hw (by decide)).2
    rw [wireOf, hwirelen, hnet]
    simp [counted, PcapFile.toInt32]
    omega
  have hun := unasked_loaded (emptyFrame w hw) id (by rw [hnet]; decide)
    (by rw [hwire, packetBufsize]; omega) h.wireLength h.linkType h.l2Header h.l3Header h.l4Header
  rw [hwire, hnet] at hun
  exact hun

theorem unasked_udpRecord (h : Uncached o) :
    Unasked (settled (loaded udpRecord id o) 29) .none 29 29 := by
  have hnet := network_written 101 (by decide) (0, 0) 29 datagram
  have hwire : wireOf udpRecord = 29 := by
    have hwirelen : udpRecord.wirelen = 29 :=
      (writtenRecord_fields 101 ⟨by decide, by decide⟩ (by decide) (by decide)).2
    decide
  have hun := unasked_loaded udpRecord id (by rw [hnet]; decide)
    (by rw [hwire]; decide) h.wireLength h.linkType h.l2Header h.l3Header h.l4Header
  exact hun

theorem settled_emptyFrame {w : Nat} (hw : w < 2 ^ 32) (h : o.captureLength.getD 0 = 0)
    (qs : List Query) :
    replies qs (loaded (emptyFrame w hw) id o) =
      replies qs (settled (loaded (emptyFrame w hw) id o) 0) := by
  apply replies_settled
  change o.captureLength.or (some 0) = some 0
  cases hcap : o.captureLength with
  | none => rfl
  | some n => simpa [hcap] using h

theorem bufferOf_emptyFrame {w : Nat} (hw : w < 2 ^ 32) (x : Int) :
    bufferOf (settled (loaded (emptyFrame w hw) id o) 0) .eth 0 x =
      ⟨o.payload.map fun _ => 0, .eth, 0⟩ := by
  have hsize : bufferSize 0 x = 0 := by
    rw [bufferSize]
    split <;> rfl
  change (⟨_, _, bufferSize 0 x⟩ : Found LinkType) = _
  rw [hsize]
  rfl

theorem getPayloadLength_of_measure {len : Option Int} {o' : PacketObject}
    {flags ethertype inner proto : Nat} (h : o.caches.payloadLength = -1)
    (hlen : measurePayload flags ethertype inner proto (storePayloadLength 0 o) = .ok (len, o')) :
    ∃ o'', getPayloadLength flags ethertype inner proto o = .ok (lengthOf len, o'') := by
  rw [getPayloadLength, get_bind, if_neg (not_not.mpr h), modify_bind, bind_of_ok hlen]
  cases len with
  | none => exact ⟨o', rfl⟩
  | some len => exact ⟨storePayloadLength (Int.bmod len (2 ^ 32)) o', rfl⟩

section

variable (b : Nat → UInt8) (id : Nat) {w : Nat} (hw : w < 2 ^ 32)

def newFrame : PacketObject := settled (loaded (emptyFrame w hw) id (createPacket b)) 0

theorem new_reply {q : Query} {a : Reply} {o' : PacketObject}
    (h : perform q (newFrame b id hw) = .ok (a, o')) :
    replies [q] (loaded (emptyFrame w hw) id (createPacket b)) = [.ok a] := by
  rw [settled_emptyFrame hw rfl]
  exact replies_of_ok h

theorem locateLayer2_newFrame : locateLayer2 (newFrame b id hw).memory
    (bufferOf (newFrame b id hw) .eth 0 (w + 4)) = .ok ⟨none, .eth, 0⟩ := by
  rfl

theorem new_captureLength :
    replies [.captureLength] (loaded (emptyFrame w hw) id (createPacket b)) =
      [.ok (.length 0)] := by
  have hcap : getCaptureLength (newFrame b id hw) = .ok (0, newFrame b id hw) :=
    (getCaptureLength_cached rfl).trans (checkLength_of_lt (by decide))
  exact new_reply b id hw (map_of_ok hcap _)

variable (hsmall : w < 65532)
include hsmall

theorem unasked_newFrame : Unasked (newFrame b id hw) .eth 0 (w + 4) :=
  unasked_emptyFrame (uncached_createPacket b) hw hsmall

theorem new_wireLength :
    replies [.wireLength 0] (loaded (emptyFrame w hw) id (createPacket b)) =
      [.ok (.length (w + 4))] :=
  new_reply b id hw (map_of_ok ((unasked_newFrame b id hw hsmall).wireLength 0 _) _)

theorem new_linkType :
    replies [.linkType] (loaded (emptyFrame w hw) id (createPacket b)) =
      [.ok (.linkType .eth)] :=
  new_reply b id hw (map_of_ok (unasked_newFrame b id hw hsmall).linkType _)

theorem new_layer2 :
    replies [.layer2 0] (loaded (emptyFrame w hw) id (createPacket b)) =
      [.ok (.layer2 ⟨none, .eth, 0⟩)] :=
  new_reply b id hw (map_of_ok (getLayer2_unasked (unasked_newFrame b id hw hsmall) 0
    (locateLayer2_newFrame b id hw)) _)

theorem new_layer3 :
    replies [.layer3 0 0] (loaded (emptyFrame w hw) id (createPacket b)) =
      [.ok (.header ⟨none, 0, 0⟩)] :=
  new_reply b id hw (map_of_ok (getLayer3_unasked (unasked_newFrame b id hw hsmall) 0
    (locateLayer2_newFrame b id hw) 0 rfl) _)

theorem new_transport :
    replies [.transport 0 0 0] (loaded (emptyFrame w hw) id (createPacket b)) =
      [.ok (.header ⟨none, 0, 0⟩)] :=
  new_reply b id hw (map_of_ok (getTransport_unasked (unasked_newFrame b id hw hsmall) 0
    (locateLayer2_newFrame b id hw) 0 0 rfl rfl) _)

theorem new_payloadLength :
    replies [.payloadLength 0 0 0 0] (loaded (emptyFrame w hw) id (createPacket b)) =
      [.ok (.payloadLength 0)] := by
  have hun : Unasked (storePayloadLength 0 (newFrame b id hw)) .eth 0 (w + 4) :=
    unasked_emptyFrame (o := storePayloadLength 0 (createPacket b)) ⟨rfl, rfl, rfl, rfl, rfl⟩ hw
      hsmall
  have hl3 := getLayer3_unasked hun 0 (locateLayer2_newFrame b id hw) 0 rfl
  have hlen : ∃ o', measurePayload 0 0 0 0 (storePayloadLength 0 (newFrame b id hw)) =
      .ok (none, o') := by
    rw [measurePayload, get_bind, bind_of_ok hl3]
    exact ⟨_, rfl⟩
  obtain ⟨o', ho'⟩ := hlen
  obtain ⟨o'', ho''⟩ := getPayloadLength_of_measure rfl ho'
  exact new_reply b id hw (map_of_ok ho'' _)

end

theorem udp_linkType (b : Nat → UInt8) :
    replies [.linkType] (loaded udpRecord id (createPacket b)) = [.ok (.linkType .none)] :=
  replies_of_ok (map_of_ok (unasked_udpRecord (uncached_createPacket b)).linkType _)

theorem bytes_datagram {m : Memory} {b : Nat → UInt8} (hm : m = payloadMemory datagram b) :
    byte m 0 = .ok 0x45 ∧ be16 m 2 = .ok 29 ∧ be16 m 6 = .ok 0 ∧ byte m 9 = .ok 17 := by
  have h2 : byte m 2 = .ok 0 := hm ▸ rfl
  have h3 : byte m 3 = .ok 29 := hm ▸ rfl
  have h6 : byte m 6 = .ok 0 := hm ▸ rfl
  have h7 : byte m 7 = .ok 0 := hm ▸ rfl
  refine ⟨hm ▸ rfl, ?_, ?_, hm ▸ rfl⟩
  · rw [be16, h2, ok_bind, h3]
    rfl
  · rw [be16, h6, ok_bind, h7]
    rfl

theorem udp_payloadLength (b : Nat → UInt8) :
    replies [.payloadLength 0 0 0 0] (loaded udpRecord id (createPacket b)) =
      [.ok (.payloadLength 1)] := by
  set o := storePayloadLength 0 (loaded udpRecord id (createPacket b)) with ho
  have hun : Unasked o .none 29 29 :=
    unasked_udpRecord (o := storePayloadLength 0 (createPacket b)) ⟨rfl, rfl, rfl, rfl, rfl⟩
  have hmem : o.memory = payloadMemory datagram b := memoryAt_packet udpRecord b
  obtain ⟨h0, h2, h6, h9⟩ := bytes_datagram hmem
  have hlink : locateLayer2 o.memory (bufferOf o .none 29 29) = .ok ⟨some 0, .none, 29⟩ := rfl
  have hl3 : locateLayer3 o.memory ⟨some 0, .none, 29⟩ 0 = .ok ⟨some 0, ethertypeIp, 29⟩ := by
    have htype : nibbleType o.memory 0 0 = .ok ethertypeIp := by
      rw [nibbleType, h0]
      rfl
    rw [locateLayer3, PacketAccess.findLayer3]
    simp only [getPayloadFromLayer2, htype, ok_bind]
    rfl
  have hlen : PacketAccess.layer3Length o.memory 0 ethertypeIp 29 = .ok (some 9) := by
    rw [PacketAccess.layer3Length, if_pos rfl, if_neg (by decide), h0, ok_bind, h2, ok_bind, h9]
    rfl
  have hl4 : PacketAccess.findTransport o.memory 0 ethertypeIp 0 29 = .ok ⟨some 20, 17, 9⟩ := by
    have hip : getPayloadFromIp o.memory 0 0 29 = .ok ⟨some 20, 17, 9⟩ := by
      simp only [getPayloadFromIp, h0, h6, h9, ok_bind, Nat.zero_add]
      rfl
    rw [PacketAccess.findTransport, if_pos rfl, hip]
    rfl
  obtain ⟨o', ho'⟩ := measurePayload_unasked hun 0 hlink 0 0 0 hl3 hlen hl4 rfl
  obtain ⟨o'', ho''⟩ := getPayloadLength_of_measure rfl ho'
  exact replies_of_ok (map_of_ok ho'' _)

end Libtrace.ReuseSamples
