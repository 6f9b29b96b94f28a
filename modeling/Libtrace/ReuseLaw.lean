import Libtrace.ReuseSamples

/-! When a packet object can be read into again: it is finished before the next record only if that
is of the same trace. -/

namespace Libtrace.ReuseLaw
open Exec Protocols PacketReuse PacketReplies PacketRefill StaleReplies ReuseSamples
open PcapRecords PcapCopy
open PacketAccess (toSize)
open PcapFile (Trace packetBufsize pktHdrSize)

section

variable {o : PacketObject}

def lengthReply (n : Int) : Decode Reply :=
  if n < packetBufsize then .ok (.length n) else .error .assertion

theorem replies_length {q : Query} {m : Use Int} {n : Int} (hq : perform q = Reply.length <$> m)
    (hm : m o = checkLength n o) : replies [q] o = [lengthReply n] := by
  rw [replies, hq, lengthReply]
  by_cases hn : n < packetBufsize
  · rw [map_of_ok (hm.trans (checkLength_of_lt hn)), if_pos hn]
    rfl
  · rw [checkLength, if_neg hn] at hm
    rw [map_eq_pure_bind, bind_of_error hm, if_neg hn]

theorem cached_captureLength {n : Int} (h : o.captureLength = some n) :
    replies [.captureLength] o = [lengthReply n] :=
  replies_length rfl (getCaptureLength_cached h)

theorem cached_wireLength {n : Int} (h : o.wireLength = some n) :
    replies [.wireLength 0] o = [lengthReply n] :=
  replies_length rfl (getWireLength_cached 0 h)

theorem lengthReply_eq {n k : Int} (h : lengthReply n = .ok (.length k)) : n = k := by
  rw [lengthReply] at h
  split at h
  · simpa using h
  · cases h

theorem cached_linkType (h : o.caches.linkType ≠ .legacy) :
    replies [.linkType] o = [.ok (.linkType o.caches.linkType)] :=
  replies_of_ok (map_of_ok (getLinkType_cached h) _)

theorem cached_layer2 {p : Nat} (h : o.caches.l2Header = some p) :
    replies [.layer2 0] o =
      [.ok (.layer2 ⟨some p, o.caches.linkType, o.caches.l2Remaining⟩)] := by
  have hcached : getLayer2 0 o =
      .ok (⟨some p, o.caches.linkType, o.caches.l2Remaining⟩, o) := by
    rw [getLayer2, get_bind, h]
    rfl
  exact replies_of_ok (map_of_ok hcached _)

theorem cached_layer3 {p : Nat} (h : o.caches.l3Header = some p) :
    replies [.layer3 0 0] o =
      [.ok (.header ⟨some p, o.caches.l3Ethertype, o.caches.l3Remaining⟩)] :=
  replies_of_ok (map_of_ok (getLayer3_cached h 0 0) _)

theorem cached_transport {p : Nat} (h : o.caches.l4Header = some p) :
    replies [.transport 0 0 0] o =
      [.ok (.header ⟨some p, o.caches.transportProto, o.caches.l4Remaining⟩)] := by
  have hcached : getTransport 0 0 0 o =
      .ok (⟨some p, o.caches.transportProto, o.caches.l4Remaining⟩, o) := by
    rw [getTransport, get_bind, h]
    rfl
  exact replies_of_ok (map_of_ok hcached _)

theorem cached_payloadLength (h : o.caches.payloadLength ≠ -1) :
    replies [.payloadLength 0 0 0 0] o =
      [.ok (.payloadLength (toSize o.caches.payloadLength))] := by
  have hcached : getPayloadLength 0 0 0 0 o = .ok (toSize o.caches.payloadLength, o) := by
    rw [getPayloadLength, get_bind, if_pos h]
    rfl
  exact replies_of_ok (map_of_ok hcached _)

end

section

variable {o : PacketObject} {id : Nat} (h : ∀ t, ReadsLikeNew o id t)
  (hother : o.trace.map Origin.id ≠ some id)
include h hother

theorem replies_agree {t : Trace} (r : Record t) (hfit : pktHdrSize + r.body.length ≤ packetBufsize)
    {q : Query} {a a' : Decode Reply} (hstale : replies [q] (loaded r id o) = [a])
    (hnew : replies [q] (loaded r id (createPacket o.buffer)) = [a']) : a = a' := by
  have heq := (h t).replies_eq hother r hfit [q]
  rw [hstale, hnew] at heq
  exact List.singleton_inj.mp heq

theorem captureLength_of_like : o.captureLength.getD 0 = 0 := by
  cases hcap : o.captureLength with
  | none => rfl
  | some n =>
    have hreply := replies_agree h hother frame60 (by decide) (cached_captureLength hcap)
      (new_captureLength o.buffer id (by decide))
    exact lengthReply_eq hreply

theorem wireLength_of_like : o.wireLength = none := by
  cases hwire : o.wireLength with
  | none => rfl
  | some n =>
    have h60 := lengthReply_eq (replies_agree h hother frame60 (by decide)
      (cached_wireLength hwire) (new_wireLength o.buffer id (by decide) (by decide)))
    have h61 := lengthReply_eq (replies_agree h hother frame61 (by decide)
      (cached_wireLength hwire) (new_wireLength o.buffer id (by decide) (by decide)))
    omega

theorem linkType_of_like : o.caches.linkType = .legacy := by
  by_contra hne
  have hframe := replies_agree h hother frame60 (by decide) (cached_linkType hne)
    (new_linkType o.buffer id (by decide) (by decide))
  have hudp := replies_agree h hother udpRecord (by decide) (cached_linkType hne)
    (udp_linkType o.buffer)
  have htype := hframe.symm.trans hudp
  simp at htype

theorem l2Header_of_like : o.caches.l2Header = none := by
  cases hl2 : o.caches.l2Header with
  | none => rfl
  | some p =>
    have hreply := replies_agree h hother frame60 (by decide) (cached_layer2 hl2)
      (new_layer2 o.buffer id (by decide) (by decide))
    simp at hreply

theorem l3Header_of_like : o.caches.l3Header = none := by
  cases hl3 : o.caches.l3Header with
  | none => rfl
  | some p =>
    have hreply := replies_agree h hother frame60 (by decide) (cached_layer3 hl3)
      (new_layer3 o.buffer id (by decide) (by decide))
    simp at hreply

theorem l4Header_of_like : o.caches.l4Header = none := by
  cases hl4 : o.caches.l4Header with
  | none => rfl
  | some p =>
    have hreply := replies_agree h hother frame60 (by decide) (cached_transport hl4)
      (new_transport o.buffer id (by decide) (by decide))
    simp at hreply

theorem payloadLength_of_like : o.caches.payloadLength = -1 := by
  by_contra hne
  have hframe := replies_agree h hother frame60 (by decide) (cached_payloadLength hne)
    (new_payloadLength o.buffer id (by decide) (by decide))
  have hudp := replies_agree h hother udpRecord (by decide) (cached_payloadLength hne)
    (udp_payloadLength o.buffer)
  have hlen := hframe.symm.trans hudp
  simp at hlen

theorem payload_of_like : o.payload = none := by
  have huncached : Uncached o := ⟨wireLength_of_like h hother, linkType_of_like h hother,
    l2Header_of_like h hother, l3Header_of_like h hother, l4Header_of_like h hother⟩
  have hun : Unasked (settled (loaded frame60 id o) 0) .eth 0 (60 + 4) :=
    unasked_emptyFrame huncached (by decide) (by decide)
  cases hpayload : o.payload with
  | none => rfl
  | some q =>
    have hlink : locateLayer2 (settled (loaded frame60 id o) 0).memory
        (bufferOf (settled (loaded frame60 id o) 0) .eth 0 (60 + 4)) = .ok ⟨some 0, .eth, 0⟩ := by
      rw [frame60, bufferOf_emptyFrame, hpayload]
      rfl
    have hstale : replies [.layer2 0] (loaded frame60 id o) =
        [.ok (.layer2 ⟨some 0, .eth, 0⟩)] := by
      rw [frame60, settled_emptyFrame _ (captureLength_of_like h hother)]
      exact replies_of_ok (map_of_ok (getLayer2_unasked hun 0 hlink) _)
    have hreply := replies_agree h hother frame60 (by decide) hstale
      (new_layer2 o.buffer id (by decide) (by decide))
    simp at hreply

end

/-- Every record of the trace `id` reads like new if the packet was read from that trace before, or
nothing is left in it. -/
theorem readsLikeNew_iff (o : PacketObject) (id : Nat) :
    (∀ t, ReadsLikeNew o id t) ↔ o.trace.map Origin.id = some id ∨ Clean o := by
  constructor
  · intro h
    by_cases hown : o.trace.map Origin.id = some id
    · exact .inl hown
    · exact .inr
        { payload := payload_of_like h hown
          captureLength := captureLength_of_like h hown
          wireLength := wireLength_of_like h hown
          linkType := linkType_of_like h hown
          l2Header := l2Header_of_like h hown
          l3Header := l3Header_of_like h hown
          l4Header := l4Header_of_like h hown
          payloadLength := payloadLength_of_like h hown }
  · rintro (hown | hclean) t
    · exact readsLikeNew_of_own hown t
    · exact readsLikeNew_of_clean hclean t

def frameTrace (w : Nat) : Trace := writtenTrace 1 (0, 0) w (List.replicate 14 0)

def queried (q : Query) (o : PacketObject) : PacketObject :=
  match perform q o with
  | .ok (_, o') => o'
  | .error _ => o

def askedFrame : PacketObject :=
  queried (.wireLength 0) (afterRead 0 (frameTrace 60) (createPacket fun _ => 0))

/-- The frame is 1004 bytes long with its checksum, but the packet still answers 64. -/
theorem askedFrame_not_readsLikeNew : ¬ ReadsLikeNew askedFrame 1 (frameTrace 1000) := by
  intro h
  have hreply := (h 30 (by decide +kernel)).2 [.wireLength 0]
  have hstale : replies [.wireLength 0] (afterRead 1 (frameTrace 1000) askedFrame) =
      [.ok (.length 64)] := by decide +kernel
  have hnew : replies [.wireLength 0] (afterRead 1 (frameTrace 1000)
      (createPacket askedFrame.buffer)) = [.ok (.length 1004)] := by decide +kernel
  rw [hstale, hnew] at hreply
  simp at hreply

end Libtrace.ReuseLaw
