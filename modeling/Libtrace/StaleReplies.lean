import Libtrace.PacketRefill

/-! For each thing that an accessor returns there is a record that makes a used packet object differ
from a new one. -/

namespace Libtrace.StaleReplies
open Exec Protocols PacketReuse PacketReplies PacketRefill PcapRecords PcapViews
open PacketAccess (Caches)
open PcapFile (Trace PcapPacket packetBufsize pcapLinktypeToRt toInt32)

section

variable {o : PacketObject}

theorem replies_of_ok {q : Query} {a : Reply} {o' : PacketObject} (h : perform q o = .ok (a, o')) :
    replies [q] o = [.ok a] := by
  rw [replies, h]
  rfl

variable {n : Int} {p : PcapPacket}

theorem checkLength_of_lt (h : n < packetBufsize) : checkLength n o = .ok (n, o) := by
  rw [checkLength, if_pos h]
  rfl

theorem getLinkType_cached (h : o.caches.linkType ≠ .legacy) :
    getLinkType o = .ok (o.caches.linkType, o) := by
  rw [getLinkType, get_bind, if_neg h]
  rfl

theorem getLinkType_uncached {linktype : LinkType} (h : o.caches.linkType = .legacy)
    (hp : o.described = .ok p) (hlt : PcapFile.getLinkType p = .ok linktype) :
    getLinkType o =
      .ok (linktype, { o with caches := { o.caches with linkType := linktype } }) := by
  rw [getLinkType, get_bind, if_pos h]
  simp only [hp, hlt, lift_bind, ok_bind, modify_bind]
  rfl

theorem getWireLength_cached (flags : Nat) (h : o.wireLength = some n) :
    getWireLength flags o = checkLength n o := by
  rw [getWireLength, get_bind, h]

theorem getWireLength_uncached {missing : Bool} {flags : Nat}
    (h : o.wireLength = none) (hp : o.withHeader = .ok p) (hradio : p.type ≠ pcapLinktypeToRt 127)
    (hfcs : PcapFile.missingFcs flags p = .ok missing)
    (hw : wireLengthOf p missing < packetBufsize) :
    getWireLength flags o = .ok (wireLengthOf p missing,
      { o with wireLength := cacheInt (wireLengthOf p missing) }) := by
  have hmissing : missingFcs flags o = .ok (missing, o) := by
    rw [missingFcs, get_bind]
    simp only [hp, lift_bind, ok_bind, if_neg hradio, hfcs]
    rfl
  rw [getWireLength, get_bind, h]
  simp only [hp, lift_bind, ok_bind]
  rw [bind_of_ok hmissing, modify_bind, checkLength_of_lt hw]

end

def typed (o : PacketObject) (linktype : LinkType) : PacketObject :=
  { o with caches := { o.caches with linkType := linktype } }

def asked (o : PacketObject) (linktype : LinkType) (w : Int) : PacketObject :=
  { typed o linktype with wireLength := cacheInt w }

/-- The accessors have to look at the record for type, wire length `w` and layers. -/
structure Unasked (o : PacketObject) (linktype : LinkType) (n : Nat) (w : Int) : Prop where
  linkType : getLinkType o = .ok (linktype, typed o linktype)
  captureLength : o.captureLength = some n
  captureLength_lt : n < packetBufsize
  wireLength (flags : Nat) (c : Caches) :
    getWireLength flags { o with caches := c } =
      .ok (w, { o with wireLength := cacheInt w, caches := c })
  l2Header : o.caches.l2Header = none
  l3Header : o.caches.l3Header = none
  l4Header : o.caches.l4Header = none

section

variable {o : PacketObject} {linktype : LinkType} {n : Nat} {w : Int}

def bufferOf (o : PacketObject) (linktype : LinkType) (n : Nat) (w : Int) : Found LinkType :=
  ⟨o.payload.map fun _ => 0, linktype, bufferSize n w⟩

theorem getPacketBuffer_unasked (h : Unasked o linktype n w) (flags : Nat) :
    getPacketBuffer flags o = .ok (bufferOf o linktype n w, asked o linktype w) := by
  have hlt := h.captureLength_lt
  have hcap : getCaptureLength (typed o linktype) = .ok ((n : Int), typed o linktype) := by
    rw [getCaptureLength_cached (o := typed o linktype) h.captureLength]
    exact checkLength_of_lt (by omega)
  have hwire : getWireLength flags (typed o linktype) = .ok (w, asked o linktype w) :=
    h.wireLength flags _
  rw [getPacketBuffer, bind_of_ok h.linkType, bind_of_ok hcap, bind_of_ok hwire,
    if_neg (by omega)]
  rfl

def found2 (o : PacketObject) (found : Found LinkType) : PacketObject :=
  { o with caches := o.caches.storeL2 found }

variable {link : Found LinkType} {found : Found Nat} {p type remaining : Nat}

def found3 (o : PacketObject) (found : Found Nat) : PacketObject :=
  { o with caches := o.caches.storeL3 found }

theorem getLayer3_cached (h : o.caches.l3Header = some p) (flags ethertype : Nat) :
    getLayer3 flags ethertype o =
      .ok (⟨some p, o.caches.l3Ethertype, o.caches.l3Remaining⟩, o) := by
  rw [getLayer3, get_bind, h]
  rfl

theorem getTransport_of_layer3 {o₃ : PacketObject} (h : o.caches.l4Header = none)
    {flags proto ethertype : Nat}
    (hl3 : getLayer3 flags ethertype o = .ok (⟨some p, type, remaining⟩, o₃))
    (hfound : PacketAccess.findTransport o.memory p type proto remaining = .ok found) :
    getTransport flags proto ethertype o =
      .ok (found, { o₃ with caches := o₃.caches.storeL4 found }) := by
  rw [getTransport, get_bind, h]
  change (getLayer3 flags ethertype >>= _) o = _
  rw [bind_of_ok hl3]
  simp only [hfound, lift_bind, ok_bind, modify_bind]
  rfl

section

variable (h : Unasked o linktype n w) (flags : Nat)
  (hlink : locateLayer2 o.memory (bufferOf o linktype n w) = .ok link) (ethertype : Nat)
include h hlink

theorem getLayer2_unasked : getLayer2 flags o = .ok (link, found2 (asked o linktype w) link) := by
  rw [getLayer2, get_bind, h.l2Header]
  change (getPacketBuffer flags >>= _) o = _
  rw [bind_of_ok (getPacketBuffer_unasked h flags), hlink]
  rfl

theorem getLayer3_unasked (hfound : locateLayer3 o.memory link ethertype = .ok found) :
    getLayer3 flags ethertype o =
      .ok (found, found3 (found2 (asked o linktype w) link) found) := by
  rw [getLayer3, get_bind, h.l3Header]
  change (linkHeader flags o.caches >>= _) o = _
  have hheader : linkHeader flags o.caches = getLayer2 flags := by
    rw [linkHeader, h.l2Header]
    rfl
  rw [hheader, bind_of_ok (getLayer2_unasked h flags hlink), hfound]
  rfl

theorem getTransport_unasked (proto : Nat)
    (hfound : locateLayer3 o.memory link ethertype = .ok found) (hnone : found.ptr = none) :
    getTransport flags proto ethertype o =
      .ok (⟨none, proto, found.remaining⟩, found3 (found2 (asked o linktype w) link) found) := by
  rw [getTransport, get_bind, h.l4Header]
  change (getLayer3 flags ethertype >>= _) o = _
  rw [bind_of_ok (getLayer3_unasked h flags hlink ethertype hfound), hnone]
  rfl

theorem measurePayload_unasked (inner proto : Nat) {q proto' remaining' : Nat} {len : Int}
    {result : Option Int}
    (hl3 : locateLayer3 o.memory link ethertype = .ok ⟨some p, type, remaining⟩)
    (hlen : PacketAccess.layer3Length o.memory p type remaining = .ok (some len))
    (hl4 : PacketAccess.findTransport o.memory p type proto remaining =
      .ok ⟨some q, proto', remaining'⟩)
    (hresult : PacketAccess.transportLength o.memory q proto' remaining' len = .ok result) :
    ∃ o', measurePayload flags ethertype inner proto o = .ok (result, o') := by
  set o₃ := found3 (found2 (asked o linktype w) link) ⟨some p, type, remaining⟩ with ho₃
  have hnone : o₃.caches.l4Header = none := by
    rw [ho₃, found3, found2, Caches.storeL2]
    split <;> exact h.l4Header
  obtain ⟨o₄, htransport⟩ : ∃ o₄, getTransport flags proto inner o₃ =
      .ok (⟨some q, proto', remaining'⟩, o₄) :=
    ⟨_, getTransport_of_layer3 hnone (getLayer3_cached (p := p) rfl flags inner) hl4⟩
  refine ⟨o₄, ?_⟩
  rw [measurePayload, get_bind, bind_of_ok (getLayer3_unasked h flags hlink ethertype hl3)]
  simp only [hlen, lift_bind, ok_bind]
  rw [bind_of_ok htransport]
  simp only [hresult]
  rfl

end

end

def settled (o : PacketObject) (n : Nat) : PacketObject := { o with captureLength := some n }

theorem replies_settled {o : PacketObject} {n : Nat}
    (h : o.captureLength.or (headerLength o) = some (n : Int)) (qs : List Query) :
    replies qs o = replies qs (settled o n) := by
  apply replies_tidy
  change { o with captureLength := o.captureLength.or (headerLength o), caches := _ } =
    { o with captureLength := some _, caches := _ }
  rw [h]
  rfl

section

variable {t : Trace} (r : Record t) (id : Nat) {o : PacketObject}

def wireOf : Int := toInt32 (counted (network t = 1) r.wirelen)

theorem unasked_loaded (hnet : network t ∈ [1, 101]) (hw : wireOf r < packetBufsize)
    (hwire : o.wireLength = none) (hlink : o.caches.linkType = .legacy)
    (hl2 : o.caches.l2Header = none) (hl3 : o.caches.l3Header = none)
    (hl4 : o.caches.l4Header = none) :
    Unasked (settled (loaded r id o) r.body.length)
      (PcapFile.pcapLinktypeToLibtrace (network t)) r.body.length (wireOf r) := by
  set p : PcapPacket := ⟨⟨(loaded r id o).buffer, (loaded r id o).payload, none⟩, t.header,
    pcapLinktypeToRt (network t)⟩ with hp
  have hwirelen : p.wirelen = r.wirelen := packet_field r _ (by decide)
  have hall : ∀ d ∈ [1, 101], Direct d ∧ pcapLinktypeToRt d ≠ pcapLinktypeToRt 127 ∧
      pcapLinktypeToRt d ≠ pcapLinktypeToRt 113 ∧
      (pcapLinktypeToRt d = pcapLinktypeToRt 1 ↔ d = 1) := by decide
  obtain ⟨hdirect, hradio, hsll, heth⟩ := hall _ hnet
  have hfcs (flags : Nat) : PcapFile.missingFcs flags p = .ok (network t = 1) := by
    by_cases h : network t = 1
    · simp [PcapFile.missingFcs, hp, h]
    · simp [PcapFile.missingFcs, hp, heth, hradio, hsll, h]
  have hlength : wireLengthOf p (network t = 1) = wireOf r := by
    rw [wireLengthOf, hwirelen]
    rfl
  constructor
  · exact getLinkType_uncached hlink rfl (getLinkType_direct hdirect rfl)
  · rfl
  · exact r.accepted
  · intro flags c
    have h := getWireLength_uncached (p := p)
      (o := { settled (loaded r id o) r.body.length with caches := c }) hwire rfl hradio
      (hfcs flags) (hlength ▸ hw)
    rw [hlength] at h
    exact h
  · exact hl2
  · exact hl3
  · exact hl4

end

end Libtrace.StaleReplies
