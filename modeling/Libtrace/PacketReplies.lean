import Libtrace.PacketReuse
import Libtrace.Unseen

/-! What a packet object shows of its state: a capture length is the same whether it is cached or
still in the header. -/

namespace Libtrace.PacketReplies
open Exec Protocols PacketReuse Unseen
open PacketAccess (Caches)
open PcapFile (PcapPacket toInt32)

def kept (header : Option Nat) (value : Nat) : Nat := if header.isSome then value else 0

@[simp] theorem kept_kept (header : Option Nat) (value : Nat) :
    kept header (kept header value) = kept header value := by
  cases header <;> rfl

@[simp] theorem kept_some (p value : Nat) : kept (some p) value = value := rfl

@[simp] theorem kept_none (value : Nat) : kept none value = 0 := rfl

def tidyCaches (c : Caches) : Caches where
  linkType := c.linkType
  l2Header := c.l2Header
  l2Remaining := kept c.l2Header c.l2Remaining
  l3Header := c.l3Header
  l3Ethertype := kept c.l3Header c.l3Ethertype
  l3Remaining := kept c.l3Header c.l3Remaining
  l4Header := c.l4Header
  transportProto := kept c.l4Header c.transportProto
  l4Remaining := kept c.l4Header c.l4Remaining
  payloadLength := c.payloadLength

def headerLength (o : PacketObject) : Option Int :=
  match o.withHeader with
  | .error _ => none
  | .ok p => cacheInt (toInt32 p.caplen)

def tidy (o : PacketObject) : PacketObject :=
  { o with captureLength := o.captureLength.or (headerLength o), caches := tidyCaches o.caches }

theorem tidyCaches_tidyCaches (c : Caches) : tidyCaches (tidyCaches c) = tidyCaches c := by
  simp [tidyCaches]

theorem tidy_update (o : PacketObject) (wire : Option Int) {c c' : Caches}
    (hc : tidyCaches c = tidyCaches c') :
    tidy { o with wireLength := wire, caches := c } =
      tidy { tidy o with wireLength := wire, caches := c' } := by
  have hlength : o.captureLength.or (headerLength o) =
      (o.captureLength.or (headerLength o)).or (headerLength o) := by
    cases o.captureLength <;> cases headerLength o <;> rfl
  change { o with
      captureLength := o.captureLength.or (headerLength o)
      wireLength := wire
      caches := tidyCaches c } =
    { o with
      captureLength := (o.captureLength.or (headerLength o)).or (headerLength o)
      wireLength := wire
      caches := tidyCaches c' }
  rw [← hlength, hc]

theorem tidy_tidy (o : PacketObject) : tidy (tidy o) = tidy o :=
  (tidy_update o o.wireLength (tidyCaches_tidyCaches o.caches).symm).symm

section

variable {α : Type}

theorem blind_value (a : α) : Blind tidy (pure a : Use α) := blind_pure a tidy_tidy

theorem blind_decode (d : Decode α) : Blind tidy (liftM d : Use α) := blind_lift d tidy_tidy

end

theorem blind_modify_caches {g : Caches → Caches}
    (hg : ∀ c, tidyCaches (g c) = tidyCaches (g (tidyCaches c))) :
    Blind tidy (modify fun o => { o with caches := g o.caches } : Use PUnit) :=
  blind_modify fun o => tidy_update o o.wireLength (hg o.caches)

theorem blind_checkLength (n : Int) : Blind tidy (checkLength n) := by
  unfold checkLength
  split
  · exact blind_value n
  · exact blind_throw _

theorem blind_getLinkType : Blind tidy getLinkType := by
  apply blind_get_bind
  · exact fun o => rfl
  · intro o
    split
    · refine blind_bind (blind_decode _) fun p => ?_
      refine blind_bind (blind_decode _) fun type => ?_
      refine blind_bind ?_ fun _ => blind_value _
      exact blind_modify_caches (g := ({ · with linkType := type })) fun c => by
        simp [tidyCaches]
    · exact blind_value _

variable {o : PacketObject}

theorem getCaptureLength_cached {n : Int} (h : o.captureLength = some n) :
    getCaptureLength o = checkLength n o := by
  rw [getCaptureLength, get_bind, h]

theorem getCaptureLength_error {e : Fault} (h : o.captureLength = none)
    (hp : o.withHeader = .error e) : getCaptureLength o = .error e := by
  rw [getCaptureLength, get_bind, h]
  simp only [hp, lift_bind]
  rfl

theorem getCaptureLength_read {p : PcapPacket} (h : o.captureLength = none)
    (hp : o.withHeader = .ok p) :
    getCaptureLength o =
      checkLength (toInt32 p.caplen) { o with captureLength := cacheInt (toInt32 p.caplen) } := by
  rw [getCaptureLength, get_bind, h]
  simp only [hp, lift_bind, ok_bind, modify_bind]

theorem tidy_captured {n : Option Int} (h : o.captureLength = none) (hn : headerLength o = n) :
    tidy { o with captureLength := n } = tidy (tidy o) := by
  rw [tidy_tidy]
  change { o with captureLength := n.or (headerLength o), caches := tidyCaches o.caches } =
    { o with captureLength := o.captureLength.or (headerLength o), caches := tidyCaches o.caches }
  rw [h, hn, Option.or_self, Option.none_or]

theorem blind_getCaptureLength : Blind tidy getCaptureLength := by
  intro o
  cases h : o.captureLength with
  | some n =>
    have htidy : (tidy o).captureLength = some n := by rw [tidy, h, Option.some_or]
    rw [getCaptureLength_cached h, getCaptureLength_cached htidy]
    exact blind_checkLength n o
  | none =>
    have htidy : (tidy o).captureLength = headerLength o := by rw [tidy, h, Option.none_or]
    cases hp : o.withHeader with
    | error e =>
      have hnone : headerLength o = none := by rw [headerLength, hp]
      rw [getCaptureLength_error h hp, getCaptureLength_error (htidy.trans hnone) hp]
    | ok p =>
      have hheader : headerLength o = cacheInt (toInt32 p.caplen) := by rw [headerLength, hp]
      rw [getCaptureLength_read h hp]
      by_cases hn : toInt32 p.caplen = -1
      · -- a length of -1 is not cached: the next call looks at the header again
        have hnone : cacheInt (toInt32 p.caplen) = none := if_pos hn
        rw [getCaptureLength_read (htidy.trans (hheader.trans hnone)) hp, hnone]
        apply (blind_checkLength _).seen_eq
        exact congrArg (fun c => { o with captureLength := headerLength o, caches := c })
          (tidyCaches_tidyCaches o.caches).symm
      · have hsome : cacheInt (toInt32 p.caplen) = some (toInt32 p.caplen) := if_neg hn
        rw [getCaptureLength_cached (htidy.trans (hheader.trans hsome))]
        exact (blind_checkLength _).seen_eq (tidy_captured h hheader)

section

variable (flags : Nat)
include flags

theorem blind_missingFcs : Blind tidy (missingFcs flags) := by
  apply blind_get_bind
  · exact fun o => rfl
  · intro o
    refine blind_bind (blind_decode _) fun p => ?_
    split
    · refine blind_bind blind_getLinkType fun linktype => ?_
      refine blind_bind (blind_decode _) fun found => ?_
      exact blind_value _
    · exact blind_decode _

theorem blind_getWireLength : Blind tidy (getWireLength flags) := by
  apply blind_get_bind
  · exact fun o => rfl
  · intro o
    split
    · exact blind_checkLength _
    · refine blind_bind (blind_decode _) fun p => ?_
      refine blind_bind (blind_missingFcs flags) fun missing => ?_
      refine blind_bind ?_ fun _ => blind_checkLength _
      exact blind_modify fun o => tidy_update o _ (tidyCaches_tidyCaches o.caches).symm

theorem blind_getPacketBuffer : Blind tidy (getPacketBuffer flags) := by
  refine blind_bind blind_getLinkType fun linktype => ?_
  refine blind_bind blind_getCaptureLength fun capture => ?_
  refine blind_bind (blind_getWireLength flags) fun wire => ?_
  split
  · exact blind_throw _
  · apply blind_get_bind
    · exact fun o => rfl
    · exact fun o => blind_value _

theorem blind_getLayer2 : Blind tidy (getLayer2 flags) := by
  apply blind_get_bind
  · intro o
    cases h : o.caches.l2Header with
    | none => simp [tidy, tidyCaches, h]; rfl
    | some p => simp [tidy, tidyCaches, h]
  · intro o
    split
    · exact blind_value _
    · refine blind_bind (blind_getPacketBuffer flags) fun buffer => ?_
      refine blind_bind (blind_decode _) fun found => ?_
      refine blind_bind ?_ fun _ => blind_value _
      apply blind_modify_caches (g := (·.storeL2 found))
      intro c
      cases h : found.ptr <;> simp [Caches.storeL2, tidyCaches, h]

theorem blind_linkHeader (c : Caches) : Blind tidy (linkHeader flags c) := by
  unfold linkHeader
  split
  · exact blind_value _
  · exact blind_getLayer2 flags

theorem linkHeader_tidyCaches (c : Caches) :
    linkHeader flags (tidyCaches c) = linkHeader flags c := by
  cases h : c.l2Header <;> simp [linkHeader, tidyCaches, h]

end

theorem blind_getLayer3 (flags ethertype : Nat) : Blind tidy (getLayer3 flags ethertype) := by
  apply blind_get_bind
  · intro o
    change ite _ _ (linkHeader flags (tidyCaches o.caches) >>= _) = _
    rw [linkHeader_tidyCaches]
    cases h : o.caches.l3Header with
    | none => simp [tidy, tidyCaches, h]; rfl
    | some p => simp [tidy, tidyCaches, h]
  · intro o
    split
    · exact blind_value _
    · refine blind_bind (blind_linkHeader flags _) fun link => ?_
      refine blind_bind (blind_decode _) fun found => ?_
      refine blind_bind ?_ fun _ => blind_value _
      apply blind_modify_caches (g := (·.storeL3 found))
      intro c
      cases h : found.ptr <;> simp [Caches.storeL3, tidyCaches, h]

theorem blind_getTransport (flags proto ethertype : Nat) :
    Blind tidy (getTransport flags proto ethertype) := by
  apply blind_get_bind
  · intro o
    cases h : o.caches.l4Header with
    | none => simp [tidy, tidyCaches, h]; rfl
    | some p => simp [tidy, tidyCaches, h]
  · intro o
    split
    · exact blind_value _
    · refine blind_bind (blind_getLayer3 flags ethertype) fun l3 => ?_
      split
      · exact blind_value _
      · refine blind_bind (blind_decode _) fun found => ?_
        refine blind_bind ?_ fun _ => blind_value _
        exact blind_modify_caches (g := (·.storeL4 found)) fun c => by
          simp [Caches.storeL4, tidyCaches]

theorem blind_measurePayload (flags ethertype inner proto : Nat) :
    Blind tidy (measurePayload flags ethertype inner proto) := by
  apply blind_get_bind
  · exact fun o => rfl
  · intro o
    refine blind_bind (blind_getLayer3 flags ethertype) fun l3 => ?_
    split
    · exact blind_value _
    · refine blind_bind (blind_decode _) fun len => ?_
      split
      · exact blind_value _
      · refine blind_bind (blind_getTransport flags proto inner) fun l4 => ?_
        split
        · exact blind_value _
        · exact blind_decode _

theorem blind_storePayloadLength (len : Int) :
    Blind tidy (modify (storePayloadLength len) : Use PUnit) :=
  blind_modify_caches (g := ({ · with payloadLength := len })) fun c => by simp [tidyCaches]

theorem blind_getPayloadLength (flags ethertype inner proto : Nat) :
    Blind tidy (getPayloadLength flags ethertype inner proto) := by
  apply blind_get_bind
  · exact fun o => rfl
  · intro o
    split
    · exact blind_value _
    · refine blind_bind (blind_storePayloadLength 0) fun _ => ?_
      refine blind_bind (blind_measurePayload flags ethertype inner proto) fun len => ?_
      split
      · exact blind_value _
      · exact blind_bind (blind_storePayloadLength _) fun _ => blind_value _

theorem blind_perform (q : Query) : Blind tidy (perform q) := by
  cases q with
  | linkType => exact blind_map _ blind_getLinkType tidy_tidy
  | captureLength => exact blind_map _ blind_getCaptureLength tidy_tidy
  | wireLength flags => exact blind_map _ (blind_getWireLength flags) tidy_tidy
  | layer2 flags => exact blind_map _ (blind_getLayer2 flags) tidy_tidy
  | layer3 flags ethertype => exact blind_map _ (blind_getLayer3 flags ethertype) tidy_tidy
  | transport flags proto ethertype =>
    exact blind_map _ (blind_getTransport flags proto ethertype) tidy_tidy
  | payloadLength flags ethertype inner proto =>
    exact blind_map _ (blind_getPayloadLength flags ethertype inner proto) tidy_tidy

theorem replies_tidy {o' : PacketObject} (h : tidy o = tidy o') (qs : List Query) :
    replies qs o = replies qs o' := by
  induction qs generalizing o o' with
  | nil => rfl
  | cons q qs ih =>
    rw [replies, replies]
    rcases seen_cases ((blind_perform q).seen_eq h) with ⟨e, hx, hy⟩ | ⟨r, t, t', hx, hy, ht⟩
    · rw [hx, hy]
    · rw [hx, hy]
      exact congrArg (.ok r :: ·) (ih ht)

end Libtrace.PacketReplies
