import Libtrace.UnsetTypes

/-! Whether the caches of a packet show in the answers of its accessors. -/

namespace Libtrace.CacheTransparent
open Exec Protocols PacketAccess PacketDecode PacketLayout UnsetTypes

section

variable {pkt : Packet}

structure Faithful (pkt : Packet) (c : Caches) : Prop where
  linkType : c.linkType = .legacy ∨ c.linkType = pkt.linkType
  l2 : c.l2Header.isSome = true →
    layer2Of pkt.whole pkt = .ok ⟨c.l2Header, c.linkType, c.l2Remaining⟩
  l3 : c.l3Header.isSome = true → ∀ ethertype,
    layer3Of pkt.whole pkt ethertype = .ok ⟨c.l3Header, c.l3Ethertype, c.l3Remaining⟩
  l4 : c.l4Header.isSome = true → ∀ proto ethertype,
    transportOf pkt.whole pkt proto ethertype = .ok ⟨c.l4Header, c.transportProto, c.l4Remaining⟩

def FaithfulWith (pkt : Packet) (len : Int) (c : Caches) : Prop :=
  Faithful pkt c ∧ c.payloadLength = len

variable {f : Found LinkType} {c : Caches} {ethertype proto : Nat} {len : Int}

section

variable (hs : ¬ Skipped pkt)
include hs

theorem layer2_type (h : layer2Of pkt.whole pkt = .ok f) (hptr : f.ptr.isSome = true) :
    f.type = pkt.linkType := by
  obtain ⟨-, lt, r, -, heq⟩ | ⟨p, lt, hstart, -, -, heq⟩ := layer2_cases pkt <;>
    obtain rfl := ok_unique h heq
  · cases hptr
  · exact (start_of_not_skipped hs hstart).2

theorem faithful_storeL2 (h : Faithful pkt c) (hc : c.l2Header = none)
    (hf : layer2Of pkt.whole pkt = .ok f) :
    Faithful pkt ({ c with linkType := pkt.linkType }.storeL2 f) := by
  unfold Caches.storeL2
  split_ifs with hsome
  · refine ⟨.inr rfl, fun _ => ?_, h.l3, h.l4⟩
    rw [hf, ← layer2_type hs hf hsome]
  · exact ⟨.inr rfl, fun hsome => by simp [hc] at hsome, h.l3, h.l4⟩

theorem faithful_storeL3 (hu : ¬ Untyped pkt) (h : Faithful pkt c) {f : Found Nat}
    (hf : layer3Of pkt.whole pkt ethertype = .ok f) : Faithful pkt (c.storeL3 f) := by
  unfold Caches.storeL3
  split_ifs with hsome
  · exact ⟨h.linkType, h.l2, fun _ => (settled_layer3Of hs hu).found hf hsome, h.l4⟩
  · exact h

theorem faithful_storeL4 (hu : ¬ Untyped pkt) (h : Faithful pkt c) {f : Found Nat}
    (hf : transportOf pkt.whole pkt proto ethertype = .ok f) : Faithful pkt (c.storeL4 f) :=
  ⟨h.linkType, h.l2, h.l3, settled_transport hs hu hf⟩

end

theorem storeL2_payloadLength (c : Caches) (f : Found LinkType) :
    (c.storeL2 f).payloadLength = c.payloadLength := by
  unfold Caches.storeL2
  split_ifs <;> rfl

theorem storeL3_payloadLength (c : Caches) (f : Found Nat) :
    (c.storeL3 f).payloadLength = c.payloadLength := by
  unfold Caches.storeL3
  split_ifs <;> rfl

section

variable (hs : ¬ Skipped pkt)
include hs

theorem getLayer2_computes (h : FaithfulWith pkt len c) :
    Computes (getLayer2 pkt.whole pkt) c (layer2Of pkt.whole pkt) (FaithfulWith pkt len) := by
  cases hc : c.l2Header with
  | some p =>
    have hsome : c.l2Header.isSome = true := by simp [hc]
    rw [h.1.l2 hsome]
    exact ⟨c, getLayer2_cached _ _ hsome, h⟩
  | none =>
    have heq := getLayer2_uncached pkt.whole pkt hc h.1.linkType
    cases hf : layer2Of pkt.whole pkt with
    | error e =>
      rw [hf] at heq
      exact heq
    | ok f =>
      rw [hf] at heq
      exact ⟨_, heq, faithful_storeL2 hs h.1 hc hf, (storeL2_payloadLength _ f).trans h.2⟩

theorem linkHeader_computes (h : FaithfulWith pkt len c) :
    Computes (linkHeader pkt.whole pkt c) c (layer2Of pkt.whole pkt) (FaithfulWith pkt len) := by
  have hlink := getLayer2_computes hs h
  unfold Computes at hlink ⊢
  rwa [linkHeader_eq]

section

variable (hu : ¬ Untyped pkt)
include hu

theorem getLayer3_computes (ethertype : Nat) (h : FaithfulWith pkt len c) :
    Computes (getLayer3 pkt.whole pkt ethertype) c (layer3Of pkt.whole pkt ethertype)
      (FaithfulWith pkt len) := by
  refine computes_get ?_
  split_ifs with hsome
  · rw [h.1.l3 hsome]
    exact computes_pure _ h
  · refine computes_bind (linkHeader_computes hs h) fun link c' hlink hc' => ?_
    refine computes_store _ (fun found (c : Caches) => c.storeL3 found) fun f hf => ?_
    have hl3 : layer3Of pkt.whole pkt ethertype = .ok f := by
      rw [layer3Of, hlink]
      exact hf
    exact ⟨faithful_storeL3 hs hu hc'.1 hl3, (storeL3_payloadLength c' f).trans hc'.2⟩

theorem getTransport_computes (proto ethertype : Nat) (h : FaithfulWith pkt len c) :
    Computes (getTransport pkt.whole pkt proto ethertype) c
      (transportOf pkt.whole pkt proto ethertype) (FaithfulWith pkt len) := by
  refine computes_get ?_
  split_ifs with hsome
  · rw [h.1.l4 hsome]
    exact computes_pure _ h
  · refine computes_bind (getLayer3_computes hs hu ethertype h) fun l3 c' hl3 hc' => ?_
    cases hp : l3.ptr with
    | none =>
      simp only [transportFrom, hp]
      exact computes_pure _ hc'
    | some p =>
      simp only [transportFrom, hp]
      refine computes_store _ (fun found (c : Caches) => c.storeL4 found) fun f hf => ?_
      have hl4 : transportOf pkt.whole pkt proto ethertype = .ok f := by
        rw [transportOf, hl3]
        change transportFrom pkt.whole proto l3 = .ok f
        rw [← hf, transportFrom, hp]
      exact ⟨faithful_storeL4 hs hu hc'.1 hl4, hc'.2⟩

theorem transport_of_layer3 {l3 : Found Nat} (h : layer3Of pkt.whole pkt ethertype = .ok l3)
    (hptr : l3.ptr.isSome = true) (proto inner : Nat) :
    transportOf pkt.whole pkt proto inner = transportFrom pkt.whole proto l3 := by
  rw [transportOf, (settled_layer3Of hs hu).found h hptr inner]
  rfl

theorem measurePayload_computes (ethertype inner proto : Nat) (h : FaithfulWith pkt len c) :
    Computes (measurePayload pkt.whole pkt ethertype inner proto) c
      (payloadOf pkt.whole pkt ethertype proto) (FaithfulWith pkt len) := by
  refine computes_bind (getLayer3_computes hs hu ethertype h) fun l3 c hl3 h => ?_
  cases hp : l3.ptr with
  | none =>
    simp only [payloadFrom, hp]
    exact computes_pure _ h
  | some p =>
    simp only [payloadFrom, hp]
    refine computes_bind (computes_lift _ h) fun len c _ h => ?_
    cases len with
    | none => exact computes_pure _ h
    | some len =>
      have hl4 := getTransport_computes hs hu proto inner h
      rw [transport_of_layer3 hs hu hl3 (by simp [hp])] at hl4
      refine computes_bind hl4 fun l4 c _ h => ?_
      cases hq : l4.ptr with
      | none => exact computes_pure _ h
      | some q => exact computes_lift _ h

end

end

def Measured (pkt : Packet) (c : Caches) : Prop :=
  c.payloadLength = -1 ∨ ∀ ethertype proto, ∃ len,
    payloadOf pkt.whole pkt ethertype proto = .ok len ∧ lengthOf len = toSize c.payloadLength

def Good (pkt : Packet) (c : Caches) : Prop := Faithful pkt c ∧ Measured pkt c

theorem good_clearCache (pkt : Packet) : Good pkt clearCache :=
  ⟨⟨.inl rfl, by simp [clearCache], by simp [clearCache], by simp [clearCache]⟩, .inl rfl⟩

theorem good_of_faithfulWith {c' : Caches} (h : Good pkt c)
    (h' : FaithfulWith pkt c.payloadLength c') : Good pkt c' := by
  refine ⟨h'.1, ?_⟩
  unfold Measured
  rw [h'.2]
  exact h.2

theorem faithful_payloadLength (h : Faithful pkt c) (len : Int) :
    Faithful pkt { c with payloadLength := len } := ⟨h.linkType, h.l2, h.l3, h.l4⟩

theorem toSize_bmod (h : -2 ^ 31 ≤ len ∧ len < 2 ^ 31) :
    toSize (Int.bmod len (2 ^ 32)) = toSize len := by
  rw [Int.bmod_eq_of_le (by omega) (by omega)]

def cachedLength : Option Int → Int
  | none => 0
  | some len => Int.bmod len (2 ^ 32)

section

variable (hs : ¬ Skipped pkt)
include hs

theorem measured_store (hu : ¬ Untyped pkt) {len : Option Int}
    (hlen : payloadOf pkt.whole pkt ethertype proto = .ok len)
    (hc : c.payloadLength = cachedLength len) : Measured pkt c := by
  refine .inr fun ethertype' proto' => ⟨len, ?_, ?_⟩
  · rw [payloadOf_eq hs hu ethertype' ethertype proto' proto, hlen]
  · rw [hc]
    cases len with
    | none => rfl
    | some len => exact (toSize_bmod (payloadOf_bounds hlen)).symm

theorem getPayloadLength_computes (hu : ¬ Untyped pkt) (ethertype inner proto : Nat)
    (h : Good pkt c) :
    Computes (getPayloadLength pkt.whole pkt ethertype inner proto) c
      (payloadOf pkt.whole pkt ethertype proto >>= fun len => pure (lengthOf len)) (Good pkt) := by
  refine computes_get ?_
  split_ifs with hcached
  · obtain ⟨len, hlen, htoSize⟩ := h.2.resolve_left hcached ethertype proto
    rw [hlen, ← htoSize]
    exact computes_pure _ h
  · refine computes_modify ?_
    have hfaithful : FaithfulWith pkt 0 { c with payloadLength := 0 } :=
      ⟨faithful_payloadLength h.1 0, rfl⟩
    refine computes_bind (measurePayload_computes hs hu ethertype inner proto hfaithful)
      fun len c' hlen hc' => ?_
    cases len with
    | none => exact computes_pure _ ⟨hc'.1, measured_store hs hu hlen hc'.2⟩
    | some len =>
      refine computes_modify (computes_pure _ ?_)
      exact ⟨faithful_payloadLength hc'.1 _, measured_store hs hu hlen rfl⟩

theorem getSourceMac_computes (h : FaithfulWith pkt len c) :
    Computes (getSourceMac pkt.whole pkt) c (layer2Of pkt.whole pkt >>= sourceMacOf pkt.whole)
      (FaithfulWith pkt len) := by
  refine computes_bind (getLayer2_computes hs h) fun link c _ h => ?_
  obtain ⟨ptr, type, r⟩ := link
  cases ptr with
  | none => exact computes_pure _ h
  | some p =>
    cases type
    case ieee80211 => exact computes_lift _ h
    all_goals first | exact computes_pure _ h | exact computes_throw _

theorem getDestinationMac_computes (h : FaithfulWith pkt len c) :
    Computes (getDestinationMac pkt.whole pkt) c (layer2Of pkt.whole pkt >>= destinationMacOf)
      (FaithfulWith pkt len) := by
  refine computes_bind (getLayer2_computes hs h) fun link c _ h => ?_
  obtain ⟨ptr, type, r⟩ := link
  cases ptr with
  | none => exact computes_pure _ h
  | some p => cases type <;> first | exact computes_pure _ h | exact computes_throw _

theorem perform_computes (hu : ¬ Untyped pkt) (call : Call) (h : Good pkt c) :
    Computes (perform pkt.whole pkt call) c (answerOf pkt.whole pkt call) (Good pkt) := by
  have hc : FaithfulWith pkt c.payloadLength c := ⟨h.1, rfl⟩
  have back : ∀ c', FaithfulWith pkt c.payloadLength c' → Good pkt c' :=
    fun c' => good_of_faithfulWith h
  cases call with
  | layer2 => exact computes_map _ (computes_mono (getLayer2_computes hs hc) back)
  | layer3 ethertype =>
    exact computes_map _ (computes_mono (getLayer3_computes hs hu ethertype hc) back)
  | transport proto ethertype =>
    exact computes_map _ (computes_mono (getTransport_computes hs hu proto ethertype hc) back)
  | payloadLength ethertype inner proto =>
    have hlen := computes_map Answer.payloadLength
      (getPayloadLength_computes hs hu ethertype inner proto h)
    rw [← map_eq_pure_bind] at hlen
    rw [← comp_map] at hlen
    exact hlen
  | sourceMac => exact computes_map _ (computes_mono (getSourceMac_computes hs hc) back)
  | destinationMac => exact computes_map _ (computes_mono (getDestinationMac_computes hs hc) back)

end

end

def callAll (pkt : Packet) : List Call → Caches → Decode Caches
  | [], c => .ok c
  | call :: calls, c => do
    let (_, c) ← perform pkt.whole pkt call c
    callAll pkt calls c

/-- Whatever was called before, a call answers as it does on cleared caches. -/
def Transparent (pkt : Packet) : Prop :=
  ∀ calls c call, callAll pkt calls clearCache = .ok c →
    (perform pkt.whole pkt call).run' c = (perform pkt.whole pkt call).run' clearCache

variable {pkt : Packet} {c c' : Caches}

theorem callAll_good (hs : ¬ Skipped pkt) (hu : ¬ Untyped pkt) (calls : List Call) (hc : Good pkt c)
    (h : callAll pkt calls c = .ok c') : Good pkt c' := by
  induction calls generalizing c with
  | nil => exact Except.ok.inj h ▸ hc
  | cons call calls ih =>
    obtain ⟨⟨a, c''⟩, hcall, hrest⟩ := except_bind_ok.mp h
    exact ih (computes_ok (perform_computes hs hu call hc) hcall) hrest

theorem transparent_of (hs : ¬ Skipped pkt) (hu : ¬ Untyped pkt) : Transparent pkt := by
  intro calls c call h
  have hgood := callAll_good hs hu calls (good_clearCache pkt) h
  rw [computes_run' (perform_computes hs hu call hgood),
    computes_run' (perform_computes hs hu call (good_clearCache pkt))]

theorem not_transparent (before call : Call) {c'' : Caches} {a a' a'' : Answer}
    (hbefore : perform pkt.whole pkt before clearCache = .ok (a, c))
    (hafter : perform pkt.whole pkt call c = .ok (a', c'))
    (hfresh : perform pkt.whole pkt call clearCache = .ok (a'', c'')) (h : a' ≠ a'') :
    ¬ Transparent pkt := by
  intro ht
  have hcall : callAll pkt [before] clearCache = .ok c := by
    simp only [callAll, hbefore]
    rfl
  have := ht [before] c call hcall
  rw [run'_of_ok hafter, run'_of_ok hfresh, Except.ok.injEq] at this
  exact h this

theorem getLayer2_found {f : Found LinkType} (h : layer2Of pkt.whole pkt = .ok f)
    (hptr : f.ptr.isSome = true) :
    ∃ c, getLayer2 pkt.whole pkt clearCache = .ok (f, c) ∧ c.l2Header = f.ptr ∧
      c.linkType = pkt.linkType := by
  have hfirst := getLayer2_uncached pkt.whole pkt (c := clearCache) rfl (.inl rfl)
  rw [h] at hfirst
  refine ⟨_, hfirst, ?_⟩
  simp [Caches.storeL2, hptr, clearCache]

theorem getLayer3_found {ethertype : Nat} {f : Found Nat}
    (h : layer3Of pkt.whole pkt ethertype = .ok f) (hptr : f.ptr.isSome = true) :
    ∃ c, getLayer3 pkt.whole pkt ethertype clearCache = .ok (f, c) ∧ c.l3Header = f.ptr ∧
      c.l3Ethertype = f.type := by
  obtain ⟨link, hlink, hfind⟩ := except_bind_ok.mp h
  have hfirst := getLayer3_uncached pkt.whole pkt ethertype (c := clearCache) rfl
  rw [getLayer2_uncached pkt.whole pkt rfl (.inl rfl), hlink] at hfirst
  change _ = (findLayer3 pkt.whole link ethertype >>= fun found => _) at hfirst
  rw [hfind] at hfirst
  refine ⟨_, hfirst, ?_⟩
  simp [Caches.storeL3, hptr]

theorem not_transparent_of_skipped (h : Skipped pkt) : ¬ Transparent pkt := by
  obtain ⟨hmeta, hstart⟩ := h
  obtain ⟨⟨p, lt⟩, hstart⟩ := Option.isSome_iff_exists.mp hstart
  have hloc := layer2Of_whole pkt
  rw [hstart] at hloc
  obtain ⟨-, hl2, heq⟩ := hloc
  obtain ⟨c, hfirst, hptr, htype⟩ := getLayer2_found heq rfl
  have hcached := getLayer2_cached pkt.whole pkt (show c.l2Header.isSome = true by simp [hptr])
  refine not_transparent .layer2 .layer2 (map_of_ok hfirst _) (map_of_ok hcached _)
    (map_of_ok hfirst _) fun hsame => ?_
  have hlt : c.linkType = lt := congrArg Found.type (Answer.layer2.inj hsame)
  rw [← hlt, htype] at hl2
  cases hl : pkt.linkType <;> simp [hl, isMeta, isLayer2] at hmeta hl2

theorem layer3Of_untyped (h : Untyped pkt) (ethertype : Nat) (he : ethertype < 2) :
    ∃ q, layer3Of pkt.whole pkt ethertype = .ok ⟨some q, ethertype, pkt.size⟩ := by
  have hne (x : Nat) (hx : 2 ≤ x) : ethertype ≠ x := by omega
  have h1 := hne ethertype8021q (by decide)
  have h2 := hne ethertypeMpls (by decide)
  have h3 := hne ethertypePppSes (by decide)
  obtain ⟨hsize, ⟨hlt, h4, h6⟩ | ⟨hlt, h4, h6⟩⟩ := h
  · refine ⟨0, ?_⟩
    simp [layer3Of, layer2Of, findLayer2, hlt, isLayer2, findLayer3, getPayloadFromLayer2,
      nibbleType, h4, h6, skipEncapsulation, hsize, h1, h2, h3, bind, Except.bind, pure,
      Except.pure]
  · refine ⟨4, ?_⟩
    simp [layer3Of, layer2Of, findLayer2, hlt, isLayer2, findLayer3, getPayloadFromLayer2,
      nibbleType, h4, h6, skipEncapsulation, hsize, h1, h2, h3, bind, Except.bind, pure,
      Except.pure]

theorem not_transparent_of_untyped (h : Untyped pkt) : ¬ Transparent pkt := by
  obtain ⟨q, h0⟩ := layer3Of_untyped h 0 (by decide)
  obtain ⟨q', h1⟩ := layer3Of_untyped h 1 (by decide)
  obtain ⟨c, hfirst, hptr, htype⟩ := getLayer3_found h0 rfl
  obtain ⟨c', hfresh, -⟩ := getLayer3_found h1 rfl
  have hcached := getLayer3_cached pkt.whole pkt 1 (show c.l3Header.isSome = true by simp [hptr])
  refine not_transparent (.layer3 0) (.layer3 1) (map_of_ok hfirst _) (map_of_ok hcached _)
    (map_of_ok hfresh _) fun hsame => ?_
  have : c.l3Ethertype = 1 := congrArg Found.type (Answer.layer3.inj hsame)
  rw [htype] at this
  cases this

/-- The caches are transparent unless meta-data headers are skipped or the ethertype is never
set. -/
theorem transparent_iff (pkt : Packet) : Transparent pkt ↔ ¬ Skipped pkt ∧ ¬ Untyped pkt :=
  ⟨fun h => ⟨fun hs => not_transparent_of_skipped hs h, fun hu => not_transparent_of_untyped hu h⟩,
    fun ⟨hs, hu⟩ => transparent_of hs hu⟩

def sllPacket : Packet where
  bytes i := if i = 3 then 1 else if i = 14 then 8 else if i = 16 then 0x45 else 0
  linkType := .linuxSll
  captureLength := 36
  wireLength := 36
  captureLength_lt := by decide
  wireLength_lt := by decide

theorem sllPacket_layer2 :
    (perform sllPacket.whole sllPacket .layer2).run' clearCache =
      .ok (.layer2 ⟨some 16, .none, 20⟩) ∧
    (do
      let c ← callAll sllPacket [.layer2] clearCache
      (perform sllPacket.whole sllPacket .layer2).run' c) =
        .ok (.layer2 ⟨some 16, .linuxSll, 20⟩) ∧
    ¬ Transparent sllPacket := by
  refine ⟨by decide +kernel, by decide +kernel, not_transparent_of_skipped ⟨rfl, ?_⟩⟩
  decide +kernel

end Libtrace.CacheTransparent
