import Libtrace.CacheTransparent
import Libtrace.PcapRecords
import Libtrace.RegionBounds

/-! Whether the accessors see that a packet of a pcap trace was made shorter:
`trace_set_capture_length` leaves the cached headers as they are. -/

namespace Libtrace.PacketTruncation
open Exec ByteOrder Window Protocols PacketAccess PacketDecode HeaderChain UnsetTypes
  CacheTransparent RegionBounds
open PcapFile (PcapPacket pktHdrSize pcapLinktypeToRt pcapLinktypeToLibtrace memoryAt missingFcs
  missingFcs_congr formatWireLength getWireLength setCaptureLength uint32At_store_other)
open PcapRecords (withCaplen setCaptureLength_shorter)

section

structure Reported (flags : Nat) (p : PcapPacket) (pkt : Packet) : Prop where
  linkType : PcapFile.getLinkType p = .ok pkt.linkType
  capture : p.captureLength.getD p.caplen = pkt.captureLength
  wire : PcapFile.getWireLength flags p = .ok pkt.wireLength
  payload : ∃ q, p.payload = some q ∧ pktHdrSize ≤ q ∧ ∀ i, pkt.bytes i = p.buffer (q + i)

def cut (pkt : Packet) (n : Nat) (h : n ≤ pkt.captureLength) : Packet :=
  { pkt with captureLength := n, captureLength_lt := Nat.lt_of_le_of_lt h pkt.captureLength_lt }

def IsHeaderCall : Call → Prop
  | .layer2 | .layer3 _ | .transport _ _ => True
  | .payloadLength _ _ _ | .sourceMac | .destinationMac => False

def EndsBefore (n : Nat) : Answer → Prop
  | .layer2 f => ∀ o, f.ptr = some o → o + f.remaining ≤ n
  | .layer3 f | .transport f => ∀ o, f.ptr = some o → o + f.remaining ≤ n
  | .payloadLength _ | .mac _ => True

/-- Whatever is asked for while the packet is `pkt`, and then while it is `pkt'`, the answer is that
of cleared caches, inside of what was captured. -/
def TruncationSeen (pkt pkt' : Packet) : Prop :=
  ∀ (before after : List Call) (call : Call) (c c' : Caches),
    (∀ x ∈ before, IsHeaderCall x) → (∀ x ∈ after, IsHeaderCall x) → IsHeaderCall call →
    callAll pkt before clearCache = .ok c → callAll pkt' after c = .ok c' →
    (perform pkt'.whole pkt' call).run' c' = (perform pkt'.whole pkt' call).run' clearCache ∧
      ∀ a, (perform pkt'.whole pkt' call).run' c' = .ok a → EndsBefore pkt'.captureLength a

/-- There is no layer 2 header, or the wire length is the one that counts, before and after. -/
def Unaffected (pkt pkt' : Packet) : Prop :=
  pkt.linkType = .unknown ∨ pkt'.size = pkt.size ∧ ¬ Untyped pkt'

/-- If there is a layer 3 header, as many bytes were captured behind the end of the packet as the
link header is counted wrongly by. -/
def Layer3Inside (pkt : Packet) : Prop :=
  ∀ ethertype, (∃ x, Layer3At pkt ethertype x) → pkt.size + uncounted pkt ≤ pkt.captureLength

end

section

variable {flags n : Nat} {p : PcapPacket} {pkt : Packet}

theorem pcapLinktypeToLibtrace_mem (dlt : Nat) :
    pcapLinktypeToLibtrace dlt ∈ [.none, .eth, .ieee80211, .linuxSll, .pflog, .ieee80211Radio,
      .llcsnap, .ppp, .pos, .hdlcPos, .openbsdLoop, .unknown] := by
  repeat refine iteInduction (fun _ => by decide) fun _ => ?_
  decide

theorem isLayer2_of_reported (h : Reported flags p pkt) (hmeta : isMeta pkt.linkType = false)
    (hknown : pkt.linkType ≠ .unknown) : isLayer2 pkt.linkType = true := by
  obtain ⟨dlt, -, hdlt⟩ := except_bind_ok.mp h.linkType
  have hmem := pcapLinktypeToLibtrace_mem dlt
  rw [Except.ok.inj hdlt] at hmem
  revert hmem hmeta hknown
  cases pkt.linkType <;> decide

theorem withCaplen_outside (p : PcapPacket) (n : Nat) {i : Nat} (hi : pktHdrSize ≤ i) :
    (withCaplen p n).buffer i = p.buffer i :=
  store_outside p.buffer (.inr (by rw [length_leBytes]; unfold pktHdrSize at hi; omega))

theorem withCaplen_wirelen (p : PcapPacket) (n : Nat) : (withCaplen p n).wirelen = p.wirelen :=
  congrArg (PcapFile.swapl p.header)
    (uint32At_store_other p.buffer (.inr (by simp)))

theorem setCaptureLength_reported (h : Reported flags p pkt) (hn : n ≤ pkt.captureLength) :
    setCaptureLength p n = .ok (n, withCaplen p n) ∧
      Reported flags (withCaplen p n) (cut pkt n hn) := by
  obtain ⟨q, hq, hle, hbytes⟩ := h.payload
  have hmissing : missingFcs flags (withCaplen p n) = missingFcs flags p := by
    refine missingFcs_congr flags rfl rfl fun q' hq' => funext fun i => ?_
    obtain rfl := Option.mem_unique hq hq'
    rw [memoryAt, memoryAt, withCaplen_outside p n (by omega)]
  refine ⟨setCaptureLength_shorter h.capture pkt.captureLength_lt hn, h.linkType, rfl, ?_, q, hq,
    hle, fun i => ?_⟩
  · rw [getWireLength, formatWireLength, hmissing, withCaplen_wirelen]
    exact h.wire
  · rw [withCaplen_outside p n (by omega)]
    exact hbytes i

end

section

variable {pkt : Packet} {n : Nat} {c : Caches}

section

variable (h : pkt.linkType = .unknown)
include h

theorem layer2Of_unknown :
    layer2Of pkt.whole pkt = .ok ⟨none, .unknown, pkt.size⟩ := by
  rw [layer2Of, h]
  rfl

theorem layer3Of_unknown (ethertype : Nat) :
    layer3Of pkt.whole pkt ethertype = .ok ⟨none, ethertype, pkt.size⟩ := by
  rw [layer3Of, layer2Of_unknown h, ok_bind]
  change Except.ok (if pkt.size = 0 then _ else _) = _
  split_ifs <;> rfl

theorem transportOf_unknown (proto ethertype : Nat) :
    transportOf pkt.whole pkt proto ethertype = .ok ⟨none, proto, pkt.size⟩ := by
  rw [transportOf, layer3Of_unknown h]
  rfl

theorem payloadOf_unknown (ethertype proto : Nat) :
    payloadOf pkt.whole pkt ethertype proto = .ok none := by
  rw [payloadOf, layer3Of_unknown h]
  rfl

end

theorem isSome_of_none {τ : Type} {ptr : Option Nat} {type type' : τ} {r r' : Nat}
    (h : (.ok ⟨none, type, r⟩ : Decode (Found τ)) = .ok ⟨ptr, type', r'⟩) :
    ¬ ptr.isSome = true := by
  cases h
  exact Bool.false_ne_true

theorem good_cut_of_unknown (hn : n ≤ pkt.captureLength) (hl : pkt.linkType = .unknown)
    (h : Good pkt c) : Good (cut pkt n hn) c := by
  refine ⟨⟨h.1.linkType, fun hsome => ?_, fun hsome => ?_, fun hsome => ?_⟩, ?_⟩
  · have hl2 := h.1.l2 hsome
    rw [layer2Of_unknown hl] at hl2
    exact absurd hsome (isSome_of_none hl2)
  · have hl3 := h.1.l3 hsome 0
    rw [layer3Of_unknown hl] at hl3
    exact absurd hsome (isSome_of_none hl3)
  · have hl4 := h.1.l4 hsome 0 0
    rw [transportOf_unknown hl] at hl4
    exact absurd hsome (isSome_of_none hl4)
  · have hm := h.2
    simp only [Measured, payloadOf_unknown hl] at hm
    have hl' : (cut pkt n hn).linkType = .unknown := hl
    simp only [Measured, payloadOf_unknown hl']
    exact hm

theorem good_cut_of_size (hn : n ≤ pkt.captureLength) (hsize : (cut pkt n hn).size = pkt.size)
    (h : Good pkt c) : Good (cut pkt n hn) c := by
  have hlink : layer2Of (cut pkt n hn).whole (cut pkt n hn) = layer2Of pkt.whole pkt := by
    rw [layer2Of, hsize]
    rfl
  have hl3 (ethertype : Nat) : layer3Of (cut pkt n hn).whole (cut pkt n hn) ethertype =
      layer3Of pkt.whole pkt ethertype := by
    rw [layer3Of, hlink]
    rfl
  have hl4 (proto ethertype : Nat) :
      transportOf (cut pkt n hn).whole (cut pkt n hn) proto ethertype =
        transportOf pkt.whole pkt proto ethertype := by
    rw [transportOf, hl3]
    rfl
  have hlen (ethertype proto : Nat) :
      payloadOf (cut pkt n hn).whole (cut pkt n hn) ethertype proto =
        payloadOf pkt.whole pkt ethertype proto := by
    rw [payloadOf, hl3]
    rfl
  refine ⟨⟨h.1.linkType, ?_, ?_, ?_⟩, ?_⟩
  · rw [hlink]
    exact h.1.l2
  · simp only [hl3]
    exact h.1.l3
  · simp only [hl4]
    exact h.1.l4
  · unfold Measured
    simp only [hlen]
    exact h.2

theorem unaffected_good {hn : n ≤ pkt.captureLength} (h : Unaffected pkt (cut pkt n hn))
    (hc : Good pkt c) : Good (cut pkt n hn) c := by
  rcases h with hl | ⟨hsize, -⟩
  · exact good_cut_of_unknown hn hl hc
  · exact good_cut_of_size hn hsize hc

theorem unaffected_typed {hn : n ≤ pkt.captureLength} (h : Unaffected pkt (cut pkt n hn)) :
    ¬ Untyped pkt ∧ ¬ Untyped (cut pkt n hn) := by
  rcases h with hl | ⟨hsize, hu⟩
  · have hunknown (pkt : Packet) (hl : pkt.linkType = .unknown) : ¬ Untyped pkt := by
      rintro ⟨-, ⟨hnone, -⟩ | ⟨hloop, -⟩⟩
      · rw [hl] at hnone
        cases hnone
      · rw [hl] at hloop
        cases hloop
    exact ⟨hunknown pkt hl, hunknown (cut pkt n hn) hl⟩
  · refine ⟨fun h => hu ?_, hu⟩
    unfold Untyped at h ⊢
    rw [hsize]
    exact h

theorem not_skipped (hmeta : isMeta pkt.linkType = false) : ¬ Skipped pkt := by
  rintro ⟨hm, -⟩
  rw [hmeta] at hm
  cases hm

theorem size_le (pkt : Packet) : pkt.size ≤ pkt.captureLength := by
  unfold Packet.size
  split_ifs <;> omega

theorem layer3_inside (h : Layer3Inside pkt) (ethertype : Nat) :
    Bounded pkt.captureLength (layer3Of pkt.whole pkt ethertype) := by
  obtain ⟨x, hx, hok⟩ | ⟨-, type, r, hok⟩ := finds_layer3 pkt ethertype
  · rw [hok]
    exact bounded_some _ (layer3At_sum hx ▸ h ethertype ⟨x, hx⟩)
  · rw [hok]
    exact bounded_none

theorem exists_of_bounded {τ : Type} {mk : Found τ → Answer} {d : Decode (Found τ)} {a : Answer}
    (hb : Bounded n d) (ha : mk <$> d = .ok a) :
    ∃ f, a = mk f ∧ ∀ o, f.ptr = some o → o + f.remaining ≤ n := by
  obtain ⟨f, rfl, hf⟩ := hb
  exact ⟨f, (Except.ok.inj ha).symm, hf⟩

theorem answerOf_endsBefore (h : Layer3Inside pkt) {call : Call} (hcall : IsHeaderCall call)
    {a : Answer} (ha : answerOf pkt.whole pkt call = .ok a) : EndsBefore pkt.captureLength a := by
  cases call with
  | layer2 =>
    obtain ⟨f, rfl, hf⟩ := exists_of_bounded (bounded_mono (layer2_bounded pkt) (size_le pkt)) ha
    exact hf
  | layer3 ethertype =>
    obtain ⟨f, rfl, hf⟩ := exists_of_bounded (layer3_inside h ethertype) ha
    exact hf
  | transport proto ethertype =>
    obtain ⟨f, rfl, hf⟩ := exists_of_bounded (transport_bounded (layer3_inside h ethertype)) ha
    exact hf
  | payloadLength | sourceMac | destinationMac => exact hcall.elim

end

section

variable {pkt : Packet} {n : Nat} {hn : n ≤ pkt.captureLength}

theorem truncationSeen_of (hmeta : isMeta pkt.linkType = false) (h : Unaffected pkt (cut pkt n hn))
    (hl3 : Layer3Inside (cut pkt n hn)) : TruncationSeen pkt (cut pkt n hn) := by
  intro before after call c c' _ _ hcall hbefore hafter
  obtain ⟨hu, hu'⟩ := unaffected_typed h
  have hs := not_skipped hmeta
  have hs' : ¬ Skipped (cut pkt n hn) := not_skipped hmeta
  have hc := unaffected_good h (callAll_good hs hu before (good_clearCache pkt) hbefore)
  have hc' := callAll_good hs' hu' after hc hafter
  have hanswer := computes_run' (perform_computes hs' hu' call hc')
  refine ⟨?_, fun a ha => ?_⟩
  · rw [hanswer, computes_run' (perform_computes hs' hu' call (good_clearCache _))]
  · rw [hanswer] at ha
    exact answerOf_endsBefore hl3 hcall ha

theorem same_answer {pkt' : Packet} (h : TruncationSeen pkt pkt') (first call : Call)
    (hfirst : IsHeaderCall first) (hcall : IsHeaderCall call) {a a' a'' : Answer}
    {c c' c'' : Caches} (hbefore : perform pkt.whole pkt first clearCache = .ok (a, c))
    (hafter : perform pkt'.whole pkt' call c = .ok (a', c'))
    (hfresh : perform pkt'.whole pkt' call clearCache = .ok (a'', c'')) : a' = a'' := by
  have hone : callAll pkt [first] clearCache = .ok c := by
    rw [callAll, hbefore]
    rfl
  have hsame := (h [first] [] call c c (List.forall_mem_singleton.mpr hfirst)
    (List.forall_mem_nil _) hcall hone rfl).1
  rw [run'_of_ok hafter, run'_of_ok hfresh] at hsame
  exact Except.ok.inj hsame

theorem size_of_seen (hl2 : isLayer2 pkt.linkType = true) (h : TruncationSeen pkt (cut pkt n hn)) :
    (cut pkt n hn).size = pkt.size := by
  have hfirst (pkt : Packet) (hl2 : isLayer2 pkt.linkType = true) :
      getLayer2 pkt.whole pkt clearCache = .ok (⟨some 0, pkt.linkType, pkt.size⟩,
        { clearCache with
          linkType := pkt.linkType, l2Header := some 0, l2Remaining := pkt.size }) := by
    rw [getLayer2_uncached pkt.whole pkt rfl (.inl rfl), layer2Of, findLayer2, if_pos hl2]
    rfl
  have hcached := getLayer2_cached (cut pkt n hn).whole (cut pkt n hn) (c := { clearCache with
    linkType := pkt.linkType, l2Header := some 0, l2Remaining := pkt.size }) rfl
  have hsame := same_answer h .layer2 .layer2 trivial trivial (map_of_ok (hfirst pkt hl2) _)
    (map_of_ok hcached _) (map_of_ok (hfirst (cut pkt n hn) hl2) _)
  exact (congrArg Found.remaining (Answer.layer2.inj hsame)).symm

theorem typed_of_seen (hsize : (cut pkt n hn).size = pkt.size)
    (h : TruncationSeen pkt (cut pkt n hn)) : ¬ Untyped (cut pkt n hn) := by
  intro hu
  have hu' : Untyped pkt := by
    unfold Untyped at hu ⊢
    rw [← hsize]
    exact hu
  obtain ⟨q, h0⟩ := layer3Of_untyped hu' 0 (by decide)
  obtain ⟨q', h1⟩ := layer3Of_untyped hu 1 (by decide)
  obtain ⟨c, hfirst, hptr, htype⟩ := getLayer3_found h0 rfl
  obtain ⟨c', hfresh, -⟩ := getLayer3_found h1 rfl
  have hcached := getLayer3_cached (cut pkt n hn).whole (cut pkt n hn) 1
    (show c.l3Header.isSome = true by rw [hptr]; rfl)
  have hsame := same_answer h (.layer3 0) (.layer3 1) trivial trivial (map_of_ok hfirst _)
    (map_of_ok hcached _) (map_of_ok hfresh _)
  have hone : c.l3Ethertype = 1 := congrArg Found.type (Answer.layer3.inj hsame)
  rw [htype] at hone
  cases hone

theorem layer3Inside_of_seen (h : TruncationSeen pkt (cut pkt n hn)) :
    Layer3Inside (cut pkt n hn) := by
  rintro ethertype ⟨x, hx⟩
  obtain ⟨y, hy, hok⟩ | ⟨hnone, -⟩ := finds_layer3 (cut pkt n hn) ethertype
  · obtain rfl := layer3At_unique hx hy
    obtain ⟨c, hfresh, -⟩ := getLayer3_found hok rfl
    have hinside := (h [] [] (.layer3 ethertype) clearCache clearCache (List.forall_mem_nil _)
      (List.forall_mem_nil _) trivial rfl rfl).2 _ (run'_of_ok (map_of_ok hfresh _))
    rw [← layer3At_sum hx]
    exact hinside x.offset rfl
  · exact absurd hx (hnone x)

/-- Making a packet shorter is seen exactly if there is nothing to be seen, and the regions lie
inside exactly if what is counted too much behind the link header was captured all the same. -/
theorem truncation_seen_iff (flags n : Nat) (p : PcapPacket) (pkt : Packet)
    (h : Reported flags p pkt) (hmeta : isMeta pkt.linkType = false) (hn : n ≤ pkt.captureLength) :
    ∃ p', setCaptureLength p n = .ok (n, p') ∧ Reported flags p' (cut pkt n hn) ∧
      (TruncationSeen pkt (cut pkt n hn) ↔
        Unaffected pkt (cut pkt n hn) ∧ Layer3Inside (cut pkt n hn)) := by
  obtain ⟨hset, hreported⟩ := setCaptureLength_reported h hn
  refine ⟨_, hset, hreported, fun hseen => ⟨?_, layer3Inside_of_seen hseen⟩,
    fun ⟨hsame, hl3⟩ => truncationSeen_of hmeta hsame hl3⟩
  by_cases hknown : pkt.linkType = .unknown
  · exact .inl hknown
  · have hsize := size_of_seen (isLayer2_of_reported h hmeta hknown) hseen
    exact .inr ⟨hsize, typed_of_seen hsize hseen⟩

def frame (wirelen : UInt8) : PcapPacket where
  buffer i := if i = 8 then 60 else if i = 12 then wirelen else if i = 28 then 8 else 0
  payload := some 16
  captureLength := some 60
  header := ⟨0xa1b2c3d4, 2, 4, 1⟩
  type := pcapLinktypeToRt 1

def frameView (wire : UInt16) : Packet where
  bytes i := if i = 12 then 8 else 0
  linkType := .eth
  captureLength := 60
  wireLength := wire.toNat
  captureLength_lt := by decide
  wireLength_lt := Int.ofNat_lt.mpr wire.toNat_lt

theorem frame_bytes (wirelen : UInt8) (i : Nat) :
    (if i = 12 then 8 else 0) = (frame wirelen).buffer (16 + i) := by
  have h8 : 16 + i ≠ 8 := by omega
  have h12 : 16 + i ≠ 12 := by omega
  have h28 : 16 + i = 28 ↔ i = 12 := by omega
  simp only [frame, h8, h12, h28, if_false]

def cutFrame (wire : UInt16) : Packet := cut (frameView wire) 50 (show 50 ≤ 60 by decide)

/-- 40 bytes were on the wire, and only padding is cut off. -/
theorem padding_cut_seen :
    Reported 0 (frame 36) (frameView 40) ∧ TruncationSeen (frameView 40) (cutFrame 40) := by
  have hreported : Reported 0 (frame 36) (frameView 40) :=
    ⟨by decide +kernel, rfl, by decide +kernel, 16, rfl, by decide, frame_bytes 36⟩
  obtain ⟨-, -, -, hiff⟩ :=
    truncation_seen_iff 0 50 (frame 36) (frameView 40) hreported rfl (show 50 ≤ 60 by decide)
  refine ⟨hreported, hiff.mpr ⟨.inr ⟨by decide +kernel, ?_⟩, fun _ _ => by decide +kernel⟩⟩
  rintro ⟨-, ⟨h, -⟩ | ⟨h, -⟩⟩ <;> cases h

/-- The layer 2 header still has 60 bytes after the packet was cut to 50, and the layer 3 header
ends there too. -/
theorem frame_cut_unseen :
    Reported 0 (frame 96) (frameView 100) ∧
      (do
        let c ← callAll (frameView 100) [.layer2] clearCache
        (perform (cutFrame 100).whole (cutFrame 100) .layer2).run' c) =
          .ok (.layer2 ⟨some 0, .eth, 60⟩) ∧
      (do
        let c ← callAll (frameView 100) [.layer2] clearCache
        (perform (cutFrame 100).whole (cutFrame 100) (.layer3 0)).run' c) =
          .ok (.layer3 ⟨some 14, ethertypeIp, 46⟩) ∧
      ¬ TruncationSeen (frameView 100) (cutFrame 100) := by
  refine ⟨⟨by decide +kernel, rfl, by decide +kernel, 16, rfl, by decide, frame_bytes 96⟩,
    by decide +kernel, by decide +kernel, fun h => ?_⟩
  have hsize : (cutFrame 100).size = (frameView 100).size := size_of_seen rfl h
  revert hsize
  decide +kernel

end

end Libtrace.PacketTruncation
