import Libtrace.PacketReplies
import Libtrace.PcapCopy

/-! Reading a record into a packet object that was used before or into a new one. -/

namespace Libtrace.PacketRefill
open PacketReuse PacketReplies PcapRecords PcapViews
open PacketAccess (clearCache)
open PcapFile (Trace PcapPacket packetBufsize pktHdrSize pcapLinktypeToRt)

def loaded {t : Trace} (r : Record t) (id : Nat) (o : PacketObject) : PacketObject :=
  { o with
    trace := some ⟨id, t.header⟩
    buffer := (r.packet ⟨o.buffer, o.payload, none⟩).buffer
    hasHeader := true
    payload := if r.body = [] then o.payload else some pktHdrSize
    type := pcapLinktypeToRt (network t)
    captureLength := if r.body = [] then o.captureLength else some r.body.length }

variable {t : Trace} {id : Nat} {o : PacketObject}

theorem readPacket_loaded (r : Record t) (hfit : pktHdrSize + r.body.length ≤ packetBufsize) :
    readPacket t { o with trace := some ⟨id, t.header⟩ } =
      (.packet (pktHdrSize + r.body.length), r.after, loaded r id o) := by
  have hread := readPacket_record r ⟨o.buffer, o.payload, none⟩
  rw [if_pos hfit] at hread
  simp only [readPacket, hread]
  by_cases hb : r.body = [] <;> simp [loaded, Record.packet, network, hb]

theorem exists_fitting {ret : Nat} (h : (readPacket t o).1 = .packet ret) :
    ∃ r : Record t, pktHdrSize + r.body.length ≤ packetBufsize := by
  simp only [readPacket] at h
  split at h
  · cases h
  · cases h
  · cases h
  · rename_i p ret t' hread
    have hfst := congrArg Prod.fst hread
    obtain ⟨r, -, -⟩ := exists_record _ hfst
    refine ⟨r, ?_⟩
    by_contra hlong
    rw [readPacket_record r, if_neg hlong] at hfst
    cases hfst

theorem traceReadPacket_own (h : o.trace.map Origin.id = some id) :
    traceReadPacket id t o = traceReadPacket id t (createPacket o.buffer) := by
  have hnew : (createPacket o.buffer).trace.map Origin.id ≠ some id := nofun
  rw [traceReadPacket, traceReadPacket, if_pos h, if_neg hnew]
  rfl

theorem traceReadPacket_other (h : o.trace.map Origin.id ≠ some id) (r : Record t)
    (hfit : pktHdrSize + r.body.length ≤ packetBufsize) :
    traceReadPacket id t o = (.packet (pktHdrSize + r.body.length), r.after, loaded r id o) := by
  rw [traceReadPacket, if_neg h]
  exact readPacket_loaded r hfit

def afterRead (id : Nat) (t : Trace) (o : PacketObject) : PacketObject :=
  (traceReadPacket id t o).2.2

/-- A record read into the packet looks like one read into a new packet, whatever is asked. -/
def ReadsLikeNew (o : PacketObject) (id : Nat) (t : Trace) : Prop :=
  ∀ ret, (traceReadPacket id t o).1 = .packet ret →
    (traceReadPacket id t (createPacket o.buffer)).1 = .packet ret ∧
      ∀ qs, replies qs (afterRead id t o) = replies qs (afterRead id t (createPacket o.buffer))

structure Clean (o : PacketObject) : Prop where
  payload : o.payload = none
  captureLength : o.captureLength.getD 0 = 0
  wireLength : o.wireLength = none
  linkType : o.caches.linkType = .legacy
  l2Header : o.caches.l2Header = none
  l3Header : o.caches.l3Header = none
  l4Header : o.caches.l4Header = none
  payloadLength : o.caches.payloadLength = -1

theorem withHeader_loaded (r : Record t) :
    (loaded r id o).withHeader =
      .ok ⟨⟨(loaded r id o).buffer, (loaded r id o).payload, none⟩, t.header,
        pcapLinktypeToRt (network t)⟩ := rfl

theorem headerLength_loaded (r : Record t) :
    headerLength (loaded r id o) = some (r.body.length : Int) := by
  have hcap : PcapPacket.caplen ⟨⟨(loaded r id o).buffer, (loaded r id o).payload, none⟩,
      t.header, pcapLinktypeToRt (network t)⟩ = r.body.length := packet_caplen r _
  have hlt := r.accepted
  rw [headerLength, withHeader_loaded]
  simp only [hcap, toInt32_of_lt hlt, cacheInt]
  exact if_neg (by omega)

theorem tidy_loaded (hclean : Clean o) (r : Record t) :
    tidy (loaded r id o) = tidy (loaded r id (createPacket o.buffer)) := by
  have hcaches : tidyCaches o.caches = tidyCaches clearCache := by
    simp [tidyCaches, clearCache, hclean.linkType, hclean.l2Header, hclean.l3Header,
      hclean.l4Header, hclean.payloadLength]
  have hlength : (loaded r id o).captureLength.or (headerLength (loaded r id o)) =
      some (r.body.length : Int) := by
    rw [headerLength_loaded]
    by_cases hb : r.body = []
    · have hzero := hclean.captureLength
      simp only [loaded, hb]
      cases hcap : o.captureLength with
      | none => simp
      | some n => simpa [hcap] using hzero
    · simp [loaded, hb]
  have hlength' : (loaded r id (createPacket o.buffer)).captureLength.or
      (headerLength (loaded r id (createPacket o.buffer))) = some (r.body.length : Int) := by
    rw [headerLength_loaded]
    by_cases hb : r.body = [] <;> simp [loaded, createPacket, hb]
  unfold tidy
  rw [hlength, hlength']
  simp only [loaded, createPacket, hclean.payload, hclean.wireLength, hcaches]

theorem readsLikeNew_of_own (h : o.trace.map Origin.id = some id) (t : Trace) :
    ReadsLikeNew o id t := by
  intro ret hret
  rw [traceReadPacket_own h] at hret
  refine ⟨hret, fun qs => ?_⟩
  rw [afterRead, traceReadPacket_own h, afterRead]

theorem readsLikeNew_of_clean (hclean : Clean o) (t : Trace) : ReadsLikeNew o id t := by
  by_cases h : o.trace.map Origin.id = some id
  · exact readsLikeNew_of_own h t
  intro ret hret
  have hnew : (createPacket o.buffer).trace.map Origin.id ≠ some id := nofun
  have hread := hret
  obtain ⟨r, hfit⟩ := exists_fitting hread
  rw [traceReadPacket_other h r hfit] at hret
  rw [afterRead, afterRead, traceReadPacket_other h r hfit, traceReadPacket_other hnew r hfit]
  exact ⟨hret, fun qs => replies_tidy (tidy_loaded hclean r) qs⟩

theorem ReadsLikeNew.replies_eq (h : ReadsLikeNew o id t) (hother : o.trace.map Origin.id ≠ some id)
    (r : Record t) (hfit : pktHdrSize + r.body.length ≤ packetBufsize) (qs : List Query) :
    replies qs (loaded r id o) = replies qs (loaded r id (createPacket o.buffer)) := by
  have hread := traceReadPacket_other hother r hfit
  have hnew := @traceReadPacket_other t id (createPacket o.buffer) nofun r hfit
  have hq := (h _ (congrArg Prod.fst hread)).2 qs
  rwa [afterRead, afterRead, hread, hnew] at hq

end Libtrace.PacketRefill
