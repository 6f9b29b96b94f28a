import Libtrace.ErfFile

/-! ERF records as they stand in a file, and what `erf_read_packet` makes of them. -/

namespace Libtrace.ErfRecords
open ByteOrder Window ErfFile
open PcapFile (packetBufsize)

structure Fits (h : DagRecord) : Prop where
  ts : h.ts < 256 ^ 8
  rlen : h.rlen < 256 ^ 2
  lctr : h.lctr < 256 ^ 2
  wlen : h.wlen < 256 ^ 2

theorem length_encode (h : DagRecord) : h.encode.length = dagRecordSize := by
  simp [DagRecord.encode, dagRecordSize]

theorem decodeHeader_encode {h : DagRecord} (hf : Fits h) (buffer : Nat → UInt8) :
    decodeHeader (store buffer 0 h.encode) = h := by
  have hsplit : h.encode = leBytes 8 h.ts ++ ([h.type, h.flags] ++ (beBytes 2 h.rlen ++
      (beBytes 2 h.lctr ++ beBytes 2 h.wlen))) := by simp [DagRecord.encode]
  have hts : window (store buffer 0 h.encode) 0 8 = leBytes 8 h.ts := by
    exact window_store_between buffer (a := []) (b := leBytes 8 h.ts) rfl (by simp)
  have hbytes : window (store buffer 0 h.encode) 8 10 = [h.type, h.flags] := by
    rw [hsplit]
    exact window_store_between buffer (by simp) rfl
  have hrlen : window (store buffer 0 h.encode) 10 12 = beBytes 2 h.rlen := by
    rw [hsplit, ← List.append_assoc]
    exact window_store_between buffer (by simp) (by simp)
  have hlctr : window (store buffer 0 h.encode) 12 14 = beBytes 2 h.lctr := by
    rw [hsplit, ← List.append_assoc, ← List.append_assoc]
    exact window_store_between buffer (by simp) (by simp)
  have hwlen : window (store buffer 0 h.encode) 14 16 = beBytes 2 h.wlen := by
    rw [DagRecord.encode, ← List.append_nil (beBytes 2 h.wlen)]
    exact window_store_between buffer (by simp) (by simp)
  obtain ⟨htype, hflags⟩ : store buffer 0 h.encode 8 = h.type ∧
      store buffer 0 h.encode 9 = h.flags := by
    have hpair : [store buffer 0 h.encode 8, store buffer 0 h.encode 9] =
      [h.type, h.flags] := hbytes
    simpa using hpair
  rw [decodeHeader, hts, hrlen, hlctr, hwlen, leNat_leBytes hf.ts, beNat_beBytes hf.rlen,
    beNat_beBytes hf.lctr, beNat_beBytes hf.wlen, htype, hflags]

theorem decodeHeader_store {p : Nat} (hp : dagRecordSize ≤ p) (buffer : Nat → UInt8)
    (data : List UInt8) : decodeHeader (store buffer p data) = decodeHeader buffer := by
  rw [dagRecordSize] at hp
  have hbyte : ∀ i < 16, store buffer p data i = buffer i := fun i hi => if_neg (by omega)
  simp only [decodeHeader, hbyte 8 (by decide), hbyte 9 (by decide)]
  rw [window_store_of_le _ (by omega), window_store_of_le _ (by omega),
    window_store_of_le _ (by omega), window_store_of_le _ (by omega)]

section

variable {h : DagRecord} (hf : Fits h) (buffer : Nat → UInt8) (body rest : List UInt8) (drops : Nat)
include hf

def recordBuffer (h : DagRecord) (buffer : Nat → UInt8) (body : List UInt8) : Nat → UInt8 :=
  store (store buffer 0 h.encode) dagRecordSize body

theorem decodeHeader_recordBuffer : decodeHeader (recordBuffer h buffer body) = h := by
  rw [recordBuffer, decodeHeader_store (Nat.le_refl _), decodeHeader_encode hf]

theorem readPacket_short (hshort : h.rlen < dagRecordSize) :
    readPacket ⟨h.encode ++ rest, drops⟩ buffer = (.error .tooLarge, ⟨rest, drops⟩) := by
  have hlen := length_encode h
  have hne : h.encode ≠ [] := fun he => by simp [he, dagRecordSize] at hlen
  have hsize : packetBufsize ≤ (2 ^ 32 + h.rlen - dagRecordSize) % 2 ^ 32 := by
    simp only [dagRecordSize, packetBufsize] at hshort ⊢
    omega
  have htake : (h.encode ++ rest).take dagRecordSize = h.encode := List.take_left' hlen
  have hdrop : (h.encode ++ rest).drop dagRecordSize = rest := List.drop_left' hlen
  simp only [readPacket, htake, hdrop, if_neg hne, hlen, Nat.lt_irrefl, if_false,
    decodeHeader_encode hf, if_pos hsize]

theorem readPacket_record (hkind : h.kind < typeRawLink)
    (hbody : dagRecordSize + body.length = h.rlen) :
    readPacket ⟨h.encode ++ (body ++ rest), drops⟩ buffer =
      finishRead ⟨rest, drops⟩ (recordBuffer h buffer body) h.rlen := by
  have hlen := length_encode h
  have hne : h.encode ≠ [] := fun he => by simp [he, dagRecordSize] at hlen
  have hr := hf.rlen
  have hsize : (2 ^ 32 + h.rlen - dagRecordSize) % 2 ^ 32 = body.length := by
    omega
  have hfit : ¬ packetBufsize ≤ body.length := by
    simp only [packetBufsize]
    omega
  have htake : (h.encode ++ (body ++ rest)).take dagRecordSize = h.encode := List.take_left' hlen
  have hdrop : (h.encode ++ (body ++ rest)).drop dagRecordSize = body ++ rest :=
    List.drop_left' hlen
  simp only [readPacket, htake, hdrop, if_neg hne, hlen, Nat.lt_irrefl, if_false,
    decodeHeader_encode hf, hsize, if_neg hfit, if_neg (Nat.not_le.mpr hkind), List.take_left,
    List.drop_left, ne_eq, not_true_eq_false, recordBuffer]

theorem preparePacket_plain (hext : h.extended = false) (herr : h.rxerror = false)
    (hpos : h.rlen ≠ 0) (t : ErfTrace) :
    ∃ drops', preparePacket t (recordBuffer h buffer body) =
      .ok (⟨recordBuffer h buffer body, some (dagRecordSize + padding h)⟩, ⟨t.io, drops'⟩) := by
  refine ⟨if h.kind = typeDsmColorEth then t.drops else t.drops + h.lctr, ?_⟩
  simp only [preparePacket, payloadOf, decodeHeader_recordBuffer hf, framingLength, extensions,
    hext, herr, if_neg hpos]
  rfl

theorem readPacket_plain (hext : h.extended = false) (herr : h.rxerror = false)
    (hkind : h.kind < typeRawLink) (hbody : dagRecordSize + body.length = h.rlen) :
    ∃ drops', readPacket ⟨h.encode ++ (body ++ rest), drops⟩ buffer =
      (.packet ⟨recordBuffer h buffer body, some (dagRecordSize + padding h)⟩ h.rlen,
        ⟨rest, drops'⟩) := by
  have hpos : h.rlen ≠ 0 := by
    rw [← hbody, dagRecordSize]
    omega
  obtain ⟨drops', hprepare⟩ := preparePacket_plain hf buffer body hext herr hpos ⟨rest, drops⟩
  refine ⟨drops', ?_⟩
  rw [readPacket_record hf buffer body rest drops hkind hbody, finishRead, hprepare]

end

section

structure Accepted (t : ErfTrace) (buffer : Nat → UInt8) (p : ErfPacket) : Prop where
  complete : dagRecordSize ≤ t.io.length
  header : p.header = decodeHeader (store buffer 0 (t.io.take dagRecordSize))
  rlen : dagRecordSize ≤ p.header.rlen
  kind : p.header.kind < typeRawLink
  payload : payloadOf p.buffer = .ok p.payload

theorem rlen_lt (buffer : Nat → UInt8) : (decodeHeader buffer).rlen < 65536 := by
  have h := beNat_lt (window buffer 10 12)
  rwa [length_window] at h

theorem finishRead_packet {t t' : ErfTrace} {buffer : Nat → UInt8} {rlen ret : Nat} {p : ErfPacket}
    (h : finishRead t buffer rlen = (.packet p ret, t')) :
    p.buffer = buffer ∧ ret = rlen ∧ payloadOf buffer = .ok p.payload := by
  unfold finishRead at h
  split at h
  · rename_i p' t'' hprepare
    obtain ⟨hp, -⟩ := Prod.mk.inj h
    obtain ⟨rfl, rfl⟩ := ReadResult.packet.inj hp
    unfold preparePacket at hprepare
    cases hpayload : payloadOf buffer with
    | error f => rw [hpayload] at hprepare; cases hprepare
    | ok payload =>
      rw [hpayload] at hprepare
      change (if (decodeHeader buffer).rlen = 0 then _ else _) = _ at hprepare
      split at hprepare
      · cases hprepare
      · obtain ⟨rfl, -⟩ := Prod.mk.inj (Except.ok.inj hprepare)
        exact ⟨rfl, rfl, rfl⟩
  · cases h

theorem accepted_of_packet {t t' : ErfTrace} {buffer : Nat → UInt8} {p : ErfPacket} {ret : Nat}
    (h : readPacket t buffer = (.packet p ret, t')) : Accepted t buffer p := by
  simp only [readPacket] at h
  split at h
  · cases h
  split at h
  · cases h
  rename_i hlong
  split at h
  · cases h
  rename_i hsize
  split at h
  · cases h
  rename_i hkind
  split at h
  · cases h
  obtain ⟨hbuffer, -, hpayload⟩ := finishRead_packet h
  have hheader : p.header = decodeHeader (store buffer 0 (t.io.take dagRecordSize)) := by
    rw [ErfPacket.header, hbuffer, decodeHeader_store (Nat.le_refl _)]
  refine ⟨?_, hheader, ?_, ?_, hbuffer ▸ hpayload⟩
  · rw [List.length_take] at hlong
    omega
  · rw [hheader]
    simp only [packetBufsize, dagRecordSize] at hsize ⊢
    omega
  · rw [hheader]
    exact Nat.not_le.mp hkind

end

end Libtrace.ErfRecords
