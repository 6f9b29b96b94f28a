import Libtrace.ErfRecords
import Libtrace.Exec

/-! Seeking in an ERF trace without an index: `erf_seek_erf` reads from the start until a time is
reached. -/

namespace Libtrace.ErfSeek
open Exec Window Protocols ErfFile ErfRecords
open PcapFile (packetBufsize byte_ok le32_agree)

inductive IndexState where
  | unknown
  | absent
  | present
  | other
  deriving DecidableEq, Repr

structure SeekTrace where
  file : List UInt8
  pos : Nat
  index : IndexState
  drops : Nat

/-- The offset that `erf_seek_erf` seeks to. After the end of the file or an error `packet->header`
is null when the time is read. -/
def seekLoop (erfts : Nat) (file : List UInt8) :
    Nat → ErfTrace → Nat → (Nat → UInt8) → Decode (Nat × Nat)
  | 0, _, _, _ => .error .unfinished
  | fuel + 1, t, off, buffer =>
    match readPacket t buffer with
    | (.packet p _, t') =>
      if getErfTimestamp p = erfts then .ok (off, t'.drops)
      else
        let off := file.length - t'.io.length
        if getErfTimestamp p < erfts then seekLoop erfts file fuel t' off p.buffer
        else .ok (off, t'.drops)
    | (.eof, _) => .error .nullPointer
    | (.error _, _) => .error .nullPointer
    | (.fault f, _) => .error f

def findIndex : IndexState → IndexState
  | .unknown => .absent
  | index => index

/-- Where the search starts. The index of a trace without one was never opened. -/
def startOf (t : SeekTrace) : Decode Nat :=
  match findIndex t.index with
  | .present => .error .outOfRange
  | .absent => .ok 0
  | .unknown => .error .assertion
  | .other => .ok t.pos

def seekErf (erfts : Nat) (buffer : Nat → UInt8) (t : SeekTrace) : Decode SeekTrace := do
  let pos ← startOf t
  let (off, drops) ←
    seekLoop erfts t.file (t.file.length + 1) ⟨t.file.drop pos, t.drops⟩ 0 buffer
  return ⟨t.file, off, findIndex t.index, drops⟩

def captured (bytes : List UInt8) : Memory := fun i => bytes[i]?

/-- A record that can be read: its length is right, its type known, its extension headers end
inside. -/
structure ErfRecord where
  header : DagRecord
  body : List UInt8
  fits : Fits header
  known : header.kind < typeRawLink
  complete : dagRecordSize + body.length = header.rlen
  framed : ∃ n, framingLength (captured (header.encode ++ body)) header = .ok n

def ErfRecord.bytes (r : ErfRecord) : List UInt8 := r.header.encode ++ r.body

def ErfRecord.ts (r : ErfRecord) : Nat := r.header.ts

def bytesOf (rs : List ErfRecord) : List UInt8 := rs.flatMap ErfRecord.bytes

section

variable {m : Memory}

theorem le64_agree {i n : Nat} (h : le64 m i = .ok n) :
    (∃ b, m (i + 7) = some b) ∧
      ∀ m' : Memory, (∀ j < i + 8, m' j = m j) → le64 m' i = .ok n := by
  refine ⟨?_, fun m' hm => ?_⟩
  · obtain ⟨low, _, h⟩ := except_bind_ok.mp h
    obtain ⟨high, hhigh, _⟩ := except_bind_ok.mp h
    obtain ⟨_, _, hhigh⟩ := except_bind_ok.mp hhigh
    obtain ⟨_, hword, _⟩ := except_bind_ok.mp hhigh
    obtain ⟨_, _, hword⟩ := except_bind_ok.mp hword
    obtain ⟨_, hbyte, _⟩ := except_bind_ok.mp hword
    obtain ⟨b, hb, _⟩ := byte_ok hbyte
    exact ⟨b, hb⟩
  · rw [le64, le32_agree fun j hj => hm j (by omega), le32_agree fun j hj => hm j (by omega)]
    exact h

theorem extensionSize_agree {rlen fuel e n : Nat} (h : extensionSize m rlen fuel e = .ok n)
    (he : 8 ≤ e) :
    (∃ b, m (dagRecordSize + n - 1) = some b) ∧
      e ≤ n ∧ ∀ m' : Memory, (∀ j < dagRecordSize + n, m' j = m j) →
        extensionSize m' rlen fuel e = .ok n := by
  induction fuel generalizing e with
  | zero => cases h
  | succ fuel ih =>
    obtain ⟨exthdr, hext, h⟩ := except_bind_ok.mp h
    obtain ⟨hlast, hagree⟩ := le64_agree hext
    by_cases hmore : exthdr < 2 ^ 31
    · rw [if_pos hmore] at h
      by_cases hlen : e + 8 ≤ rlen
      · rw [if_pos hlen] at h
        obtain ⟨hb, hle, hm⟩ := ih h (by omega)
        refine ⟨hb, by omega, fun m' hm' => except_bind_ok.mpr ⟨exthdr, ?_, ?_⟩⟩
        · exact hagree m' fun j hj => hm' j (by omega)
        · rw [if_pos hmore, if_pos hlen]
          exact hm m' hm'
      · rw [if_neg hlen] at h
        cases h
    · rw [if_neg hmore] at h
      obtain rfl := Except.ok.inj h
      refine ⟨?_, Nat.le_refl _, fun m' hm' => except_bind_ok.mpr ⟨exthdr, ?_, if_neg hmore⟩⟩
      · rwa [show dagRecordSize + e - 8 + 7 = dagRecordSize + e - 1 by omega] at hlast
      · exact hagree m' fun j hj => hm' j (by omega)

theorem framingLength_agree {h : DagRecord} {n : Nat} {bytes : List UInt8}
    (hn : framingLength (captured bytes) h = .ok n) {m' : Memory}
    (hm : ∀ i < bytes.length, m' i = captured bytes i) : framingLength m' h = .ok n := by
  obtain ⟨e, he, hn⟩ := except_bind_ok.mp hn
  refine except_bind_ok.mpr ⟨e, ?_, hn⟩
  unfold extensions at he ⊢
  split
  · rw [if_pos ‹_›] at he
    obtain ⟨⟨b, hb⟩, hle, hagree⟩ := extensionSize_agree he (Nat.le_refl 8)
    obtain ⟨hlt, _⟩ := List.getElem?_eq_some_iff.mp hb
    exact hagree m' fun j hj => hm j (by omega)
  · rwa [if_neg ‹_›] at he

end

section

variable (r : ErfRecord) (buffer : Nat → UInt8)

theorem length_bytes : r.bytes.length = r.header.rlen := by
  rw [ErfRecord.bytes, List.length_append, length_encode, r.complete]

theorem recordBuffer_bytes {i : Nat} (hi : i < r.bytes.length) :
    bufferMemory (recordBuffer r.header buffer r.body) i = captured r.bytes i := by
  have hlen := length_encode r.header
  have hr := r.fits.rlen
  have hin : i < packetBufsize := by
    rw [length_bytes] at hi
    exact Nat.lt_trans hi hr
  have hget := List.getElem?_eq_getElem hi
  rw [bufferMemory, if_pos hin, captured, recordBuffer, store]
  unfold ErfRecord.bytes at hget ⊢
  split
  · rw [List.getElem?_append_right (by omega), hlen] at hget ⊢
    rw [hget]
    rfl
  · rw [List.getElem?_append_left (by omega)] at hget ⊢
    rw [store, if_pos (Nat.zero_le i), Nat.sub_zero, hget]
    rfl

theorem payloadOf_record : ∃ payload,
    payloadOf (recordBuffer r.header buffer r.body) = .ok payload := by
  obtain ⟨n, hn⟩ := r.framed
  have hframing := framingLength_agree hn fun i hi => recordBuffer_bytes r buffer hi
  simp only [payloadOf, decodeHeader_recordBuffer r.fits]
  split
  · exact ⟨none, rfl⟩
  · rw [hframing]
    exact ⟨some n, rfl⟩

theorem readPacket_bytes (rest : List UInt8) (drops : Nat) : ∃ p drops',
    readPacket ⟨r.bytes ++ rest, drops⟩ buffer = (.packet p r.header.rlen, ⟨rest, drops'⟩) ∧
      getErfTimestamp p = r.ts := by
  have hheader := decodeHeader_recordBuffer r.fits buffer r.body
  have hpos : r.header.rlen ≠ 0 := by
    rw [← r.complete, dagRecordSize]
    omega
  obtain ⟨payload, hpayload⟩ := payloadOf_record r buffer
  refine ⟨⟨recordBuffer r.header buffer r.body, payload⟩,
    if r.header.kind = typeDsmColorEth then drops else drops + r.header.lctr, ?_, ?_⟩
  · rw [ErfRecord.bytes, List.append_assoc,
      readPacket_record r.fits buffer r.body rest drops r.known r.complete, finishRead,
      preparePacket, hpayload, ok_bind, hheader, if_neg hpos]
    rfl
  · rw [getErfTimestamp, ErfPacket.header, hheader, ErfRecord.ts]

end

end Libtrace.ErfSeek
