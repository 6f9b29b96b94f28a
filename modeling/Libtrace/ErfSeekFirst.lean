import Libtrace.ErfSeek

/-! Where a seek in an ERF trace with its records in order leaves the trace. -/

namespace Libtrace.ErfSeekFirst
open Exec ErfFile ErfSeek

/-- The records from the offset on that the loop seeks to: `keep` starts at the offset it
remembers. -/
def landing (erfts : Nat) : List ErfRecord → List ErfRecord → Option (List ErfRecord)
  | _, [] => none
  | keep, r :: rs =>
    if r.ts = erfts then some keep else if r.ts < erfts then landing erfts rs rs else some rs

theorem bytesOf_cons (r : ErfRecord) (rs : List ErfRecord) :
    bytesOf (r :: rs) = r.bytes ++ bytesOf rs := rfl

theorem readPacket_nil (drops : Nat) (buffer : Nat → UInt8) :
    readPacket ⟨[], drops⟩ buffer = (.eof, ⟨[], drops⟩) := by
  simp only [readPacket, List.take_nil, List.drop_nil, if_true]

def offsetOf (all rs : List ErfRecord) : Nat := (bytesOf all).length - (bytesOf rs).length

theorem seekLoop_bytes (erfts : Nat) (file : List UInt8) (fuel : Nat) (r : ErfRecord)
    (rest : List UInt8) (drops off : Nat) (buffer : Nat → UInt8) : ∃ drops' buffer',
    seekLoop erfts file (fuel + 1) ⟨r.bytes ++ rest, drops⟩ off buffer =
      if r.ts = erfts then .ok (off, drops')
      else if r.ts < erfts then
        seekLoop erfts file fuel ⟨rest, drops'⟩ (file.length - rest.length) buffer'
      else .ok (file.length - rest.length, drops') := by
  obtain ⟨p, drops', hread, hts⟩ := readPacket_bytes r buffer rest drops
  refine ⟨drops', p.buffer, ?_⟩
  simp only [seekLoop, hread, hts]

theorem seekLoop_landing (erfts : Nat) (all : List ErfRecord) (rs : List ErfRecord) {fuel : Nat}
    (hfuel : rs.length < fuel) (keep : List ErfRecord) (drops : Nat) (buffer : Nat → UInt8) :
    Prod.fst <$> seekLoop erfts (bytesOf all) fuel ⟨bytesOf rs, drops⟩ (offsetOf all keep) buffer =
      (landing erfts keep rs).elim (.error .nullPointer) fun l => .ok (offsetOf all l) := by
  induction rs generalizing fuel keep drops buffer with
  | nil =>
    cases fuel with
    | zero => simp at hfuel
    | succ fuel =>
      rfl
  | cons r rs ih =>
    cases fuel with
    | zero => simp at hfuel
    | succ fuel =>
      obtain ⟨drops', buffer', hstep⟩ := seekLoop_bytes erfts (bytesOf all) fuel r (bytesOf rs)
        drops (offsetOf all keep) buffer
      rw [bytesOf_cons, hstep, landing]
      by_cases heq : r.ts = erfts
      · rw [if_pos heq, if_pos heq]
        rfl
      · rw [if_neg heq, if_neg heq]
        by_cases hlt : r.ts < erfts
        · rw [if_pos hlt, if_pos hlt]
          exact ih (by simpa using hfuel) rs drops' buffer'
        · rw [if_neg hlt, if_neg hlt]
          rfl

def fromFirst (erfts : Nat) (rs : List ErfRecord) : List ErfRecord :=
  rs.dropWhile fun r => r.ts < erfts

theorem fromFirst_suffix (erfts : Nat) (rs : List ErfRecord) : fromFirst erfts rs <:+ rs :=
  List.dropWhile_suffix _

structure TraceFile where
  records : List ErfRecord
  sorted : records.Pairwise fun r r' => r.ts ≤ r'.ts

variable {erfts : Nat} {rs all l : List ErfRecord} {index : IndexState}

theorem landing_eq_fromFirst_iff (hs : rs.Pairwise fun r r' => r.ts ≤ r'.ts) :
    landing erfts rs rs = some (fromFirst erfts rs) ↔ ∃ r ∈ rs, r.ts = erfts := by
  induction rs with
  | nil => simp [landing]
  | cons r rs ih =>
    obtain ⟨hfirst, hrest⟩ := List.pairwise_cons.mp hs
    rw [landing, fromFirst, List.dropWhile_cons]
    by_cases heq : r.ts = erfts
    · simp [heq]
    · rw [if_neg heq]
      by_cases hlt : r.ts < erfts
      · rw [if_pos hlt, if_pos (by simpa using hlt)]
        exact (ih hrest).trans (by simp [heq])
      · rw [if_neg hlt, if_neg (by simpa using hlt)]
        refine iff_of_false (by simp) ?_
        rintro ⟨r', hmem, rfl⟩
        rcases List.mem_cons.mp hmem with rfl | hmem
        · exact heq rfl
        · have := hfirst r' hmem
          omega

theorem landing_suffix {keep : List ErfRecord} (hkeep : keep <:+ all) (hrs : rs <:+ all)
    (h : landing erfts keep rs = some l) : l <:+ all := by
  induction rs generalizing keep with
  | nil => cases h
  | cons r rs ih =>
    have hrs' : rs <:+ all := (List.suffix_cons r rs).trans hrs
    rw [landing] at h
    split at h
    · obtain rfl := Option.some.inj h
      exact hkeep
    split at h
    · exact ih hrs' hrs' h
    · obtain rfl := Option.some.inj h
      exact hrs'

theorem bytesOf_append (l l' : List ErfRecord) : bytesOf (l ++ l') = bytesOf l ++ bytesOf l' :=
  List.flatMap_append

theorem length_le_bytesOf (l : List ErfRecord) : l.length ≤ (bytesOf l).length := by
  induction l with
  | nil => exact Nat.le_refl 0
  | cons r l ih =>
    have hr := length_bytes r
    have hpos := r.complete
    rw [dagRecordSize] at hpos
    rw [bytesOf_cons, List.length_append, List.length_cons]
    omega

theorem drop_offsetOf (h : l <:+ all) : (bytesOf all).drop (offsetOf all l) = bytesOf l := by
  obtain ⟨before, rfl⟩ := h
  rw [offsetOf, bytesOf_append, List.length_append, Nat.add_sub_cancel, List.drop_left]

theorem suffix_eq_of_bytesOf {l' : List ErfRecord} (h : l <:+ all) (h' : l' <:+ all)
    (heq : bytesOf l = bytesOf l') : l = l' := by
  have hlen := congrArg List.length heq
  rcases List.suffix_or_suffix_of_suffix h h' with ⟨before, rfl⟩ | ⟨before, rfl⟩ <;>
  · have hle := length_le_bytesOf before
    rw [bytesOf_append, List.length_append] at hlen
    rw [List.length_eq_zero_iff.mp (show before.length = 0 by omega), List.nil_append]

theorem seekErf_fst (hindex : index = .unknown ∨ index = .absent) (erfts : Nat)
    (rs : List ErfRecord) (pos drops : Nat) (buffer : Nat → UInt8) :
    (fun t => (t.file, t.pos)) <$> seekErf erfts buffer ⟨bytesOf rs, pos, index, drops⟩ =
      (landing erfts rs rs).elim (.error .nullPointer) fun l =>
        .ok (bytesOf rs, offsetOf rs l) := by
  have hstart : startOf ⟨bytesOf rs, pos, index, drops⟩ = .ok 0 := by
    rcases hindex with rfl | rfl <;> rfl
  have hfuel : rs.length < (bytesOf rs).length + 1 := Nat.lt_succ_of_le (length_le_bytesOf rs)
  have hzero : offsetOf rs rs = 0 := Nat.sub_self _
  have hloop := seekLoop_landing erfts rs rs hfuel rs drops buffer
  rw [hzero] at hloop
  rw [seekErf, hstart, ok_bind, List.drop_zero]
  calc _ = (fun off => (bytesOf rs, off)) <$> Prod.fst <$> seekLoop erfts (bytesOf rs)
        ((bytesOf rs).length + 1) ⟨bytesOf rs, drops⟩ 0 buffer := by
        cases seekLoop erfts (bytesOf rs) ((bytesOf rs).length + 1) ⟨bytesOf rs, drops⟩ 0 buffer <;>
          rfl
    _ = _ := by
        rw [hloop]
        cases landing erfts rs rs <;> rfl

theorem seekErf_other_end (erfts : Nat) (rs : List ErfRecord) (drops : Nat) (buffer : Nat → UInt8) :
    seekErf erfts buffer ⟨bytesOf rs, offsetOf rs [], .other, drops⟩ = .error .nullPointer := by
  have hdrop : (bytesOf rs).drop (offsetOf rs []) = [] := drop_offsetOf (List.nil_suffix)
  have hstart : startOf ⟨bytesOf rs, offsetOf rs [], .other, drops⟩ = .ok (offsetOf rs []) := rfl
  rw [seekErf, hstart, ok_bind, hdrop, seekLoop, readPacket_nil]
  rfl

def Seeks (f : TraceFile) (index : IndexState) (erfts : Nat) : Prop :=
  ∀ j ≤ f.records.length, ∀ drops buffer, ∃ t,
    seekErf erfts buffer
        ⟨bytesOf f.records, offsetOf f.records (f.records.drop j), index, drops⟩ = .ok t ∧
      t.file.drop t.pos = bytesOf (fromFirst erfts f.records)

theorem landing_of_seeks {f : TraceFile} (hindex : index = .unknown ∨ index = .absent)
    (h : Seeks f index erfts) :
    landing erfts f.records f.records = some (fromFirst erfts f.records) := by
  obtain ⟨t, ht, hunread⟩ := h 0 (Nat.zero_le _) 0 fun _ => 0
  have hfst := seekErf_fst hindex erfts f.records
    (offsetOf f.records (f.records.drop 0)) 0 fun _ => 0
  rw [ht] at hfst
  cases hl : landing erfts f.records f.records with
  | none =>
    rw [hl] at hfst
    cases hfst
  | some l =>
    rw [hl] at hfst
    obtain ⟨hfile, hpos⟩ := Prod.mk.inj (Except.ok.inj hfst)
    have hsuffix := landing_suffix List.suffix_rfl List.suffix_rfl hl
    rw [hfile, hpos, drop_offsetOf hsuffix] at hunread
    rw [suffix_eq_of_bytesOf hsuffix (fromFirst_suffix _ _) hunread]

theorem seeks_iff (f : TraceFile) (index : IndexState) (erfts : Nat) :
    Seeks f index erfts ↔
      (index = .unknown ∨ index = .absent) ∧ ∃ r ∈ f.records, r.ts = erfts := by
  rw [← landing_eq_fromFirst_iff f.sorted]
  constructor
  · intro h
    have hindex : index = .unknown ∨ index = .absent := by
      cases index with
      | unknown => exact .inl rfl
      | absent => exact .inr rfl
      | present =>
        obtain ⟨t, ht, _⟩ := h 0 (Nat.zero_le _) 0 fun _ => 0
        cases ht
      | other =>
        obtain ⟨t, ht, _⟩ := h _ (Nat.le_refl _) 0 fun _ => 0
        rw [List.drop_length, seekErf_other_end] at ht
        cases ht
    exact ⟨hindex, landing_of_seeks hindex h⟩
  · rintro ⟨hindex, hl⟩ j _ drops buffer
    have hfst := seekErf_fst hindex erfts f.records (offsetOf f.records (f.records.drop j)) drops
      buffer
    rw [hl] at hfst
    cases ht : seekErf erfts buffer
        ⟨bytesOf f.records, offsetOf f.records (f.records.drop j), index, drops⟩ with
    | error e =>
      rw [ht] at hfst
      cases hfst
    | ok t =>
      rw [ht] at hfst
      obtain ⟨hfile, hpos⟩ := Prod.mk.inj (Except.ok.inj hfst)
      exact ⟨t, rfl, by rw [hfile, hpos, drop_offsetOf (fromFirst_suffix _ _)]⟩

def recordAt (ts : UInt64) : ErfRecord where
  header := ⟨ts.toNat, 1, 1, 20, 0, 4⟩
  body := [0x0f, 0x00, 0x08, 0x00]
  fits := ⟨ts.toNat_lt, show 20 < 256 ^ 2 by decide, show 0 < 256 ^ 2 by decide,
    show 4 < 256 ^ 2 by decide⟩
  known := show (1 : UInt8).toNat % 128 < typeRawLink by decide
  complete := rfl
  framed := ⟨16, by simp [framingLength, extensions, DagRecord.extended, padding, DagRecord.kind,
    typeEth, typeDsmColorEth, dagRecordSize, ok_bind, pure, Except.pure]⟩

def twoRecords : TraceFile where
  records := [recordAt 0x4000000000000000, recordAt 0x4000000200000000]
  sorted := by decide +kernel

/-- A time between them: the second packet is skipped. -/
theorem between_not_seeks : ¬ Seeks twoRecords .unknown 0x4000000100000000 := by
  intro h
  have hlanding := congrArg (Option.map List.length) (landing_of_seeks (.inl rfl) h)
  exact absurd hlanding (by decide +kernel)

end Libtrace.ErfSeekFirst
