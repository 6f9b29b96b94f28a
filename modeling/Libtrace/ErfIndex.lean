import Libtrace.Exec
import Libtrace.Protocols

/-! `erf_fast_seek_start`: the search for a time in the index of an ERF trace, with a quarter of the
sum of its ends for the middle of a range. -/

namespace Libtrace.ErfIndex
open Exec Protocols

structure IndexRecord where
  timestamp : Nat
  offset : Nat

variable (index : List IndexRecord)

def readRecord (current : Nat) : Decode IndexRecord :=
  match index[current]? with
  | none => .error .outOfRange
  | some record => .ok record

def search (index : List IndexRecord) (erfts : Nat) : Nat → Nat → Nat → Decode Nat
  | 0, _, _ => .error .unfinished
  | fuel + 1, minOff, maxOff => do
    let current := (maxOff + minOff) >>> 2
    let record ← readRecord index current
    if record.timestamp = erfts then return current
    let minOff := if record.timestamp < erfts then current else minOff
    let maxOff := if record.timestamp > erfts then current else maxOff
    if minOff < maxOff then search index erfts fuel minOff maxOff else return current

def walkBack (index : List IndexRecord) (erfts : Nat) : Nat → Decode IndexRecord
  | 0 => do
    let record ← readRecord index 0
    if record.timestamp > erfts then .error .outOfRange else return record
  | current + 1 => do
    let record ← readRecord index (current + 1)
    if record.timestamp > erfts then walkBack index erfts current else return record

/-- `sizeof(erf_index_t)`. -/
def indexSize : Nat := 16

/-- `index_len` is what the trace says about its index; nothing sets it. -/
def fastSeekStart (indexLen erfts fuel : Nat) : Decode Nat := do
  let current ← search index erfts fuel 0 (indexLen / indexSize)
  let record ← walkBack index erfts current
  return record.offset

/-- The search ends at a record with the last time that is not too late. -/
def Seeks (indexLen erfts : Nat) : Prop :=
  ∃ fuel record, fastSeekStart index indexLen erfts fuel = .ok record.offset ∧ record ∈ index ∧
    record.timestamp ≤ erfts ∧
    ∀ r ∈ index, r.timestamp ≤ erfts → r.timestamp ≤ record.timestamp

def timeAt (i : Nat) : Nat := (index[i]?.map IndexRecord.timestamp).getD 0

section

variable {index : List IndexRecord} {erfts i current : Nat} {record : IndexRecord}

theorem readRecord_lt (h : i < index.length) :
    ∃ record ∈ index, readRecord index i = .ok record ∧ record.timestamp = timeAt index i := by
  have hget := List.getElem?_eq_getElem h
  refine ⟨index[i], List.getElem_mem h, ?_, ?_⟩
  · rw [readRecord, hget]
  · rw [timeAt, hget]
    rfl

theorem readRecord_ok (h : readRecord index i = .ok record) :
    i < index.length ∧ record.timestamp = timeAt index i := by
  unfold readRecord at h
  cases hget : index[i]? with
  | none => simp [hget] at h
  | some r =>
    rw [hget] at h
    obtain rfl := Except.ok.inj h
    refine ⟨(List.getElem?_eq_some_iff.mp hget).1, ?_⟩
    rw [timeAt, hget]
    rfl

theorem timeAt_mono (hsorted : index.Pairwise fun a b => a.timestamp ≤ b.timestamp) {j : Nat}
    (hij : i ≤ j) (hj : j < index.length) : timeAt index i ≤ timeAt index j := by
  have hi : i < index.length := Nat.lt_of_le_of_lt hij hj
  rw [timeAt, timeAt, List.getElem?_eq_getElem hi, List.getElem?_eq_getElem hj]
  obtain rfl | hlt := Nat.eq_or_lt_of_le hij
  · exact Nat.le_refl _
  · exact List.pairwise_iff_getElem.mp hsorted i j hi hj hlt

theorem walkBack_of_le (h : current < index.length) (htime : timeAt index current ≤ erfts) :
    ∃ record ∈ index, walkBack index erfts current = .ok record ∧
      record.timestamp = timeAt index current := by
  obtain ⟨record, hmem, hread, hrecord⟩ := readRecord_lt h
  have hlate : ¬ record.timestamp > erfts := by omega
  refine ⟨record, hmem, ?_, hrecord⟩
  cases current with
  | zero => rw [walkBack, hread, ok_bind, if_neg hlate]; rfl
  | succ current => rw [walkBack, hread, ok_bind, if_neg hlate]; rfl

theorem seeks_of_search {fuel indexLen : Nat} (h : current < index.length)
    (hsearch : search index erfts fuel 0 (indexLen / indexSize) = .ok current)
    (htime : timeAt index current ≤ erfts)
    (hlast : ∀ r ∈ index, r.timestamp ≤ erfts → r.timestamp ≤ timeAt index current) :
    Seeks index indexLen erfts := by
  obtain ⟨record, hmem, hwalk, hrecord⟩ := walkBack_of_le h htime
  refine ⟨fuel, record, ?_, hmem, hrecord ▸ htime, fun r hr hle => hrecord ▸ hlast r hr hle⟩
  exact except_bind_ok.mpr ⟨current, hsearch, except_bind_ok.mpr ⟨record, hwalk, rfl⟩⟩

/-- A range whose lower end is the start of the index or too early. -/
structure Ranged (index : List IndexRecord) (erfts minOff maxOff : Nat) : Prop where
  lt : minOff < maxOff
  early : minOff = 0 ∨ minOff < index.length ∧ timeAt index minOff < erfts

/-- The range stays one as long as the time is not met, so the loop ends there only. -/
theorem search_ok (hsorted : index.Pairwise fun a b => a.timestamp ≤ b.timestamp)
    (hfirst : timeAt index 0 ≤ erfts) {fuel minOff maxOff : Nat}
    (h : Ranged index erfts minOff maxOff)
    (hsearch : search index erfts fuel minOff maxOff = .ok current) :
    current < index.length ∧ timeAt index current = erfts := by
  induction fuel generalizing minOff maxOff with
  | zero => cases hsearch
  | succ fuel ih =>
    obtain ⟨record, hread, hsearch⟩ := except_bind_ok.mp hsearch
    obtain ⟨hin, htime⟩ := readRecord_ok hread
    have hlt := h.lt
    by_cases hmet : record.timestamp = erfts
    · rw [if_pos hmet] at hsearch
      obtain rfl := Except.ok.inj hsearch
      exact ⟨hin, htime.symm.trans hmet⟩
    · rw [if_neg hmet] at hsearch
      have hranged : Ranged index erfts
          (if record.timestamp < erfts then (maxOff + minOff) >>> 2 else minOff)
          (if record.timestamp > erfts then (maxOff + minOff) >>> 2 else maxOff) := by
        by_cases hearly : record.timestamp < erfts
        · rw [if_pos hearly, if_neg (Nat.not_lt_of_lt hearly)]
          exact ⟨by omega, .inr ⟨hin, htime ▸ hearly⟩⟩
        · rw [if_neg hearly, if_pos (by omega)]
          refine ⟨?_, h.early⟩
          -- the middle is too late, so it is behind the lower end
          by_contra hle
          obtain rfl | ⟨hlow, hbefore⟩ := h.early
          · rw [show (maxOff + 0) >>> 2 = 0 by omega] at htime
            omega
          · have := timeAt_mono hsorted (Nat.le_of_not_lt hle) hlow
            omega
      rw [if_pos hranged.lt] at hsearch
      exact ih hranged hsearch

end

/-- In an index in order of time, for a time not before its first record, the search is right if the
first record that it looks at has that very time, or if it takes the index for empty and no other
record is nearer than the first. If it takes it for longer, no index without that time will do. -/
theorem fastSeekStart_seeks (index : List IndexRecord) (indexLen erfts : Nat)
    (hsorted : index.Pairwise fun a b => a.timestamp ≤ b.timestamp) (hne : index ≠ [])
    (hfirst : timeAt index 0 ≤ erfts) :
    (indexLen < indexSize ∧ (∀ r ∈ index, r.timestamp ≤ erfts → r.timestamp ≤ timeAt index 0) ∨
        indexLen / indexSize / 4 < index.length ∧ timeAt index (indexLen / indexSize / 4) = erfts →
      Seeks index indexLen erfts) ∧
    (indexSize ≤ indexLen → Seeks index indexLen erfts → ∃ r ∈ index, r.timestamp = erfts) := by
  have hpos : 0 < index.length := List.length_pos_iff.mpr hne
  refine ⟨?_, fun hlong hseeks => ?_⟩
  · rintro (⟨hshort, hlast⟩ | ⟨hin, hmet⟩)
    · have hzero : indexLen / indexSize = 0 := Nat.div_eq_of_lt hshort
      obtain ⟨record, -, hread, htime⟩ := readRecord_lt hpos
      have hsearch : search index erfts 1 0 (indexLen / indexSize) = .ok 0 := by
        rw [hzero]
        change (readRecord index 0 >>= fun record => _) = _
        rw [hread, ok_bind]
        split_ifs <;> rfl
      exact seeks_of_search hpos hsearch hfirst hlast
    · obtain ⟨record, -, hread, htime⟩ := readRecord_lt hin
      have hsearch : search index erfts 1 0 (indexLen / indexSize) =
          .ok (indexLen / indexSize / 4) := by
        have hmiddle : (indexLen / indexSize + 0) >>> 2 = indexLen / indexSize / 4 :=
          Nat.shiftRight_eq_div_pow _ 2
        rw [search]
        rw [hmiddle, hread, ok_bind, if_pos (htime.trans hmet)]
        rfl
      exact seeks_of_search hin hsearch (Nat.le_of_eq hmet) fun r _ hr => hmet ▸ hr
  · obtain ⟨fuel, record, hseek, -⟩ := hseeks
    obtain ⟨current, hsearch, -⟩ := except_bind_ok.mp hseek
    have hranged : Ranged index erfts 0 (indexLen / indexSize) :=
      ⟨Nat.div_pos hlong (by decide), .inl rfl⟩
    obtain ⟨hin, hmet⟩ := search_ok hsorted hfirst hranged hsearch
    obtain ⟨r, hmem, -, hr⟩ := readRecord_lt hin
    exact ⟨r, hmem, hr.trans hmet⟩

theorem first_seeks : Seeks [⟨10, 0⟩, ⟨20, 64⟩] 32 10 :=
  (fastSeekStart_seeks [⟨10, 0⟩, ⟨20, 64⟩] 32 10 (by simp) (by simp) (by decide)).1
    (.inr ⟨by decide, by decide⟩)

/-- A time behind the only record. -/
theorem later_unfinished : ¬ Seeks [⟨10, 0⟩] 16 11 := by
  have hsearch : ∀ fuel, search [⟨10, 0⟩] 11 fuel 0 1 = .error .unfinished := by
    intro fuel
    induction fuel with
    | zero => rfl
    | succ fuel ih => exact ih
  rintro ⟨fuel, record, hseek, -⟩
  obtain ⟨current, hcurrent, -⟩ := except_bind_ok.mp hseek
  cases (hsearch fuel).symm.trans hcurrent

end Libtrace.ErfIndex
