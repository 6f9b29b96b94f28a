import Libtrace.CombinerSorted

/-! What the sorted combiner delivers. `libtrace_vector_qsort` tells `qsort` to sort `element_size`
elements, here 24. With fewer results the rest of the 24 slots is whatever the memory holds; with
more, those after the first 24 stay where they are. -/

namespace Libtrace.SortedDelivery
open DataVector CombinerSorted

theorem compareResult_nonpos (a b : Result) : compareResult a b ≤ 0 ↔ a.key ≤ b.key := by
  unfold compareResult
  split_ifs with hlt heq
  · exact iff_of_true (by decide) hlt.le
  · exact iff_of_true (by decide) heq.le
  · exact iff_of_false (by decide) fun hle => hlt (lt_of_le_of_ne hle heq)

variable {α : Type} {xs : List Result} {base : Nat → Result} {nmemb n : Nat} {calls : List (Call n)}

theorem flatMap_insert_perm {ι : Type} [DecidableEq ι] (x : α) (j : ι) (f : ι → List α)
    {is : List ι} (hmem : j ∈ is) (hnodup : is.Nodup) :
    (is.flatMap fun i => (if j = i then [x] else []) ++ f i).Perm (x :: is.flatMap f) := by
  induction is with
  | nil => simp at hmem
  | cons i is ih =>
    obtain ⟨hi, hnodup⟩ := List.nodup_cons.mp hnodup
    rw [List.flatMap_cons, List.flatMap_cons]
    by_cases hji : j = i
    · have hrest : (is.flatMap fun i => (if j = i then [x] else []) ++ f i) = is.flatMap f := by
        refine List.flatMap_congr fun l hl => ?_
        have hne : j ≠ l := fun he => hi (hji ▸ he.symm ▸ hl)
        rw [if_neg hne, List.nil_append]
      rw [if_pos hji, hrest, List.append_assoc, List.singleton_append]
    · have hmem' : j ∈ is := (List.mem_cons.mp hmem).resolve_left hji
      rw [if_neg hji, List.nil_append]
      exact ((ih hmem' hnodup).append_left (f i)).trans List.perm_middle

theorem resultsOf_perm {N : Nat} (ps : List (Fin N × Result)) :
    ((List.finRange N).flatMap fun i => resultsOf i ps).Perm (ps.map Prod.snd) := by
  induction ps with
  | nil => simp
  | cons p ps ih =>
    simp only [resultsOf_cons _ p ps, resultsOf_single _ p.1 p.2, List.map_cons]
    refine (flatMap_insert_perm p.2 p.1 (fun i => resultsOf i ps) (List.mem_finRange _)
      (List.nodup_finRange N)).trans ?_
    exact ih.cons p.2

theorem nonTicks_perm {ys : List Result} (h : xs.Perm ys) : (nonTicks xs).Perm (nonTicks ys) :=
  h.filter _

theorem map_getD (l : List α) (d : Nat → α) :
    (List.range l.length).map (fun k => l.getD k (d k)) = l := by
  refine List.ext_getElem (by simp) fun k hk hl => ?_
  simp [hl]

theorem mergeSort_slots (le : Result → Result → Bool) (nmemb : Nat) (base : Nat → Result) :
    (List.range nmemb).map (fun k =>
      (((List.range nmemb).map base).mergeSort le).getD k (base k)) =
        ((List.range nmemb).map base).mergeSort le := by
  have h := map_getD (((List.range nmemb).map base).mergeSort le) base
  rwa [List.length_mergeSort, List.length_map, List.length_range] at h

/-- It sorts by any total order that goes by key first. -/
def qsortBy (le : Result → Result → Bool)
    (htrans : ∀ a b c, le a b = true → le b c = true → le a c = true)
    (htotal : ∀ a b, (le a b || le b a) = true) (hkey : ∀ a b, le a b = true → a.key ≤ b.key) :
    Qsort compareResult where
  run nmemb base k := (((List.range nmemb).map base).mergeSort le).getD k (base k)
  beyond nmemb base k hk := by simp [hk]
  perm nmemb base := by
    rw [mergeSort_slots]
    exact List.mergeSort_perm _ _
  sorted nmemb base := by
    rw [mergeSort_slots]
    exact (List.pairwise_mergeSort htrans htotal _).imp fun hab =>
      (compareResult_nonpos _ _).mpr (hkey _ _ hab)

theorem qsort_slots (q : Qsort compareResult) (hbase : (List.range xs.length).map base = xs)
    (hlen : nmemb ≤ xs.length) :
    (List.range xs.length).map (q.run nmemb base) =
      (List.range nmemb).map (q.run nmemb base) ++ xs.drop nmemb := by
  obtain ⟨extra, hextra⟩ := Nat.exists_eq_add_of_le hlen
  conv_rhs => rw [← hbase]
  rw [hextra, List.range_add, List.map_append, List.map_append, List.drop_left' (by simp)]
  congr 1
  rw [List.map_map, List.map_map]
  exact List.map_congr_left fun k _ => q.beyond _ _ _ (Nat.le_add_right _ _)

/-- No results at all, or at least 24 with the others already in place. -/
def AlreadyPlaced {n : Nat} (calls : List (Call n)) : Prop :=
  gathered calls = [] ∨ sizeofResult ≤ (gathered calls).length ∧
    (nonTicks ((gathered calls).drop sizeofResult)).Pairwise (fun a b => a.key ≤ b.key) ∧
    ∀ a ∈ nonTicks ((gathered calls).take sizeofResult),
      ∀ b ∈ nonTicks ((gathered calls).drop sizeofResult), a.key ≤ b.key

theorem sorted_iff {q : Qsort compareResult} (hbase : (List.range xs.length).map base = xs)
    (hlen : sizeofResult ≤ xs.length) :
    (nonTicks ((List.range xs.length).map (q.run sizeofResult base))).Perm (nonTicks xs) ∧
    (((nonTicks ((List.range xs.length).map (q.run sizeofResult base))).map Result.key).Pairwise
      (· ≤ ·) ↔ (nonTicks (xs.drop sizeofResult)).Pairwise (fun a b => a.key ≤ b.key) ∧
        ∀ a ∈ nonTicks (xs.take sizeofResult), ∀ b ∈ nonTicks (xs.drop sizeofResult),
          a.key ≤ b.key) := by
  have htake : (List.range sizeofResult).map base = xs.take sizeofResult := by
    rw [← hbase, ← List.map_take, List.take_range, Nat.min_eq_left hlen]
  have hperm := q.perm sizeofResult base
  rw [htake] at hperm
  rw [qsort_slots q hbase hlen, nonTicks_append]
  constructor
  · have hsplit := congrArg nonTicks (List.take_append_drop sizeofResult xs)
    rw [nonTicks_append] at hsplit
    rw [← hsplit]
    exact (nonTicks_perm hperm).append_right _
  · have hfirst : (nonTicks ((List.range sizeofResult).map (q.run sizeofResult base))).Pairwise
        fun a b => a.key ≤ b.key :=
      ((q.sorted sizeofResult base).imp fun h => (compareResult_nonpos _ _).mp h).filter _
    rw [List.pairwise_map, List.pairwise_append]
    constructor
    · rintro ⟨-, hrest, hcross⟩
      exact ⟨hrest, fun a ha => hcross a ((nonTicks_perm hperm).symm.subset ha)⟩
    · rintro ⟨hrest, hcross⟩
      exact ⟨hfirst, hrest, fun a ha => hcross a ((nonTicks_perm hperm).subset ha)⟩

variable (junk a b : Result)

def junkFirst : Bool :=
  a.key < b.key || (a.key = b.key && (a = junk || b ≠ junk))

theorem junkFirst_iff : junkFirst junk a b = true ↔
    a.key < b.key ∨ a.key = b.key ∧ (a = junk ∨ b ≠ junk) := by
  simp [junkFirst]

theorem junkFirst_trans (junk a b c : Result) (hab : junkFirst junk a b = true)
    (hbc : junkFirst junk b c = true) : junkFirst junk a c = true := by
  rw [junkFirst_iff] at *
  rcases hab with hab | ⟨hab, ha⟩ <;> rcases hbc with hbc | ⟨hbc, hb⟩
  · exact .inl (hab.trans hbc)
  · exact .inl (hbc ▸ hab)
  · exact .inl (hab ▸ hbc)
  · exact .inr ⟨hab.trans hbc, ha.imp_right hb.resolve_left⟩

theorem junkFirst_total :
    (junkFirst junk a b || junkFirst junk b a) = true := by
  rw [Bool.or_eq_true, junkFirst_iff, junkFirst_iff]
  rcases lt_trichotomy a.key b.key with h | h | h
  · exact .inl (.inl h)
  · by_cases ha : a = junk
    · exact .inl (.inr ⟨h, .inl ha⟩)
    · exact .inr (.inr ⟨h.symm, .inr ha⟩)
  · exact .inr (.inl h)

theorem junkFirst_key (hab : junkFirst junk a b = true) : a.key ≤ b.key := by
  rcases (junkFirst_iff junk a b).mp hab with h | ⟨h, -⟩
  · exact h.le
  · exact h.le

def qsortJunkFirst (junk : Result) : Qsort compareResult :=
  qsortBy (junkFirst junk) (junkFirst_trans junk) (junkFirst_total junk) (junkFirst_key junk)

theorem qsortJunkFirst_head {junk : Result} (hkey : junk.key = 0)
    (hmem : junk ∈ (List.range nmemb).map base) :
    (qsortJunkFirst junk).run nmemb base 0 = junk := by
  have hsorted := List.pairwise_mergeSort (junkFirst_trans junk) (junkFirst_total junk)
    ((List.range nmemb).map base)
  have hin : junk ∈ ((List.range nmemb).map base).mergeSort (junkFirst junk) :=
    (List.mergeSort_perm _ _).symm.subset hmem
  change (((List.range nmemb).map base).mergeSort (junkFirst junk)).getD 0 (base 0) = junk
  cases hl : ((List.range nmemb).map base).mergeSort (junkFirst junk) with
  | nil => simp [hl] at hin
  | cons head tail =>
    rw [hl] at hsorted hin
    rcases List.mem_cons.mp hin with he | ht
    · exact he.symm
    · rcases (junkFirst_iff _ _ _).mp (List.rel_of_pairwise_cons hsorted ht) with hlt | ⟨-, h | h⟩
      · rw [hkey] at hlt
        exact absurd hlt (not_lt.mpr (zero_le_uint64 _))
      · exact h
      · exact absurd rfl h

theorem exists_junk (h : xs.length < sizeofResult) :
    ∃ junk : Result, junk.key = 0 ∧ junk.isTick = false ∧ junk ∉ xs := by
  by_contra hnone
  have hall : ∀ v : UInt64, v ∈ xs.map Result.value := by
    intro v
    by_contra hv
    refine hnone ⟨⟨0, v, .packet⟩, rfl, by simp [Result.isTick], fun hmem => hv ?_⟩
    exact List.mem_map.mpr ⟨_, hmem, rfl⟩
  have hnodup : ((List.range sizeofResult).map UInt64.ofNat).Nodup := by decide
  have hsub := (List.subperm_of_subset hnodup fun v _ => hall v).length_le
  simp only [List.length_map, List.length_range] at hsub
  omega

theorem short_fails (hne : gathered calls ≠ []) (hshort : (gathered calls).length < sizeofResult) :
    ¬ Delivers calls := by
  intro hdel
  obtain ⟨junk, hkey, hres, hnot⟩ := exists_junk hshort
  obtain ⟨base, w, hrun, -, hbase, hjunk, hsent⟩ := readFinal_sent (· = junk)
    (fun _ _ => rfl) (qsortJunkFirst junk) calls
  obtain ⟨w', hrun', hperm, -, -⟩ := hdel (fun _ _ => junk) (qsortJunkFirst junk)
  rw [hrun, Except.ok.injEq, Prod.mk.injEq] at hrun'
  rw [← hrun'.2, hsent] at hperm
  have hhead : (qsortJunkFirst junk).run sizeofResult base 0 = junk :=
    qsortJunkFirst_head hkey (List.mem_map.mpr ⟨_, List.mem_range.mpr hshort, hjunk _ le_rfl⟩)
  have hpos : 0 < (gathered calls).length := List.length_pos_of_ne_nil hne
  have hmem : junk ∈ nonTicks ((List.range (gathered calls).length).map
      ((qsortJunkFirst junk).run sizeofResult base)) :=
    mem_nonTicks.mpr ⟨List.mem_map.mpr ⟨0, List.mem_range.mpr hpos, hhead⟩, hres⟩
  have hpub := (mem_nonTicks.mp (hperm.subset hmem)).1
  exact hnot ((resultsOf_perm (published calls)).symm.subset hpub)

theorem delivers_nil (hnil : gathered calls = []) : Delivers calls := by
  intro memory q
  obtain ⟨base, w, hrun, hsize, -, -, hsent⟩ :=
    readFinal_sent (fun _ => True) (fun _ _ => trivial) q calls
  have hpub := nonTicks_perm (resultsOf_perm (published calls))
  change (nonTicks (gathered calls)).Perm _ at hpub
  rw [hnil] at hsent hpub
  exact ⟨w, hrun, by rw [hsent]; exact hpub, by simp [hsent], hsize⟩

theorem delivers_long (hlen : sizeofResult ≤ (gathered calls).length) : Delivers calls ↔
      (nonTicks ((gathered calls).drop sizeofResult)).Pairwise (fun a b => a.key ≤ b.key) ∧
      ∀ a ∈ nonTicks ((gathered calls).take sizeofResult),
        ∀ b ∈ nonTicks ((gathered calls).drop sizeofResult), a.key ≤ b.key := by
  have hpub : (nonTicks (gathered calls)).Perm (nonTicks ((published calls).map Prod.snd)) :=
    nonTicks_perm (resultsOf_perm (published calls))
  constructor
  · intro hdel
    let junk : Result := ⟨0, 0, .packet⟩
    obtain ⟨base, w, hrun, -, hbase, -, hsent⟩ :=
      readFinal_sent (· = junk) (fun _ _ => rfl) (qsortJunkFirst junk) calls
    obtain ⟨w', hrun', -, hsorted, -⟩ := hdel (fun _ _ => junk) (qsortJunkFirst junk)
    rw [hrun, Except.ok.injEq, Prod.mk.injEq] at hrun'
    rw [← hrun'.2, hsent] at hsorted
    exact (sorted_iff hbase hlen).2.mp hsorted
  · intro h memory q
    obtain ⟨base, w, hrun, hsize, hbase, -, hsent⟩ :=
      readFinal_sent (fun _ => True) (fun _ _ => trivial) q calls
    obtain ⟨hperm, hiff⟩ := sorted_iff (q := q) hbase hlen
    exact ⟨w, hrun, by rw [hsent]; exact hperm.trans hpub, by rw [hsent]; exact hiff.mpr h, hsize⟩

/-- `read_final` delivers exactly what needs no more sorting than the first 24 get. -/
theorem delivers_iff {n : Nat} (calls : List (Call n)) : Delivers calls ↔ AlreadyPlaced calls := by
  by_cases hnil : gathered calls = []
  · exact iff_of_true (delivers_nil hnil) (.inl hnil)
  rcases Nat.lt_or_ge (gathered calls).length sizeofResult with hshort | hlen
  · exact iff_of_false (short_fails hnil hshort) fun h =>
      h.elim hnil fun h => absurd h.1 (by omega)
  · rw [delivers_long hlen]
    simp [AlreadyPlaced, hnil, hlen]

/-- Twenty-five results by falling key: the last one keeps its place. -/
theorem delivers_fails : ¬ Delivers (n := 0)
    ((List.range 25).map fun k => .publish (0, ⟨UInt64.ofNat (25 - k), 0, .packet⟩)) := by
  rw [delivers_long (by decide)]
  decide

end Libtrace.SortedDelivery
