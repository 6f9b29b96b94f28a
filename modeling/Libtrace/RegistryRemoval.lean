import Libtrace.RegistrySteps

/-! Unregistering: one record of a thread, and all of them when it exits. -/

namespace Libtrace.RegistryRemoval
open SwapRemove CacheRegistry CacheDirectory RegistrySteps Function

variable {κ τ : Type} {s : State κ τ} {t : τ} {oc : κ}
  {lcs : LocalCaches κ} {gone : List Addr}

@[simp] theorem giveBack_threadList (c : OCache) (cached : List Nat) :
    (c.giveBack cached).threadList = c.threadList := by
  unfold OCache.giveBack
  split <;> rfl

@[simp] theorem giveBack_maxThreadList (c : OCache) (cached : List Nat) :
    (c.giveBack cached).maxThreadList = c.maxThreadList := by
  unfold OCache.giveBack
  split <;> rfl

/-- The addresses in `gone` are taken from the lists; the tables stay. -/
structure Unlisted (s : State κ τ) (t : τ) (gone : List Addr) (s' : State κ τ) : Prop where
  dir : dirOf s' = dirOf s
  blocks : s'.blocks = s.blocks
  exact : Exact (dirOf s) (listOf s') gone
  room : ∀ oc, (s'.ocaches oc).threadList.length ≤ (s'.ocaches oc).maxThreadList
  others : ∀ u, u ≠ t → s'.threads u = s.threads u

variable {i : Nat} {lc : LocalCache κ}

theorem map_set_invalid (hi : lcs.records[i]? = some lc) :
    (lcs.records.set i { lc with invalid := true }).map (·.oc) = lcs.records.map (·.oc) := by
  rw [List.map_set]
  refine List.ext_getElem? fun j => ?_
  rw [List.getElem?_set]
  split_ifs with hij hlt
  · rw [← hij, List.getElem?_map, hi]
    rfl
  · rw [← hij, List.getElem?_eq_none (Nat.not_lt.mp hlt)]
  · rfl

theorem remove_records {records : List (LocalCache κ)} {lc' : LocalCache κ}
    (hi : records[i]? = some lc) (hlast : i + 1 = records.length) :
    records = swapRemove (records.set i lc') i ++ [lc] := by
  obtain rfl | ⟨front, last, rfl⟩ := List.eq_nil_or_concat' records
  · cases hi
  · rw [List.length_append, List.length_singleton, Nat.add_right_cancel_iff] at hlast
    subst hlast
    rw [List.getElem?_concat_length] at hi
    rw [List.set_append_right _ _ (Nat.le_refl _), Nat.sub_self, List.set_cons_zero,
      swapRemove_last, Option.some.inj hi]

variable [DecidableEq κ] [DecidableEq τ]

theorem unregisterThread_unlisted {s₀ : State κ τ} (hsep : Separate (dirOf s₀) s₀.blocks)
    (h : Unlisted s₀ t gone s) (ht : s.threads t = some lcs) (hi : lcs.records[i]? = some lc)
    (hgone : lcs.addr i ∉ gone) :
    ∃ s', unregisterThread s t i = .ok s' ∧ Unlisted s₀ t (lcs.addr i :: gone) s' ∧
      s'.threads t =
        some { lcs with records := lcs.records.set i { lc with invalid := true } } := by
  have hdir : dirOf s₀ t = some (tableOf lcs) := by rw [← h.dir, dirOf_some ht]
  have hocs : (tableOf lcs).ocs[i]? = some lc.oc := by
    rw [tableOf, List.getElem?_map, hi]
    rfl
  obtain ⟨j, hj, hexact⟩ := h.exact.forget hsep hdir hocs hgone
  have hfound : (s.ocaches lc.oc).threadList.idxOf? (lcs.addr i) = some j := hj
  set c := OCache.giveBack { s.ocaches lc.oc with
    threadList := swapRemove (s.ocaches lc.oc).threadList j } lc.cached with hc
  set lcs' : LocalCaches κ :=
    { lcs with records := lcs.records.set i { lc with invalid := true } }
  have hlist : listOf ((s.setCache lc.oc c).setTable t lcs') =
      update (listOf s) lc.oc (swapRemove (listOf s lc.oc) j) := by
    refine (listOf_setCache s lc.oc c).trans ?_
    rw [hc, giveBack_threadList]
    rfl
  refine ⟨(s.setCache lc.oc c).setTable t lcs', ?_,
    ⟨?_, h.blocks, ?_, fun oc => ?_, fun u hu => ?_⟩, update_self _ _ _⟩
  · rw [unregisterThread, ht]
    dsimp only
    rw [hi]
    dsimp only
    rw [hfound]
  · rw [dirOf_setTable, tableOf, map_set_invalid hi]
    refine Eq.trans ?_ h.dir
    exact update_eq_self_iff.mpr (dirOf_some ht).symm
  · rw [hlist]
    exact hexact
  · have hroom := h.room oc
    rw [setTable_ocaches, setCache_ocaches]
    by_cases hoc : oc = lc.oc
    · subst hoc
      rw [update_self, hc, giveBack_threadList, giveBack_maxThreadList,
        length_swapRemove]
      exact Nat.le_trans (Nat.sub_le _ _) hroom
    · rw [update_of_ne hoc]
      exact hroom
  · rw [setTable_threads, setCache_threads, update_of_ne hu]
    exact h.others u hu

section

variable {i : Nat} {s₁ : State κ τ}

section

variable (hfind : findCache s t oc = .ok (some i, s₁))
include hfind

theorem unregister_eq {s₂ : State κ τ} {lcs₂ : LocalCaches κ}
    (hun : unregisterThread s₁ t i = .ok s₂) (ht : s₂.threads t = some lcs₂) :
    ocacheUnregisterThread s t oc =
      .ok (s₂.setTable t { lcs₂ with records := swapRemove lcs₂.records i }) := by
  rw [ocacheUnregisterThread, hfind]
  show (unregisterThread s₁ t i >>= fun s => removeRecord s t i) = _
  rw [hun]
  show removeRecord s₂ t i = _
  rw [removeRecord, ht]

theorem unregister_spec (hfound : Found s t oc i s₁) :
    ∃ lcs lc records s₂, s₁.threads t = some lcs ∧ lcs.records[i]? = some lc ∧ lc.oc = oc ∧
      records = swapRemove (lcs.records.set i { lc with invalid := true }) i ∧
      Unlisted s₁ t [lcs.addr i] s₂ ∧
      ocacheUnregisterThread s t oc = .ok (s₂.setTable t { lcs with records := records }) ∧
      dirOf (s₂.setTable t { lcs with records := records }) = update (dirOf s₁) t
        (some { tableOf lcs with ocs := swapRemove (tableOf lcs).ocs i }) := by
  obtain ⟨lcs, lc, ht, hi, hoc⟩ := hfound.table
  have hstart : Unlisted s₁ t [] s₁ :=
    ⟨rfl, rfl, hfound.inv.exact, hfound.inv.room, fun _ _ => rfl⟩
  obtain ⟨s₂, hun, hunlisted, ht₂⟩ :=
    unregisterThread_unlisted hfound.inv.separate hstart ht hi List.not_mem_nil
  refine ⟨lcs, lc, _, s₂, ht, hi, hoc, rfl, hunlisted, unregister_eq hfind hun ht₂, ?_⟩
  rw [dirOf_setTable, hunlisted.dir, tableOf, map_swapRemove, map_set_invalid hi]
  rfl

theorem unregister_last (hfound : Found s t oc i s₁) (hlast : IsLast s t oc) :
    ∃ s', ocacheUnregisterThread s t oc = .ok s' ∧ Inv s' ∧
      ∀ u oc', ¬ (u = t ∧ oc' = oc) → cachedOf s' u oc' = cachedOf s u oc' := by
  obtain ⟨lcs, lc, records, s₂, ht, hi, hoc, hrec, hunlisted, hok, hdir⟩ :=
    unregister_spec hfind hfound
  have hlen := hfound.last.mpr hlast
  rw [recordsOf_some ht] at hlen
  have hsplit : lcs.records = records ++ [lc] := hrec ▸ remove_records hi hlen
  have hocs : (tableOf lcs).ocs = records.map (·.oc) ++ [oc] := by
    rw [tableOf, hsplit, List.map_append, List.map_singleton, hoc]
  have hi' : i = (records.map (·.oc)).length := by
    rw [hsplit, List.length_append, List.length_singleton] at hlen
    rw [List.length_map]
    omega
  rw [hocs, hi', swapRemove_last] at hdir
  have hrecords (u : τ) : recordsOf (s₂.setTable t { lcs with records := records }) u =
      if u = t then records else recordsOf s₁ u := by
    rw [recordsOf_setTable]
    split_ifs with hu
    · rfl
    · rw [recordsOf, hunlisted.others u hu, recordsOf]
  have hfit := hfound.inv.separate.fit t _ (dirOf_some ht)
  refine ⟨_, hok, ⟨?_, ?_, hunlisted.room, fun u lc' hlc => ?_⟩, fun u oc' hne => ?_⟩
  · rw [hdir, setTable_blocks, hunlisted.blocks]
    refine hfound.inv.separate.replace (dirOf_some ht) rfl { hfit with fits := ?_, nodup := ?_ }
    · have hfits := hfit.fits
      rw [hocs, List.length_append] at hfits
      exact Nat.le_trans (Nat.le_add_right _ _) hfits
    · have hnodup := hfit.nodup
      rw [hocs] at hnodup
      exact (List.nodup_append.mp hnodup).1
  · rw [hdir]
    refine Exact.dropLast hfound.inv.separate (dirOf_some ht) hocs ?_
    have hexact := hunlisted.exact
    rw [hi'] at hexact
    exact hexact
  · rw [hrecords] at hlc
    split_ifs at hlc with hu
    · refine hfound.inv.valid t lc' ?_
      rw [recordsOf_some ht, hsplit]
      exact List.mem_append_left _ hlc
    · exact hfound.inv.valid u lc' hlc
  · rw [← hfound.others u oc' hne, cachedOf, hrecords, cachedOf]
    split_ifs with hu
    · subst hu
      have hother : ¬ lc.oc = oc' := fun h => hne ⟨rfl, h.symm.trans hoc⟩
      rw [recordsOf_some ht, hsplit, List.find?_append]
      simp [hother]
    · rfl

theorem unregister_inner (hfound : Found s t oc i s₁) (hinner : ¬ IsLast s t oc) :
    ∃ s', ocacheUnregisterThread s t oc = .ok s' ∧ ¬ Exact (dirOf s') (listOf s') [] := by
  obtain ⟨lcs, lc, records, s₂, ht, hi, hoc, -, hunlisted, hok, hdir⟩ :=
    unregister_spec hfind hfound
  have hlen := mt hfound.last.mp hinner
  rw [recordsOf_some ht] at hlen
  have hlt := (List.getElem?_eq_some_iff.mp hi).1
  refine ⟨_, hok, ?_⟩
  obtain hnil | ⟨front, last, hocs⟩ := List.eq_nil_or_concat' (tableOf lcs).ocs
  · rw [tableOf, List.map_eq_nil_iff] at hnil
    rw [hnil] at hlt
    exact absurd hlt (Nat.not_lt_zero _)
  · have hfront : i < front.length := by
      have hcount := congrArg List.length hocs
      rw [tableOf, List.length_map, List.length_append, List.length_singleton] at hcount
      omega
    rw [hdir, hocs, swapRemove_concat front last i hfront]
    exact Exact.not_moved hfound.inv.separate (dirOf_some ht) hocs hfront hunlisted.exact

end

end

section

theorem destroy_rounds (hinv : Inv s) (ht : s.threads t = some lcs) (n : Nat)
    (hn : n ≤ lcs.records.length) :
    ∃ s', (List.range n).foldlM (fun s a => unregisterThread s t a) s = .ok s' ∧
      Unlisted s t ((List.range n).map lcs.addr) s' ∧
      ∃ lcs', s'.threads t = some lcs' ∧ tableOf lcs' = tableOf lcs := by
  induction n with
  | zero => exact ⟨s, rfl, ⟨rfl, rfl, hinv.exact, hinv.room, fun _ _ => rfl⟩, lcs, ht, rfl⟩
  | succ n ih =>
    obtain ⟨s₁, hrun, hunlisted, lcs₁, ht₁, htable⟩ := ih (Nat.le_of_succ_le hn)
    have haddr : lcs₁.addr = lcs.addr := by
      funext i
      exact congrArg (fun tb : Table κ => tb.addr i) htable
    have hlength : lcs₁.records.length = lcs.records.length := by
      have := congrArg (fun tb : Table κ => tb.ocs.length) htable
      simpa only [tableOf, List.length_map] using this
    obtain ⟨lc, hget⟩ : ∃ lc, lcs₁.records[n]? = some lc :=
      ⟨_, List.getElem?_eq_getElem (by omega)⟩
    have hfresh : lcs₁.addr n ∉ (List.range n).map lcs.addr := by
      rw [haddr, List.mem_map]
      rintro ⟨i, hi, heq⟩
      have hsame : (tableOf lcs).addr i = (tableOf lcs).addr n := heq
      exact absurd (Table.addr_inj hsame) (Nat.ne_of_lt (List.mem_range.mp hi))
    obtain ⟨s₂, hun, hunlisted₂, ht₂⟩ :=
      unregisterThread_unlisted hinv.separate hunlisted ht₁ hget hfresh
    refine ⟨s₂, ?_, ?_, _, ht₂, ?_⟩
    · rw [List.range_succ, List.foldlM_append, hrun]
      show (unregisterThread s₁ t n >>= fun s => pure s) = _
      rw [hun]
      rfl
    · refine { hunlisted₂ with exact := hunlisted₂.exact.congr fun a => ?_ }
      rw [List.range_succ, List.map_append, List.mem_cons, List.mem_append, haddr, or_comm]
      simp
    · rw [tableOf, map_set_invalid hget]
      exact htable

theorem destroyMemoryCaches_ok (hinv : Inv s) (t : τ) :
    ∃ s', destroyMemoryCaches s t = .ok s' ∧ Inv s' ∧
      ∀ u oc, u ≠ t → cachedOf s' u oc = cachedOf s u oc := by
  cases ht : s.threads t with
  | none => exact ⟨s, by rw [destroyMemoryCaches, ht], hinv, fun _ _ _ => rfl⟩
  | some lcs =>
    obtain ⟨s₁, hrun, hunlisted, -⟩ := destroy_rounds hinv ht lcs.records.length (Nat.le_refl _)
    have hothers (u : τ) (hu : u ≠ t) : recordsOf s₁ u = recordsOf s u := by
      rw [recordsOf, hunlisted.others u hu, recordsOf]
    have hgone (a : Addr) :
        a ∈ (List.range lcs.records.length).map lcs.addr ↔ ∃ oc, (tableOf lcs).At oc a := by
      rw [List.mem_map]
      constructor
      · rintro ⟨i, hi, rfl⟩
        have hlt := List.mem_range.mp hi
        refine ⟨lcs.records[i].oc, i, ?_, rfl⟩
        rw [tableOf, List.getElem?_map, List.getElem?_eq_getElem hlt]
        rfl
      · rintro ⟨oc, i, hi, rfl⟩
        have hlt := (List.getElem?_eq_some_iff.mp hi).1
        rw [tableOf, List.length_map] at hlt
        exact ⟨i, List.mem_range.mpr hlt, rfl⟩
    refine ⟨{ s₁ with threads := update s₁.threads t none }, ?_,
      ⟨?_, ?_, hunlisted.room, fun u lc hlc => ?_⟩, fun u oc hu => ?_⟩
    · rw [destroyMemoryCaches, ht]
      dsimp only
      rw [hrun]
      rfl
    · rw [dirOf_close, hunlisted.dir]
      show Separate _ s₁.blocks
      rw [hunlisted.blocks]
      exact hinv.separate.close t
    · rw [dirOf_close, hunlisted.dir]
      exact hunlisted.exact.close hinv.separate (dirOf_some ht) hgone
    · by_cases hu : u = t
      · subst hu
        simp [recordsOf] at hlc
      · rw [recordsOf_close s₁ t u hu, hothers u hu] at hlc
        exact hinv.valid u lc hlc
    · rw [cachedOf, recordsOf_close s₁ t u hu, hothers u hu, cachedOf]

end

end Libtrace.RegistryRemoval
