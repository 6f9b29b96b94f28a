import Libtrace.CacheDirectory

/-! What the registration does to the directory of tables and to the lists. -/

namespace Libtrace.RegistrySteps
open CacheRegistry CacheDirectory Function

variable {κ τ : Type}

section

def tableOf (lcs : LocalCaches κ) : Table κ :=
  ⟨lcs.memCaches, lcs.memCachesTotal, lcs.records.map (·.oc)⟩

def dirOf (s : State κ τ) (t : τ) : Option (Table κ) := (s.threads t).map tableOf

def listOf (s : State κ τ) (oc : κ) : List Addr := (s.ocaches oc).threadList

def recordsOf (s : State κ τ) (t : τ) : List (LocalCache κ) :=
  match s.threads t with
  | some lcs => lcs.records
  | none => []

theorem dirOf_some {s : State κ τ} {t : τ} {lcs : LocalCaches κ} (ht : s.threads t = some lcs) :
    dirOf s t = some (tableOf lcs) := by
  rw [dirOf, ht]
  rfl

theorem recordsOf_some {s : State κ τ} {t : τ} {lcs : LocalCaches κ} (ht : s.threads t = some lcs) :
    recordsOf s t = lcs.records := by
  rw [recordsOf, ht]

theorem listOf_setCache [DecidableEq κ] (s : State κ τ) (oc : κ) (c : OCache) :
    listOf (s.setCache oc c) = update (listOf s) oc c.threadList := by
  funext oc'
  by_cases hoc : oc' = oc
  · subst hoc
    rw [update_self, listOf, setCache_ocaches, update_self]
  · rw [update_of_ne hoc, listOf, setCache_ocaches, update_of_ne hoc, listOf]

variable [DecidableEq τ]

theorem dirOf_setTable (s : State κ τ) (t : τ) (lcs : LocalCaches κ) :
    dirOf (s.setTable t lcs) = update (dirOf s) t (some (tableOf lcs)) := by
  funext u
  by_cases hu : u = t
  · subst hu
    rw [update_self, dirOf, setTable_threads, update_self]
    rfl
  · rw [update_of_ne hu, dirOf, setTable_threads, update_of_ne hu, dirOf]

theorem recordsOf_setTable (s : State κ τ) (t : τ) (lcs : LocalCaches κ) (u : τ) :
    recordsOf (s.setTable t lcs) u = if u = t then lcs.records else recordsOf s u := by
  split_ifs with hu
  · subst hu
    rw [recordsOf, setTable_threads, update_self]
  · rw [recordsOf, setTable_threads, update_of_ne hu, recordsOf]

theorem dirOf_close (s : State κ τ) (t : τ) :
    dirOf { s with threads := update s.threads t none } =
      update (dirOf s) t none := by
  funext u
  by_cases hu : u = t
  · subst hu
    simp [dirOf]
  · simp [dirOf, update_of_ne hu]

theorem recordsOf_close (s : State κ τ) (t u : τ) (hu : u ≠ t) :
    recordsOf { s with threads := update s.threads t none } u = recordsOf s u := by
  simp only [recordsOf, update_of_ne hu]

end

structure Inv (s : State κ τ) : Prop where
  separate : Separate (dirOf s) s.blocks
  exact : Exact (dirOf s) (listOf s) []
  room : ∀ oc, (s.ocaches oc).threadList.length ≤ (s.ocaches oc).maxThreadList
  valid : ∀ t, ∀ lc ∈ recordsOf s t, lc.invalid = false

theorem init_inv (threadCacheSize : κ → Nat) (limitSize : κ → Bool) :
    Inv (State.init threadCacheSize limitSize : State κ τ) := by
  refine ⟨⟨fun t tb h => ?_, fun t u tb tb' h => ?_⟩, ⟨fun oc => List.nodup_nil, fun oc a => ?_⟩,
    fun oc => Nat.zero_le _, fun t lc hlc => ?_⟩
  · cases h
  · cases h
  · refine ⟨fun h => absurd h List.not_mem_nil, ?_⟩
    rintro ⟨⟨t, tb, h, -⟩, -⟩
    cases h
  · exact absurd hlc List.not_mem_nil

variable {s : State κ τ} {t : τ} {oc : κ}

def cachedOf [DecidableEq κ] (s : State κ τ) (t : τ) (oc : κ) : Option (List Nat) :=
  ((recordsOf s t).find? (·.oc = oc)).map (·.cached)

def HasRoom (s : State κ τ) (t : τ) (oc : κ) : Prop :=
  oc ∈ (recordsOf s t).map (·.oc) ∨ (recordsOf s t).length < 0x10

def IsLast (s : State κ τ) (t : τ) (oc : κ) : Prop :=
  oc ∈ (recordsOf s t).map (·.oc) → (recordsOf s t).getLast?.map (·.oc) = some oc

theorem isLast_iff {lcs : LocalCaches κ} (hnodup : (lcs.records.map (·.oc)).Nodup)
    (ht : recordsOf s t = lcs.records) {i : Nat} {lc : LocalCache κ}
    (hi : lcs.records[i]? = some lc) (hoc : lc.oc = oc) :
    i + 1 = lcs.records.length ↔ IsLast s t oc := by
  have hmem : oc ∈ lcs.records.map (·.oc) :=
    List.mem_map.mpr ⟨lc, List.mem_of_getElem? hi, hoc⟩
  have hat : (lcs.records.map (·.oc))[i]? = some oc := by
    rw [List.getElem?_map, hi, Option.map_some, hoc]
  have hlt := (List.getElem?_eq_some_iff.mp hi).1
  rw [IsLast, ht, List.getLast?_eq_getElem?, ← List.getElem?_map]
  constructor
  · intro hlast _
    rw [← hlast, Nat.add_sub_cancel]
    exact hat
  · intro hlast
    have hsame : i = lcs.records.length - 1 :=
      (List.getElem?_inj (by rwa [List.length_map]) hnodup).mp (hat.trans (hlast hmem).symm)
    omega

theorem registerThread_ok [DecidableEq κ] (hinv : Inv s) (oc : κ) (a : Addr) :
    ∃ c, registerThread s oc a = .ok (s.setCache oc c) ∧
      c.threadList = (s.ocaches oc).threadList ++ [a] ∧ c.threadList.length ≤ c.maxThreadList := by
  have hroom := hinv.room oc
  unfold registerThread
  dsimp only
  split_ifs with hfull hlt hlt
  · exact ⟨_, rfl, rfl, by rw [List.length_append, List.length_singleton]; exact hlt⟩
  · omega
  · exact ⟨_, rfl, rfl, by rw [List.length_append, List.length_singleton]; exact hlt⟩
  · omega

variable [DecidableEq τ]

section

structure Opened (s : State κ τ) (t : τ) (lcs : LocalCaches κ) (s' : State κ τ) : Prop where
  inv : Inv s'
  table : s'.threads t = some lcs
  records : ∀ u, recordsOf s' u = recordsOf s u
  ocaches : s'.ocaches = s.ocaches

theorem getLocalCaches_opened (hinv : Inv s) (t : τ) :
    Opened s t (getLocalCaches s t).1 (getLocalCaches s t).2 := by
  unfold getLocalCaches
  cases ht : s.threads t with
  | some lcs => exact ⟨hinv, ht, fun _ => rfl, rfl⟩
  | none =>
    have hrecords (u : τ) :
        recordsOf ({ s.setTable t ⟨⟨s.blocks, 0⟩, 0x10, []⟩ with blocks := s.blocks + 1 }) u =
          recordsOf s u := by
      refine (recordsOf_setTable s t ⟨⟨s.blocks, 0⟩, 0x10, []⟩ u).trans ?_
      split_ifs with hu
      · rw [hu, recordsOf, ht]
      · rfl
    have hdir : dirOf ({ s.setTable t ⟨⟨s.blocks, 0⟩, 0x10, []⟩ with blocks := s.blocks + 1 }) =
        update (dirOf s) t (some (Table.new s.blocks)) :=
      dirOf_setTable s t ⟨⟨s.blocks, 0⟩, 0x10, []⟩
    refine ⟨⟨?_, ?_, hinv.room, fun u lc hlc => ?_⟩, update_self _ _ _, hrecords, rfl⟩
    · rw [hdir]
      exact hinv.separate.openTable t
    · rw [hdir]
      exact hinv.exact.openTable (by rw [dirOf, ht]; rfl) s.blocks
    · rw [hrecords] at hlc
      exact hinv.valid u lc hlc

variable [DecidableEq κ]

structure Found (s : State κ τ) (t : τ) (oc : κ) (i : Nat) (s' : State κ τ) : Prop where
  inv : Inv s'
  table : ∃ lcs lc, s'.threads t = some lcs ∧ lcs.records[i]? = some lc ∧ lc.oc = oc
  others : ∀ u oc', ¬ (u = t ∧ oc' = oc) → cachedOf s' u oc' = cachedOf s u oc'
  last : i + 1 = (recordsOf s' t).length ↔ IsLast s t oc

theorem createCache_full {lcs : LocalCaches κ} (hinv : Inv s) (ht : s.threads t = some lcs)
    (hfull : ¬ lcs.records.length < 0x10) : createCache s t oc lcs = .error .invalidPointer := by
  have hfit := hinv.separate.fit t _ (dirOf_some ht)
  have htotal : lcs.memCachesTotal = 0x10 := hfit.total
  have hfits : lcs.records.length ≤ lcs.memCachesTotal := by
    simpa only [tableOf, List.length_map] using hfit.fits
  have hgrow : growIfFull s lcs = .error .invalidPointer := by
    rw [growIfFull, if_pos (by omega), resizeMemoryCaches, if_pos (by omega), realloc,
      if_pos (by simp [Addr.advance])]
    rfl
  rw [createCache, hgrow]
  rfl

theorem createCache_found {lcs : LocalCaches κ} (hinv : Inv s) (ht : s.threads t = some lcs)
    (hnew : oc ∉ lcs.records.map (·.oc)) (hroom : lcs.records.length < 0x10) :
    ∃ s', createCache s t oc lcs = .ok (lcs.records.length, s') ∧
      Found s t oc lcs.records.length s' := by
  have hfit := hinv.separate.fit t _ (dirOf_some ht)
  have htotal : lcs.memCachesTotal = 0x10 := hfit.total
  have hgrow : growIfFull s lcs = .ok (lcs, s) := by rw [growIfFull, if_neg (by omega)]
  obtain ⟨c, hreg, hlist, hmax⟩ := registerThread_ok hinv oc (lcs.addr lcs.records.length)
  set lc : LocalCache κ := ⟨oc, (s.ocaches oc).threadCacheSize, [], false⟩
  set lcs' : LocalCaches κ := { lcs with records := lcs.records ++ [lc] }
  set s' := (s.setCache oc c).setTable t lcs'
  have hrecords (u : τ) :
      recordsOf s' u = if u = t then lcs.records ++ [lc] else recordsOf s u :=
    recordsOf_setTable (s.setCache oc c) t lcs' u
  have hdir : dirOf s' = update (dirOf s) t
      (some { tableOf lcs with ocs := (tableOf lcs).ocs ++ [oc] }) := by
    refine (dirOf_setTable (s.setCache oc c) t lcs').trans ?_
    simp only [tableOf, lcs', List.map_append, List.map_singleton, lc]
    rfl
  have hindex : listOf s' = update (listOf s) oc
      (listOf s oc ++ [(tableOf lcs).addr (tableOf lcs).ocs.length]) := by
    refine (listOf_setCache s oc c).trans ?_
    rw [hlist, tableOf, List.length_map]
    rfl
  refine ⟨s', ?_, ⟨?_, ?_, fun oc' => ?_, fun u lc' hlc => ?_⟩, ?_, fun u oc' hne => ?_, ?_⟩
  · rw [createCache, hgrow]
    show (registerThread s oc (lcs.addr lcs.records.length) >>= _) = _
    rw [hreg]
    rfl
  · rw [hdir]
    exact hinv.separate.add (dirOf_some ht) hnew
      (by rw [tableOf, List.length_map, htotal]; exact hroom)
  · rw [hdir, hindex]
    exact hinv.exact.add hinv.separate (dirOf_some ht) oc
  · simp only [s', setTable_ocaches, setCache_ocaches]
    by_cases hoc : oc' = oc
    · rw [hoc, update_self]
      exact hmax
    · rw [update_of_ne hoc]
      exact hinv.room oc'
  · rw [hrecords] at hlc
    split_ifs at hlc
    · rw [List.mem_append, List.mem_singleton] at hlc
      obtain hold | rfl := hlc
      · exact hinv.valid t lc' (by rwa [recordsOf_some ht])
      · rfl
    · exact hinv.valid u lc' hlc
  · exact ⟨lcs', lc, update_self _ _ _, List.getElem?_concat_length, rfl⟩
  · rw [cachedOf, hrecords, cachedOf]
    split_ifs with hu
    · subst hu
      have hother : ¬ oc = oc' := fun h => hne ⟨rfl, h.symm⟩
      rw [recordsOf_some ht, List.find?_append]
      simp [lc, hother]
    · rfl
  · rw [hrecords, if_pos rfl, List.length_append, List.length_singleton]
    refine iff_of_true rfl fun hmem => ?_
    rw [recordsOf_some ht] at hmem
    exact absurd hmem hnew

theorem findCache_none (hsize : (s.ocaches oc).threadCacheSize = 0) (hinv : Inv s) :
    findCache s t oc = .ok (none, (getLocalCaches s t).2) := by
  have hopened := getLocalCaches_opened hinv t
  rw [findCache]
  dsimp only
  rw [if_pos (by rw [hopened.ocaches]; exact hsize)]

theorem findCache_found (hinv : Inv s) (hsize : (s.ocaches oc).threadCacheSize ≠ 0)
    (hroom : HasRoom s t oc) : ∃ i s', findCache s t oc = .ok (some i, s') ∧ Found s t oc i s' := by
  have hopened := getLocalCaches_opened hinv t
  rw [findCache]
  generalize getLocalCaches s t = opened at hopened ⊢
  obtain ⟨lcs, s₁⟩ := opened
  have hrecords : recordsOf s t = lcs.records := by
    rw [← hopened.records, recordsOf_some hopened.table]
  have hnodup := (hopened.inv.separate.fit t _ (dirOf_some hopened.table)).nodup
  dsimp only
  rw [if_neg (by rw [hopened.ocaches]; exact hsize)]
  cases hfind : lcs.records.findIdx? (·.oc = oc) with
  | some i =>
    obtain ⟨hlt, hoc, -⟩ := List.findIdx?_eq_some_iff_getElem.mp hfind
    have hi : lcs.records[i]? = some lcs.records[i] := List.getElem?_eq_getElem hlt
    have hvalid := hopened.inv.valid t lcs.records[i]
      (by rw [recordsOf_some hopened.table]; exact List.getElem_mem hlt)
    refine ⟨i, s₁, ?_, hopened.inv, ⟨lcs, _, hopened.table, hi, of_decide_eq_true hoc⟩,
      fun u oc' _ => ?_, ?_⟩
    · dsimp only
      rw [if_neg (by rw [hi]; simp [hvalid])]
    · rw [cachedOf, cachedOf, hopened.records]
    · rw [recordsOf_some hopened.table]
      exact isLast_iff hnodup hrecords hi (of_decide_eq_true hoc)
  | none =>
    have hnew : oc ∉ lcs.records.map (·.oc) := by
      intro hmem
      obtain ⟨lc, hlc, hoc⟩ := List.mem_map.mp hmem
      simpa [hoc] using List.findIdx?_eq_none_iff.mp hfind lc hlc
    rw [HasRoom, hrecords] at hroom
    obtain ⟨s', hcreate, hfound⟩ := createCache_found hopened.inv hopened.table hnew
      (hroom.resolve_left hnew)
    refine ⟨_, s', ?_, hfound.inv, hfound.table, fun u oc' hne => ?_, ?_⟩
    · dsimp only
      rw [hcreate]
      rfl
    · rw [hfound.others u oc' hne, cachedOf, cachedOf, hopened.records]
    · rw [hfound.last, IsLast, IsLast, hopened.records]

theorem findCache_full (hinv : Inv s) (hsize : (s.ocaches oc).threadCacheSize ≠ 0)
    (hfull : ¬ HasRoom s t oc) : findCache s t oc = .error .invalidPointer := by
  have hopened := getLocalCaches_opened hinv t
  rw [findCache]
  generalize getLocalCaches s t = opened at hopened ⊢
  obtain ⟨lcs, s₁⟩ := opened
  have hrecords : recordsOf s t = lcs.records := by
    rw [← hopened.records, recordsOf_some hopened.table]
  rw [HasRoom, hrecords, not_or] at hfull
  dsimp only
  rw [if_neg (by rw [hopened.ocaches]; exact hsize)]
  have hfind : lcs.records.findIdx? (·.oc = oc) = none := by
    refine List.findIdx?_eq_none_iff.mpr fun lc hlc => decide_eq_false fun hoc => ?_
    exact hfull.1 (List.mem_map.mpr ⟨lc, hlc, hoc⟩)
  rw [hfind]
  rw [createCache_full hopened.inv hopened.table hfull.2]
  rfl

end

end Libtrace.RegistrySteps
