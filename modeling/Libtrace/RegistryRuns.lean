import Libtrace.RegistryRemoval
import Libtrace.Schedule

/-! Histories of calls and thread exits: when lists and tables stay consistent. -/

namespace Libtrace.RegistryRuns
open CacheRegistry CacheDirectory RegistrySteps RegistryRemoval

variable {κ τ : Type}

/-- The list of each object cache has the addresses of its records, each once, and no table is too
full. -/
structure Registered (s : State κ τ) : Prop where
  nodup : ∀ oc, (s.ocaches oc).threadList.Nodup
  listed : ∀ oc a, a ∈ (s.ocaches oc).threadList ↔
    ∃ t lcs i lc, s.threads t = some lcs ∧ lcs.records[i]? = some lc ∧ lc.oc = oc ∧
      a = lcs.addr i
  fits : ∀ t lcs, s.threads t = some lcs → lcs.records.length ≤ lcs.memCachesTotal

theorem live_dirOf (s : State κ τ) (oc : κ) (a : Addr) :
    Live (dirOf s) oc a ↔ ∃ t lcs i lc, s.threads t = some lcs ∧ lcs.records[i]? = some lc ∧
      lc.oc = oc ∧ a = lcs.addr i := by
  constructor
  · rintro ⟨t, tb, htb, i, hi, rfl⟩
    obtain ⟨lcs, ht, rfl⟩ := Option.map_eq_some_iff.mp htb
    rw [tableOf, List.getElem?_map] at hi
    obtain ⟨lc, hlc, hoc⟩ := Option.map_eq_some_iff.mp hi
    exact ⟨t, lcs, i, lc, ht, hlc, hoc, rfl⟩
  · rintro ⟨t, lcs, i, lc, ht, hlc, rfl, rfl⟩
    refine ⟨t, tableOf lcs, dirOf_some ht, i, ?_, rfl⟩
    rw [tableOf, List.getElem?_map, hlc]
    rfl

theorem Registered.exact {s : State κ τ} (h : Registered s) : Exact (dirOf s) (listOf s) [] := by
  refine ⟨h.nodup, fun oc a => ?_⟩
  rw [live_dirOf, and_iff_left List.not_mem_nil]
  exact h.listed oc a

theorem registered_of_inv {s : State κ τ} (hinv : Inv s) : Registered s := by
  refine ⟨hinv.exact.nodup, fun oc a => ?_, fun t lcs ht => ?_⟩
  · rw [← live_dirOf]
    exact (hinv.exact.mem_iff oc a).trans (and_iff_left List.not_mem_nil)
  · simpa only [tableOf, List.length_map] using (hinv.separate.fit t _ (dirOf_some ht)).fits

theorem find?_modify {α : Type} (p : α → Bool) (f : α → α) (xs : List α) (i : Nat)
    (h : ∀ x, xs[i]? = some x → p x = false ∧ p (f x) = false) :
    (xs.modify i f).find? p = xs.find? p := by
  induction xs generalizing i with
  | nil => rw [List.modify_nil]
  | cons x xs ih =>
    cases i with
    | zero =>
      obtain ⟨hx, hfx⟩ := h x rfl
      rw [List.modify_zero_cons, List.find?_cons, List.find?_cons, hx, hfx]
    | succ i =>
      rw [List.modify_succ_cons, List.find?_cons, List.find?_cons, ih i h]

theorem map_leave (lcs : LocalCaches κ) (i : Nat) (left : List Nat) :
    (lcs.leave i left).records.map (·.oc) = lcs.records.map (·.oc) := by
  refine List.ext_getElem? fun j => ?_
  rw [List.getElem?_map, List.getElem?_map, LocalCaches.leave, List.getElem?_modify]
  cases lcs.records[j]? with
  | none => rfl
  | some lc => dsimp; split_ifs <;> rfl

variable [DecidableEq κ] [DecidableEq τ]

def Concerns : Event κ τ → τ → κ → Prop
  | .use t oc _, u, oc' => u = t ∧ oc' = oc
  | .unregister t oc, u, oc' => u = t ∧ oc' = oc
  | .exit t, u, _ => u = t

def KeepsOthers (a : Event κ τ) (s s' : State κ τ) : Prop :=
  ∀ u oc, ¬ Concerns a u oc → cachedOf s' u oc = cachedOf s u oc

/-- A thread makes a record only while there is space, and unregisters its last one. -/
def InOrder (s : State κ τ) : Event κ τ → Prop
  | .use t oc _ => (s.ocaches oc).threadCacheSize = 0 ∨ HasRoom s t oc
  | .unregister t oc =>
    (s.ocaches oc).threadCacheSize = 0 ∨ HasRoom s t oc ∧ IsLast s t oc
  | .exit _ => True

variable {s : State κ τ} {t : τ} {oc : κ}

theorem use_ok (hinv : Inv s) (left : List Nat) (horder : InOrder s (.use t oc left)) :
    ∃ s', useCache s t oc left = .ok s' ∧ Inv s' ∧ KeepsOthers (.use t oc left) s s' := by
  by_cases hsize : (s.ocaches oc).threadCacheSize = 0
  · have hopened := getLocalCaches_opened hinv t
    refine ⟨(getLocalCaches s t).2, ?_, hopened.inv, fun u oc' _ => ?_⟩
    · rw [useCache, findCache_none hsize hinv]
      rfl
    · rw [cachedOf, hopened.records, cachedOf]
  · obtain ⟨i, s₁, hfind, hfound⟩ := findCache_found hinv hsize (horder.resolve_left hsize)
    obtain ⟨lcs, lc, ht, hi, hoc⟩ := hfound.table
    have hdir : dirOf (s₁.setTable t (lcs.leave i left)) = dirOf s₁ := by
      rw [dirOf_setTable, tableOf, map_leave]
      exact Function.update_eq_self_iff.mpr (dirOf_some ht).symm
    refine ⟨s₁.setTable t (lcs.leave i left), ?_, ⟨?_, ?_, hfound.inv.room, fun u lc' hlc => ?_⟩,
      fun u oc' hne => ?_⟩
    · rw [useCache, hfind]
      show leaveIn s₁ t i left = _
      rw [leaveIn, ht]
    · rw [hdir]
      exact hfound.inv.separate
    · rw [hdir]
      exact hfound.inv.exact
    · rw [recordsOf_setTable] at hlc
      split_ifs at hlc with hu
      · obtain ⟨j, hj⟩ := List.mem_iff_getElem?.mp hlc
        rw [LocalCaches.leave, List.getElem?_modify] at hj
        obtain ⟨lc₀, hlc₀, heq⟩ := Option.map_eq_some_iff.mp hj
        have hvalid := hfound.inv.valid t lc₀
          (by rw [recordsOf_some ht]; exact List.mem_of_getElem? hlc₀)
        split_ifs at heq <;> rw [← heq] <;> exact hvalid
      · exact hfound.inv.valid u lc' hlc
    · rw [← hfound.others u oc' hne, cachedOf, recordsOf_setTable, cachedOf]
      split_ifs with hu
      · subst hu
        have hother : ¬ oc = oc' := fun h => hne ⟨rfl, h.symm⟩
        rw [recordsOf_some ht, LocalCaches.leave, find?_modify]
        intro x hx
        rw [hi, Option.some.injEq] at hx
        subst hx
        simp [hoc, hother]
      · rfl

theorem unregister_ok (hinv : Inv s) (horder : InOrder s (.unregister t oc)) :
    ∃ s', ocacheUnregisterThread s t oc = .ok s' ∧ Inv s' ∧
      KeepsOthers (.unregister t oc) s s' := by
  by_cases hsize : (s.ocaches oc).threadCacheSize = 0
  · have hopened := getLocalCaches_opened hinv t
    refine ⟨(getLocalCaches s t).2, ?_, hopened.inv, fun u oc' _ => ?_⟩
    · rw [ocacheUnregisterThread, findCache_none hsize hinv]
      rfl
    · rw [cachedOf, hopened.records, cachedOf]
  · obtain ⟨hroom, hlast⟩ := horder.resolve_left hsize
    obtain ⟨i, s₁, hfind, hfound⟩ := findCache_found hinv hsize hroom
    exact unregister_last hfind hfound hlast

theorem perform_ok (hinv : Inv s) (a : Event κ τ) (horder : InOrder s a) :
    ∃ s', perform s a = .ok s' ∧ Inv s' ∧ KeepsOthers a s s' := by
  cases a with
  | use t oc left => exact use_ok hinv left horder
  | unregister t oc => exact unregister_ok hinv horder
  | exit t =>
    obtain ⟨s', hok, hinv', hkeeps⟩ := destroyMemoryCaches_ok hinv t
    exact ⟨s', hok, hinv', fun u oc hne => hkeeps u oc hne⟩

theorem perform_bad (hinv : Inv s) (a : Event κ τ) (hbad : ¬ InOrder s a) (s' : State κ τ)
    (hok : perform s a = .ok s') : ¬ Registered s' := by
  cases a with
  | use t oc left =>
    rw [InOrder, not_or] at hbad
    rw [perform, useCache, findCache_full hinv hbad.1 hbad.2] at hok
    cases hok
  | unregister t oc =>
    rw [InOrder, not_or, not_and] at hbad
    by_cases hroom : HasRoom s t oc
    · obtain ⟨i, s₁, hfind, hfound⟩ := findCache_found hinv hbad.1 hroom
      obtain ⟨s₂, hok₂, hnot⟩ := unregister_inner hfind hfound (hbad.2 hroom)
      rw [perform, hok₂, Except.ok.injEq] at hok
      subst hok
      exact fun hreg => hnot hreg.exact
    · rw [perform, ocacheUnregisterThread, findCache_full hinv hbad.1 hroom] at hok
      cases hok
  | exit t => exact absurd trivial hbad

section

def step (o : Except Fault (State κ τ)) (a : Event κ τ) : Except Fault (State κ τ) :=
  o >>= fun s => perform s a

def StaysRegistered : Except Fault (State κ τ) → Event κ τ → Prop
  | .ok s, a => ∃ s', perform s a = .ok s' ∧ Registered s' ∧ KeepsOthers a s s'
  | .error _, _ => False

def CallInOrder : Except Fault (State κ τ) → Event κ τ → Prop
  | .ok s, a => InOrder s a
  | .error _, _ => False

theorem staysRegistered_iff (hinv : Inv s) (a : Event κ τ) :
    StaysRegistered (.ok s) a ↔ CallInOrder (.ok s) a := by
  constructor
  · rintro ⟨s', hok, hreg, -⟩
    by_contra hbad
    exact perform_bad hinv a hbad s' hok hreg
  · intro horder
    obtain ⟨s', hok, hinv', hkeeps⟩ := perform_ok hinv a horder
    exact ⟨s', hok, registered_of_inv hinv', hkeeps⟩

/-- In every history from the start, every call leaves everything registered exactly if every call
is in order. -/
theorem history_registered_iff (threadCacheSize : κ → Nat) (limitSize : κ → Bool)
    (history : List (Event κ τ)) :
    Schedule.Along step StaysRegistered (.ok (State.init threadCacheSize limitSize)) history ↔
      Schedule.Along step CallInOrder (.ok (State.init threadCacheSize limitSize)) history := by
  refine Schedule.along_iff (fun o => ∃ s : State κ τ, o = .ok s ∧ Inv s) ?_ ?_
    ⟨_, rfl, init_inv threadCacheSize limitSize⟩ history
  · rintro _ a ⟨s, rfl, hinv⟩
    exact staysRegistered_iff hinv a
  · rintro _ a ⟨s, rfl, hinv⟩ horder
    obtain ⟨s', hok, hinv', -⟩ := perform_ok hinv a horder
    exact ⟨s', hok, hinv'⟩

end

/-- The record of the second object cache moves, and its list still has the old address. -/
def unregisterFirst : List (Event Nat Unit) :=
  [.use () 0 [5], .use () 1 [7], .unregister () 0]

def seventeenCaches : List (Event Nat Unit) := (List.range 17).map fun oc => .use () oc []

theorem unregisterFirst_stale :
    (∃ s : State Nat Unit,
      unregisterFirst.foldl step (.ok (State.init (fun _ => 4) fun _ => false)) = .ok s ∧
        (⟨0, 1⟩ : Addr) ∈ (s.ocaches 1).threadList ∧ ¬ Registered s) ∧
      seventeenCaches.foldl step (.ok (State.init (fun _ => 4) fun _ => false)) =
        .error .invalidPointer := by
  refine ⟨⟨_, rfl, by decide, fun hreg => ?_⟩, rfl⟩
  obtain ⟨t, lcs, i, lc, ht, hlc, -, haddr⟩ := (hreg.listed 1 ⟨0, 1⟩).mp (by decide)
  cases ht
  have hindex : 1 = 0 + i := congrArg Addr.index haddr
  rw [Nat.zero_add] at hindex
  subst hindex
  cases hlc

end Libtrace.RegistryRuns
