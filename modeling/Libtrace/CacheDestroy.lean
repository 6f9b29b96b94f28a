import Libtrace.PoolSafety

/-! `libtrace_ocache_destroy` once no thread is in a call: the local caches are written to the ring,
and what is in the ring is freed. What is returned is read after the object cache was zeroed. -/

namespace Libtrace.CacheDestroy
open ObjectCache CacheConservation CacheSafety CachePool PoolSafety SwapRemove

section

structure OCache (τ : Type) where
  ring : List Nat
  maxAllocations : Nat
  currentAllocations : Nat
  threadList : List τ
  freed : List Nat

variable {τ : Type}

/-- Nobody reads from the ring: a write without room never ends. -/
def unregisterThread [DecidableEq τ] (cfg : Config) (cached : τ → List Nat) (oc : OCache τ)
    (lc : τ) : Option (OCache τ) :=
  match oc.threadList.idxOf? lc with
  | none => some oc
  | some i =>
    let oc := { oc with threadList := swapRemove oc.threadList i }
    if oc.maxAllocations ≠ 0 then
      if (cached lc).length ≤ cfg.bufferSize - oc.ring.length then
        some { oc with ring := oc.ring ++ cached lc }
      else none
    else some { oc with freed := oc.freed ++ cached lc }

def unregisterAll [DecidableEq τ] (cfg : Config) (cached : τ → List Nat) :
    Nat → OCache τ → Option (OCache τ)
  | 0, oc => some oc
  | n + 1, oc =>
    match oc.threadList with
    | [] => some oc
    | lc :: _ => do
      let oc ← unregisterThread cfg cached oc lc
      unregisterAll cfg cached n oc

def drain : List Nat → OCache τ → OCache τ
  | [], oc => { oc with ring := [] }
  | ele :: rest, oc =>
    drain rest { oc with
      freed := oc.freed ++ [ele]
      currentAllocations :=
        if oc.maxAllocations ≠ 0 then oc.currentAllocations - 1 else oc.currentAllocations }

def zeroOcache (oc : OCache τ) : OCache τ :=
  { oc with ring := [], currentAllocations := 0, maxAllocations := 0, threadList := [] }

def toInt (n : Nat) : Int := (BitVec.ofNat 32 n).toInt

structure Outcome where
  freed : List Nat
  message : Option String
  returned : Int

def finish (oc : OCache τ) : Outcome :=
  let oc := drain oc.ring oc
  let leaking := toInt oc.currentAllocations
  let message := if oc.currentAllocations ≠ 0 then
      some s!"OCache destroyed, leaking {leaking} packets!!\n"
    else none
  let zeroed := zeroOcache oc
  { freed := oc.freed
    message := message
    returned := if zeroed.currentAllocations ≠ 0 then toInt zeroed.currentAllocations else 0 }

def ocacheDestroy [DecidableEq τ] (cfg : Config) (cached : τ → List Nat) (oc : OCache τ) :
    Option Outcome := do
  let oc ← unregisterAll cfg cached oc.threadList.length oc
  return finish oc

def cachedIn (p : Pool τ) (t : τ) : List Nat := (p.state.threads t).cache

def ocacheOf (cfg : Config) (p : Pool τ) : OCache τ where
  ring := p.state.shared.ring
  maxAllocations := cfg.maxAllocations
  currentAllocations := p.state.shared.currentAllocations
  threadList := p.threadList
  freed := []

def destroy [DecidableEq τ] (cfg : Config) (p : Pool τ) : Option Outcome :=
  ocacheDestroy cfg (cachedIn p) (ocacheOf cfg p)

end

section

variable {τ : Type}

structure History [DecidableEq τ] (cfg : Config) (p : Pool τ) : Prop where
  run : ∃ schedule, Schedule.Along (CachePool.step cfg) (CachePool.Allowed cfg) Pool.init schedule ∧
    schedule.foldl (CachePool.step cfg) Pool.init = p
  idle : ∀ t, isIdle (p.state.threads t).activity = true

def outstanding [Fintype τ] (p : Pool τ) : Nat := ∑ t, (p.state.threads t).held.length

/-- `oc->free` is called once for each object in the ring or in a registered local cache, and for no
other. -/
def FreesOnce (p : Pool τ) (freed : List Nat) : Prop :=
  (∀ object, object ∈ freed ↔
    object ∈ p.state.shared.ring ∨ ∃ t ∈ p.threadList, object ∈ cachedIn p t) ∧ freed.Nodup

def Accounts [DecidableEq τ] [Fintype τ] (cfg : Config) (p : Pool τ) : Prop :=
  ∃ o, destroy cfg p = some o ∧ FreesOnce p o.freed ∧ o.returned = outstanding p

end

variable {τ : Type} {cfg : Config}

theorem drain_eq (ring : List Nat) (oc : OCache τ) :
    drain ring oc = { oc with
      ring := []
      freed := oc.freed ++ ring
      currentAllocations := if oc.maxAllocations ≠ 0 then oc.currentAllocations - ring.length
        else oc.currentAllocations } := by
  induction ring generalizing oc with
  | nil => simp [drain]
  | cons ele rest ih =>
    rw [drain, ih]
    simp only [List.append_assoc, List.singleton_append, List.length_cons, OCache.mk.injEq,
      true_and, and_true]
    split_ifs
    · omega
    · rfl

theorem finish_freed (oc : OCache τ) : (finish oc).freed = oc.freed ++ oc.ring := by
  rw [finish, drain_eq]

theorem finish_returned (oc : OCache τ) : (finish oc).returned = 0 := rfl

theorem coe_flatMap (f : τ → List Nat) (list : List τ) :
    (↑(list.flatMap f) : Multiset Nat) = (list.map fun t => (↑(f t) : Multiset Nat)).sum := by
  induction list with
  | nil => rfl
  | cons t rest ih =>
    rw [List.flatMap_cons, ← Multiset.coe_add, ih, List.map_cons, List.sum_cons]

variable [DecidableEq τ]

theorem unregisterAll_perm (cached : τ → List Nat) (oc : OCache τ) (hmax : oc.maxAllocations ≠ 0)
    (hroom : oc.ring.length + (oc.threadList.flatMap cached).length ≤ cfg.bufferSize) :
    ∃ oc', unregisterAll cfg cached oc.threadList.length oc = some oc' ∧ oc'.threadList = [] ∧
      oc'.freed = oc.freed ∧ oc'.ring.Perm (oc.ring ++ oc.threadList.flatMap cached) := by
  induction hn : oc.threadList.length generalizing oc with
  | zero =>
    have hnil := List.length_eq_zero_iff.mp hn
    exact ⟨oc, rfl, hnil, rfl, by simp [hnil]⟩
  | succ n ih =>
    obtain ⟨lc, rest, hlist⟩ := List.exists_cons_of_length_eq_add_one hn
    have hfirst : oc.threadList.idxOf? lc = some 0 := by simp [hlist, List.idxOf?_cons]
    have hperm := (swapRemove_perm oc.threadList 0 lc (getElem?_of_idxOf? hfirst)).flatMap_right
      cached
    rw [List.flatMap_cons] at hperm
    have hlength := hperm.length_eq
    rw [List.length_append] at hlength
    have hunregister : unregisterThread cfg cached oc lc = some { oc with
        ring := oc.ring ++ cached lc
        threadList := swapRemove oc.threadList 0 } := by
      rw [unregisterThread, hfirst]
      dsimp only
      rw [if_pos hmax, if_pos (by omega)]
    obtain ⟨oc', hrun, hempty, hfreed, hring⟩ := ih { oc with
        ring := oc.ring ++ cached lc
        threadList := swapRemove oc.threadList 0 } hmax
      (by simp only [List.length_append]; omega) (by rw [length_swapRemove]; omega)
    refine ⟨oc', ?_, hempty, hfreed, hring.trans ?_⟩
    · rw [unregisterAll, hlist]
      dsimp only
      rw [hunregister]
      exact hrun
    · rw [List.append_assoc]
      exact hperm.append_left _

variable [Fintype τ] {p : Pool τ}

theorem stored_le (hkept : Kept cfg p) :
    (↑(p.state.shared.ring ++ p.threadList.flatMap (cachedIn p)) : Multiset Nat) ≤
      Multiset.range p.state.shared.made := by
  obtain ⟨credit, hbooks⟩ := hkept.conserved
  have hcached (t : τ) : (↑(cachedIn p t) : Multiset Nat) ≤ threadObjects (p.state.threads t) := by
    rw [threadObjects_eq, add_assoc]
    exact Multiset.le_add_right _ _
  have hcaches : (↑(p.threadList.flatMap (cachedIn p)) : Multiset Nat) ≤
      ∑ t, threadObjects (p.state.threads t) := by
    calc
      _ = ∑ t ∈ p.threadList.toFinset, (↑(cachedIn p t) : Multiset Nat) := by
        rw [coe_flatMap, List.sum_toFinset _ hkept.nodup]
      _ ≤ ∑ t, (↑(cachedIn p t) : Multiset Nat) :=
        Finset.sum_le_sum_of_subset (Finset.subset_univ _)
      _ ≤ _ := Finset.sum_le_sum fun t _ => hcached t
  rw [← hbooks.objects, ← Multiset.coe_add]
  exact (add_le_add_right hcaches _).trans (Multiset.le_add_right _ _)

theorem destroy_returns (hlimit : cfg.limitSize = true) (hkept : Kept cfg p) :
    ∃ o, destroy cfg p = some o ∧
      o.freed.Perm (p.state.shared.ring ++ p.threadList.flatMap (cachedIn p)) ∧
      o.returned = 0 := by
  obtain ⟨credit, hbooks⟩ := hkept.conserved
  have hmax := (maxAllocations_limited hlimit).2
  have hroom := Multiset.card_le_card (stored_le hkept)
  rw [Multiset.coe_card, List.length_append, Multiset.card_range] at hroom
  obtain ⟨oc, hrun, -, hfreed, hring⟩ := unregisterAll_perm (cachedIn p) (ocacheOf cfg p) hmax
    (hroom.trans (books_limited hbooks hlimit))
  refine ⟨finish oc, ?_, ?_, finish_returned oc⟩
  · rw [destroy, ocacheDestroy, hrun]
    rfl
  · rw [finish_freed, hfreed]
    exact hring

theorem destroy_freesOnce (hkept : Kept cfg p) {freed : List Nat}
    (hperm : freed.Perm (p.state.shared.ring ++ p.threadList.flatMap (cachedIn p))) :
    FreesOnce p freed := by
  refine ⟨fun object => ?_, ?_⟩
  · rw [hperm.mem_iff, List.mem_append, List.mem_flatMap]
  · rw [hperm.nodup_iff, ← Multiset.coe_nodup]
    exact Multiset.nodup_of_le (stored_le hkept) (Multiset.nodup_range _)

theorem history_kept (hp : History cfg p) : Kept cfg p := by
  obtain ⟨schedule, hallowed, rfl⟩ := hp.run
  exact Schedule.along_inv (Kept cfg) (fun p e hp he => step_kept hp e he) kept_init hallowed

theorem destroy_accounts_iff (cfg : Config) (hlimit : cfg.limitSize = true) (p : Pool τ)
    (hp : History cfg p) : Accounts cfg p ↔ outstanding p = 0 := by
  have hkept := history_kept hp
  obtain ⟨o, ho, hfreed, hreturned⟩ := destroy_returns hlimit hkept
  constructor
  · rintro ⟨o', ho', -, hreturned'⟩
    rw [ho, Option.some.injEq] at ho'
    rw [← ho', hreturned] at hreturned'
    exact_mod_cast hreturned'.symm
  · intro hnone
    refine ⟨o, ho, destroy_freesOnce hkept hfreed, ?_⟩
    rw [hreturned, hnone]
    rfl

def oneHeld : List (Event (Fin 1)) :=
  [.findCache 0, .call (.alloc 0 1 1), .call (.run 0), .call (.run 0), .call (.run 0),
    .call (.run 0), .call (.run 0)]

def atEnd (schedule : List (Event (Fin 1))) : Pool (Fin 1) :=
  schedule.foldl (CachePool.step smallCache) Pool.init

theorem givenBack_accounts :
    Accounts smallCache (atEnd (oneHeld ++ [.call (.free 0 [0] 1), .call (.run 0)])) :=
  (destroy_accounts_iff smallCache rfl _
    ⟨⟨_, by decide +kernel, rfl⟩, by decide +kernel⟩).mpr (by decide +kernel)

/-- One object is missing, and the result is zero. -/
theorem oneHeld_unaccounted :
    History smallCache (atEnd oneHeld) ∧ outstanding (atEnd oneHeld) = 1 ∧
      (destroy smallCache (atEnd oneHeld)).map (·.returned) = some 0 ∧
      ¬ Accounts smallCache (atEnd oneHeld) := by
  have hheld : outstanding (atEnd oneHeld) = 1 := by decide +kernel
  have hreturned : (destroy smallCache (atEnd oneHeld)).map (·.returned) = some 0 := by
    decide +kernel
  refine ⟨⟨⟨oneHeld, by decide +kernel, rfl⟩, by decide +kernel⟩, hheld, hreturned, ?_⟩
  rintro ⟨o, ho, -, hcount⟩
  rw [ho, Option.map_some, hcount, hheld] at hreturned
  cases hreturned

end Libtrace.CacheDestroy
