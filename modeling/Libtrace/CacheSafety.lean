import Libtrace.CacheConservation
import Mathlib.Algebra.Order.BigOperators.Group.Finset

/-! What the callers of an object cache can rely on. -/

namespace Libtrace.CacheSafety
open ObjectCache CacheThreads CacheConservation

variable {τ : Type} {cfg : Config}

def Failed : Activity → Prop
  | .allocating _ _ (.ask .fail _) => True
  | .freeing _ _ (.ask .fail _) => True
  | _ => False

theorem sound_not_failed {th : Thread} {credit : Nat} (hsound : Sound cfg th credit) :
    ¬ Failed th.activity := by
  obtain ⟨cache, hands, activity⟩ := th
  intro hfailed
  match activity with
  | .idle => exact hfailed
  | .allocating _ _ (.ask .fail _) => exact hsound.2.1.2
  | .freeing _ _ (.ask .fail _) => exact hsound.2.1.2

variable [Fintype τ]

/-- In how many places an object is: the ring, a local cache, the hands of a caller, or
destroyed. -/
def placesOf (s : State τ) (object : Nat) : Nat :=
  s.shared.ring.count object + ∑ t, (s.threads t).cached.count object +
    ∑ t, (s.threads t).held.count object + s.shared.destroyed.count object

structure Consistent (cfg : Config) (s : State τ) : Prop where
  onePlace : ∀ object, placesOf s object = if object < s.shared.made then 1 else 0
  allocated : ∀ t nb min values cache,
    (s.threads t).activity = .allocating nb min (.ret (values, cache)) →
    min ≤ values.length ∧ values.length ≤ nb ∧ values.Nodup ∧ ∀ object ∈ values,
      object ∉ (s.threads t).hands ∧ ∀ u, u ≠ t → object ∉ (s.threads u).held
  /-- How many objects `libtrace_ocache_free` has taken when it returns. -/
  freed : ∀ t values min i cache,
    (s.threads t).activity = .freeing values min (.ret (i, cache)) →
    min ≤ i ∧ i ≤ values.length ∧ (s.threads t).held = (s.threads t).hands ++ values.drop i
  limited : cfg.limitSize = true → s.shared.made ≤ cfg.bufferSize
  asserted : ∀ t, ¬ Failed (s.threads t).activity

variable {s : State τ} {credit : τ → Nat}

theorem count_range (n object : Nat) :
    (Multiset.range n).count object = if object < n then 1 else 0 := by
  split_ifs with h
  · exact Multiset.count_eq_one_of_mem (Multiset.nodup_range n) (Multiset.mem_range.mpr h)
  · exact Multiset.count_eq_zero_of_notMem fun hmem => h (Multiset.mem_range.mp hmem)

section

variable (hbooks : Books cfg s credit)
include hbooks

theorem books_onePlace (object : Nat) :
    placesOf s object = if object < s.shared.made then 1 else 0 := by
  have hcount := congrArg (Multiset.count object) hbooks.objects
  rw [Multiset.count_add, Multiset.count_add, Multiset.count_sum', count_range] at hcount
  simp only [threadObjects, Multiset.count_add, Multiset.coe_count, Finset.sum_add_distrib]
    at hcount
  rw [← hcount, placesOf]
  omega

theorem held_count_le (t : τ) (object : Nat) : (s.threads t).held.count object ≤ 1 := by
  have hplaces := books_onePlace hbooks object
  have hle : (s.threads t).held.count object ≤ ∑ t, (s.threads t).held.count object :=
    Finset.single_le_sum (f := fun u => (s.threads u).held.count object)
      (fun _ _ => Nat.zero_le _) (Finset.mem_univ t)
  unfold placesOf at hplaces
  split_ifs at hplaces <;> omega

theorem held_disjoint {t u : τ} (hne : u ≠ t) {object : Nat} (hmem : object ∈ (s.threads t).held) :
    object ∉ (s.threads u).held := by
  intro hmem'
  have hplaces := books_onePlace hbooks object
  have hle := Finset.add_le_sum (f := fun v => (s.threads v).held.count object)
    (fun _ _ => Nat.zero_le _) (Finset.mem_univ t) (Finset.mem_univ u) hne.symm
  have ht := List.count_pos_iff.mpr hmem
  have hu := List.count_pos_iff.mpr hmem'
  unfold placesOf at hplaces
  split_ifs at hplaces <;> omega

theorem books_allocated (t : τ) (nb min : Nat) (values cache : List Nat)
    (hact : (s.threads t).activity = .allocating nb min (.ret (values, cache))) :
    min ≤ values.length ∧ values.length ≤ nb ∧ values.Nodup ∧ ∀ object ∈ values,
      object ∉ (s.threads t).hands ∧ ∀ u, u ≠ t → object ∉ (s.threads u).held := by
  have hsound := hbooks.sound t
  rw [Sound, hact] at hsound
  have hheld : (s.threads t).held = (s.threads t).hands ++ values := by
    rw [Thread.held, hact]
    rfl
  have hcount (object : Nat) :
      (s.threads t).hands.count object + values.count object ≤ 1 := by
    rw [← List.count_append, ← hheld]
    exact held_count_le hbooks t object
  refine ⟨hsound.2.atLeast, hsound.2.atMost, List.nodup_iff_count_le_one.mpr fun object => ?_,
    fun object hmem => ⟨fun hhands => ?_, fun u hne => held_disjoint hbooks hne ?_⟩⟩
  · have := hcount object
    omega
  · have := hcount object
    have hvalues := List.count_pos_iff.mpr hmem
    have hhands := List.count_pos_iff.mpr hhands
    omega
  · rw [hheld]
    exact List.mem_append_right _ hmem

theorem books_freed (t : τ) (values : List Nat) (min i : Nat) (cache : List Nat)
    (hact : (s.threads t).activity = .freeing values min (.ret (i, cache))) :
    min ≤ i ∧ i ≤ values.length ∧
      (s.threads t).held = (s.threads t).hands ++ values.drop i := by
  have hsound := hbooks.sound t
  rw [Sound, hact] at hsound
  refine ⟨hsound.2.atLeast, hsound.2.atMost, ?_⟩
  rw [Thread.held, hact]
  rfl

theorem books_limited (hlimit : cfg.limitSize = true) : s.shared.made ≤ cfg.bufferSize := by
  obtain ⟨hmax, hne⟩ := maxAllocations_limited hlimit
  have hreserved := hbooks.reserved hne
  have hle := hbooks.limit
  omega

end

theorem consistent_of_conserved (hconserved : Conserved cfg s) : Consistent cfg s := by
  obtain ⟨credit, hbooks⟩ := hconserved
  exact ⟨books_onePlace hbooks, books_allocated hbooks, books_freed hbooks, books_limited hbooks,
    fun t => sound_not_failed (hbooks.sound t)⟩

theorem objectCache_conserves [DecidableEq τ] (cfg : Config) (schedule : List (Action τ))
    (hallowed : Schedule.Along (step cfg) (Allowed cfg) State.init schedule) :
    Consistent cfg (schedule.foldl (step cfg) State.init) :=
  consistent_of_conserved (Schedule.along_inv (Conserved cfg)
    (fun _ a hs ha => step_conserved hs a ha) conserved_init hallowed)

def twoThreads : List (Action (Fin 2)) :=
  [.alloc 0 2 1] ++ .replicate 6 (.run 0) ++ [.pass 0 1 0, .free 1 [0] 1, .free 0 [1] 0] ++
    .replicate 2 (.run 1) ++ .replicate 2 (.run 0)

def smallCache : Config := ⟨1, 3, true, by decide⟩

theorem twoThreads_conserve :
    Consistent smallCache (twoThreads.foldl (step smallCache) State.init) :=
  objectCache_conserves smallCache twoThreads (by decide +kernel)

end Libtrace.CacheSafety
