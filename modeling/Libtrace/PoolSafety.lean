import Libtrace.PoolRounds

/-! With a limit on the objects no bulk write waits for the ring, in any run. -/

namespace Libtrace.PoolSafety
open Requests ObjectCache CachePrograms CacheConservation CacheSafety SwapRemove CachePool
  PoolRounds Function
open CacheThreads hiding step Allowed

variable {τ ρ : Type} {cfg : Config}

section

theorem release_spin (p : Pool τ) (t : τ) (hspin : p.spin = some t)
    (hbusy : isIdle (p.state.threads t).activity = false) : p.release.spin = some t := by
  rw [Pool.release, hspin]
  dsimp only
  rw [hbusy]
  exact hspin

@[simp] theorem release_state (p : Pool τ) : p.release.state = p.state := by
  unfold Pool.release
  split
  · split_ifs <;> rfl
  · rfl

@[simp] theorem release_threadList (p : Pool τ) : p.release.threadList = p.threadList := by
  unfold Pool.release
  split
  · split_ifs <;> rfl
  · rfl

variable {p : Pool τ}

/-- A thread without a record has nothing cached, and is in no call but the one that unregisters
it. -/
def Vacant (spin : Option τ) (t : τ) (th : Thread) : Prop :=
  th.cache = [] ∧ (th.activity = .idle ∨ spin = some t ∧ Emptying th.activity)

theorem vacant_run [DecidableEq τ] {spin : Option τ} {u : τ} {th : Thread}
    (hvacant : Vacant spin u th) (t : τ) (s : Shared τ) : Vacant spin u (th.run cfg t s).2 := by
  obtain ⟨cache, hands, activity⟩ := th
  obtain ⟨hcache, hidle | ⟨hspin, hempty⟩⟩ := hvacant
  · cases hidle
    exact ⟨hcache, .inl rfl⟩
  · match activity with
    | .freeing _ _ (.ret r) => exact ⟨hempty, .inl rfl⟩
    | .freeing _ _ (.ask op k) =>
      exact ⟨hcache, .inr ⟨hspin, advance_always t s op k hempty⟩⟩

theorem vacant_release {t : τ} (hvacant : Vacant p.spin t (p.state.threads t)) :
    Vacant p.release.spin t (p.release.state.threads t) := by
  rw [release_state]
  obtain ⟨hcache, hidle | ⟨hspin, hempty⟩⟩ := hvacant
  · exact ⟨hcache, .inl hidle⟩
  · refine ⟨hcache, .inr ⟨release_spin p t hspin ?_, hempty⟩⟩
    cases hact : (p.state.threads t).activity with
    | idle =>
      rw [hact] at hempty
      exact hempty.elim
    | _ => rfl

theorem pass_same [DecidableEq τ] (s : State τ) (t v : τ) (object : Nat) (u : τ) :
    let s₁ := s.setThread t ((s.threads t).give object)
    let th := (s₁.setThread v ((s₁.threads v).receive object)).threads u
    th.cache = (s.threads u).cache ∧ th.activity = (s.threads u).activity := by
  simp only [State.setThread, Thread.give, Thread.receive, update_apply]
  constructor <;> split_ifs with huv hvt hut <;> subst_vars <;> rfl

theorem vacant_step [DecidableEq τ] {a : Action τ} (hgo : ¬ Waits cfg p a)
    (hsize : cfg.threadCacheSize ≠ 0) {u : τ} (hu : u ∉ p.threadList)
    (hvacant : Vacant p.spin u (p.state.threads u)) :
    Vacant p.spin u ((CacheThreads.step cfg p.state a).threads u) := by
  have hother {t : τ} (th : Thread) (ht : t ∈ p.threadList) :
      (p.state.setThread t th).threads u = p.state.threads u := by
    have hne : u ≠ t := fun h => hu (h ▸ ht)
    simp only [State.setThread, update_of_ne hne]
  cases a with
  | alloc t nb min | free t values min =>
    have ht : t ∈ p.threadList := by_contra fun h => hgo ⟨hsize, h⟩
    simp only [CacheThreads.step]
    split
    · rw [hother _ ht]
      exact hvacant
    · exact hvacant
  | run t =>
    simp only [CacheThreads.step, State.setThread]
    by_cases hut : u = t
    · subst hut
      rw [update_self]
      exact vacant_run hvacant u p.state.shared
    · rw [update_of_ne hut]
      exact hvacant
  | pass t v object =>
    simp only [CacheThreads.step]
    split_ifs
    · obtain ⟨hcache, hactivity⟩ := pass_same p.state t v object u
      rw [Vacant, hcache, hactivity]
      exact hvacant
    · exact hvacant

variable [Fintype τ]

structure Kept (cfg : Config) (p : Pool τ) : Prop where
  conserved : Conserved cfg p.state
  nodup : p.threadList.Nodup
  vacant : cfg.threadCacheSize ≠ 0 → ∀ t, t ∉ p.threadList → Vacant p.spin t (p.state.threads t)

theorem kept_init : Kept cfg (Pool.init : Pool τ) :=
  ⟨conserved_init, List.nodup_nil, fun _ _ _ => ⟨rfl, .inl rfl⟩⟩

theorem kept_release (hkept : Kept cfg p) : Kept cfg p.release := by
  refine ⟨?_, ?_, fun hsize t ht => vacant_release (hkept.vacant hsize t ?_)⟩
  · rw [release_state]
    exact hkept.conserved
  · rw [release_threadList]
    exact hkept.nodup
  · rwa [release_threadList] at ht

variable [DecidableEq τ]

theorem step_findCache_kept (hkept : Kept cfg p) (t : τ) :
    Kept cfg (step cfg p (.findCache t)) := by
  simp only [step]
  split_ifs with hnone
  · exact hkept
  · push Not at hnone
    obtain ⟨hsize, hnew, -⟩ := hnone
    -- the record is new, and what it starts with is what there was
    have hcache := (hkept.vacant hsize t hnew).1
    have hsame : p.state.setThread t { p.state.threads t with cache := [] } = p.state := by
      rw [← hcache, State.setThread, update_eq_self]
    rw [hsame]
    refine ⟨hkept.conserved, ?_, fun hsize u hu => hkept.vacant hsize u fun hmem => ?_⟩
    · exact List.nodup_append.mpr ⟨hkept.nodup, List.nodup_singleton t, fun a ha b hb hab => by
        rw [List.mem_singleton] at hb
        exact hnew (hb ▸ hab ▸ ha)⟩
    · exact hu (List.mem_append_left _ hmem)

theorem step_call_kept (hkept : Kept cfg p) (a : Action τ)
    (hallowed : CacheThreads.Allowed cfg p.state a) : Kept cfg (step cfg p (.call a)) := by
  simp only [step]
  split_ifs with hwaits
  · exact hkept
  · exact kept_release ⟨step_conserved hkept.conserved a hallowed, hkept.nodup,
      fun hsize u hu => vacant_step hwaits hsize hu (hkept.vacant hsize u hu)⟩

theorem unregister_conserved {s : State τ} (hconserved : Conserved cfg s) (t : τ)
    (hidle : (s.threads t).activity = .idle) :
    let th := s.threads t
    Conserved cfg (s.setThread t
      ⟨[], th.hands, .freeing th.cache th.cache.length (giveBack cfg th.cache)⟩) := by
  obtain ⟨credit, hbooks⟩ := hconserved
  have hsafe : Safe (contract cfg) _ (giveBack cfg (s.threads t).cache)
      ⟨↑(s.threads t).cache, credit t⟩ := safe_giveBack _
  obtain ⟨hsnap, hbusy⟩ := busy_of_safe (fun r h hr => hr.objects) hsafe
  exact books_begin hbooks t _ hidle ⟨rfl, hbusy⟩ rfl (congrArg (· + _) hsnap)

theorem step_unregister_kept (hkept : Kept cfg p) (t : τ) :
    Kept cfg (step cfg p (.unregister t)) := by
  simp only [step]
  split
  case h_1 i hspin hidle hi =>
    have ht := getElem?_of_idxOf? hi
    refine ⟨unregister_conserved hkept.conserved t hidle, nodup_swapRemove hkept.nodup ht,
      fun hsize u hu => ?_⟩
    rw [mem_swapRemove hkept.nodup ht] at hu
    dsimp only [State.setThread]
    by_cases hut : u = t
    · subst hut
      rw [update_self]
      exact ⟨rfl, .inr ⟨rfl, emptying_giveBack _⟩⟩
    · rw [update_of_ne hut]
      obtain ⟨hcache, hidle | ⟨hspin', -⟩⟩ := hkept.vacant hsize u fun h => hu ⟨h, hut⟩
      · exact ⟨hcache, .inl hidle⟩
      · rw [hspin] at hspin'
        cases hspin'
  · exact hkept

theorem step_kept (hkept : Kept cfg p) (e : Event τ) (hallowed : Allowed cfg p e) :
    Kept cfg (step cfg p e) := by
  cases e with
  | findCache t => exact step_findCache_kept hkept t
  | call a => exact step_call_kept hkept a hallowed
  | unregister t => exact step_unregister_kept hkept t

section

variable (hlimit : cfg.limitSize = true) (hkept : Kept cfg p) (hfree : p.state.shared.writer = none)
include hlimit hkept hfree

theorem step_writer (e : Event τ) : (step cfg p e).state.shared.writer = none := by
  cases e with
  | findCache t =>
    simp only [step]
    split_ifs <;> exact hfree
  | call a =>
    simp only [step]
    split_ifs
    · exact hfree
    · rw [release_state]
      cases a with
      | run t => exact run_writer t hfree fun values min => room_of_conserved hkept.conserved hlimit
      | _ =>
        simp only [CacheThreads.step]
        split <;> exact hfree
  | unregister t =>
    simp only [step]
    split <;> exact hfree

theorem step_written (t : τ) (values : List Nat) (min : Nat)
    (hw : Writes (p.state.threads t).activity values min) :
    (step cfg p (.call (.run t))).state.shared.ring = p.state.shared.ring ++ values := by
  obtain ⟨hmin, hroom⟩ := room_of_conserved hkept.conserved hlimit hw
  have hgo : ¬ Waits cfg p (.run t) := fun h => by
    have hreserves := h.1
    cases hact : (p.state.threads t).activity <;> rw [hact] at hw hreserves <;> cases hw <;>
      cases hreserves
  simp only [step]
  rw [if_neg hgo, release_state]
  exact run_writes t hfree hw hmin hroom

end

theorem pool_neverWaits (cfg : Config) (hlimit : cfg.limitSize = true) (schedule : List (Event τ))
    (hallowed : Schedule.Along (step cfg) (Allowed cfg) Pool.init schedule) :
    NeverWaits cfg (schedule.foldl (step cfg) Pool.init) := by
  obtain ⟨hkept, hfree⟩ := Schedule.along_inv
    (fun p : Pool τ => Kept cfg p ∧ p.state.shared.writer = none)
    (fun p e hp he => ⟨step_kept hp.1 e he, step_writer hlimit hp.1 hp.2 e⟩)
    ⟨kept_init, rfl⟩ hallowed
  exact ⟨fun t values min => room_of_conserved hkept.conserved hlimit,
    step_written hlimit hkept hfree, hfree⟩

end

def leaving : List (Event (Fin 2)) :=
  let a : Fin 2 := ⟨0, Nat.two_pos⟩
  let b : Fin 2 := ⟨1, Nat.one_lt_two⟩
  [.findCache a, .call (.alloc a 1 1), .call (.run a), .call (.run a), .call (.run a),
    .call (.run a), .call (.run a), .call (.free a [0] 1), .call (.run a), .findCache b,
    .call (.alloc b 1 1), .call (.run b), .call (.run b), .unregister a, .call (.run b),
    .call (.run a), .call (.run a), .call (.run b)]

theorem leaving_neverWaits :
    NeverWaits smallCache (leaving.foldl (step smallCache) Pool.init) :=
  pool_neverWaits smallCache rfl leaving (by decide +kernel)

end Libtrace.PoolSafety
