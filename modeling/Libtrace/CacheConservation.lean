import Libtrace.CacheSteps
import Libtrace.Census
import Libtrace.Schedule

/-! Conservation of the objects of an object cache, over every run of the threads that use
it. -/

namespace Libtrace.CacheConservation
open Requests ObjectCache CachePrograms CacheThreads CacheSteps Function

variable {τ ρ : Type} {cfg : Config}

section

def threadObjects (th : Thread) : Multiset Nat := ↑th.cached + ↑th.held

theorem threadObjects_eq (th : Thread) :
    threadObjects th = ↑th.cache + ↑th.hands + objectsOf th.activity.snap := by
  simp only [threadObjects, Thread.cached, Thread.held, objectsOf, ← Multiset.coe_add]
  abel

def Busy (cfg : Config) (Q : ρ → Stake → Prop) (fin : ρ → Snap) (task : Call ρ)
    (credit : Nat) : Prop :=
  Safe (contract cfg) Q task ⟨objectsOf (callSnap fin task), credit⟩

/-- A thread that keeps the contract of its call, with `credit` reserved allocations not used. -/
def Sound (cfg : Config) (th : Thread) (credit : Nat) : Prop :=
  match th.activity with
  | .idle => th.cache.length ≤ cfg.threadCacheSize
  | .allocating nb min task => th.cache = [] ∧
    Busy cfg (Allocated cfg nb min) (fun r => ⟨r.2, r.1⟩) task credit
  | .freeing values min task => th.cache = [] ∧
    Busy cfg (Freed cfg values min) (fun r => ⟨r.2, values.drop r.1⟩) task credit

variable {Q : ρ → Stake → Prop} {fin : ρ → Snap}

theorem busy_of_safe {task : Call ρ} {h : Stake}
    (hfin : ∀ r h, Q r h → h.objects = objectsOf (fin r)) (hsafe : Safe (contract cfg) Q task h) :
    objectsOf (callSnap fin task) = h.objects ∧ Busy cfg Q fin task h.credit := by
  have hobjects : objectsOf (callSnap fin task) = h.objects := by
    cases task with
    | ret r => exact (hfin r h hsafe).symm
    | ask op k => exact hsafe.1.1.symm
  refine ⟨hobjects, ?_⟩
  rw [Busy, hobjects]
  exact hsafe

theorem busy_advance [DecidableEq τ] (hfin : ∀ r h, Q r h → h.objects = objectsOf (fin r)) {op : Op}
    {k : op.Ans → Call ρ} {credit : Nat} (hbusy : Busy cfg Q fin (.ask op k) credit) (t : τ)
    (s : Shared τ) :
    ∃ credit', Busy cfg Q fin (advance cfg t s op k).2 credit' ∧
      Moves cfg s (advance cfg t s op k).1 ⟨objectsOf op.snap, credit⟩
        ⟨objectsOf (callSnap fin (advance cfg t s op k).2), credit'⟩ := by
  obtain ⟨h', hsafe, hmoves⟩ := advance_keeps t s op k hbusy
  obtain ⟨hobjects, hbusy'⟩ := busy_of_safe hfin hsafe
  rw [hobjects]
  exact ⟨h'.credit, hbusy', hmoves⟩

theorem threadObjects_return (hands : List Nat) (snap : Snap) :
    (↑snap.cached + ↑(hands ++ snap.hands) + objectsOf ⟨[], []⟩ : Multiset Nat) =
      ↑([] : List Nat) + ↑hands + objectsOf snap := by
  simp only [objectsOf, ← Multiset.coe_add, Multiset.coe_nil]
  abel

theorem run_sound [DecidableEq τ] (t : τ) (s : Shared τ) (th : Thread) (credit : Nat)
    (hsound : Sound cfg th credit) :
    ∃ credit', Sound cfg (th.run cfg t s).2 credit' ∧
      Moves cfg s (th.run cfg t s).1 ⟨threadObjects th, credit⟩
        ⟨threadObjects (th.run cfg t s).2, credit'⟩ := by
  obtain ⟨cache, hands, activity⟩ := th
  simp only [threadObjects_eq]
  cases activity with
  | idle => exact ⟨credit, hsound, moves_refl s _⟩
  | allocating nb min task =>
    obtain ⟨hcache, hbusy⟩ := hsound
    cases task with
    | ret r =>
      cases hcache
      refine ⟨credit, hbusy.fits, ?_⟩
      have hreturn := threadObjects_return hands ⟨r.2, r.1⟩
      simp only [Thread.run, Activity.snap, callSnap, hreturn]
      exact moves_refl s _
    | ask op k =>
      obtain ⟨credit', hbusy', hmoves⟩ := busy_advance (fun r h hr => hr.objects) hbusy t s
      exact ⟨credit', ⟨hcache, hbusy'⟩, moves_frame hmoves _⟩
  | freeing values min task =>
    obtain ⟨hcache, hbusy⟩ := hsound
    cases task with
    | ret r =>
      cases hcache
      refine ⟨credit, hbusy.fits, ?_⟩
      have hreturn := threadObjects_return hands ⟨r.2, values.drop r.1⟩
      simp only [Thread.run, Activity.snap, callSnap, hreturn]
      exact moves_refl s _
    | ask op k =>
      obtain ⟨credit', hbusy', hmoves⟩ := busy_advance (fun r h hr => hr.objects) hbusy t s
      exact ⟨credit', ⟨hcache, hbusy'⟩, moves_frame hmoves _⟩

theorem sound_setThread [DecidableEq τ] {s : State τ} {credit : τ → Nat}
    (hsound : ∀ u, Sound cfg (s.threads u) (credit u)) (t : τ) (th : Thread) (credit' : Nat)
    (hth : Sound cfg th credit') (u : τ) :
    Sound cfg ((s.setThread t th).threads u) (update credit t credit' u) := by
  by_cases hu : u = t
  · subst hu
    simpa only [State.setThread, update_self] using hth
  · simpa only [State.setThread, update_of_ne hu] using hsound u

end

section

variable [Fintype τ]

/-- Every object made is accounted for, and with a limit what was made or may still be made was
reserved. -/
structure Books (cfg : Config) (s : State τ) (credit : τ → Nat) : Prop where
  objects : (↑s.shared.ring + ∑ t, threadObjects (s.threads t) + ↑s.shared.destroyed :
    Multiset Nat) = Multiset.range s.shared.made
  sound : ∀ t, Sound cfg (s.threads t) (credit t)
  reserved : cfg.maxAllocations ≠ 0 →
    s.shared.made + ∑ t, credit t ≤ s.shared.currentAllocations
  limit : s.shared.currentAllocations ≤ cfg.maxAllocations

def Conserved (cfg : Config) (s : State τ) : Prop := ∃ credit, Books cfg s credit

theorem conserved_init : Conserved cfg (State.init : State τ) := by
  refine ⟨fun _ => 0, ?_, fun t => Nat.zero_le _, fun _ => ?_, Nat.zero_le _⟩
  · simp [State.init, threadObjects, Thread.cached, Thread.held, Activity.snap]
  · simp [State.init]

variable [DecidableEq τ] {s : State τ} {credit : τ → Nat}

theorem max_of_limit {nb : Nat} (hlimit : cfg.limitSize = true → nb < cfg.bufferSize)
    (hmax : cfg.maxAllocations ≠ 0) : nb < cfg.maxAllocations := by
  unfold Config.maxAllocations at hmax ⊢
  split_ifs at hmax ⊢ with h
  · exact hlimit h
  · exact absurd rfl hmax

section

variable (hbooks : Books cfg s credit) (t : τ)
include hbooks t

theorem books_move (th : Thread) (shared : Shared τ)
    (credit' : Nat) (hsound : Sound cfg th credit')
    (hmoves : Moves cfg s.shared shared ⟨threadObjects (s.threads t), credit t⟩
      ⟨threadObjects th, credit'⟩) :
    Books cfg { s.setThread t th with shared := shared } (update credit t credit') := by
  have hobjects := hmoves.objects
  have hthreads := Census.sum_update threadObjects s.threads t th
  refine ⟨?_, sound_setThread hbooks.sound t th credit' hsound, fun hmax => ?_,
    hmoves.limit hbooks.limit⟩
  · have hbefore := hbooks.objects
    dsimp only [State.setThread] at hobjects ⊢
    generalize ∑ u, threadObjects (update s.threads t th u) = after at hthreads ⊢
    generalize ∑ u, threadObjects (s.threads u) = before at hthreads hbefore
    refine add_right_cancel (b := threadObjects (s.threads t) + Multiset.range s.shared.made) ?_
    calc
      _ = ↑shared.ring + (after + threadObjects (s.threads t)) + ↑shared.destroyed +
          Multiset.range s.shared.made := by abel
      _ = before + (↑shared.ring + threadObjects th + ↑shared.destroyed +
          Multiset.range s.shared.made) := by rw [hthreads]; abel
      _ = (↑s.shared.ring + before + ↑s.shared.destroyed) + threadObjects (s.threads t) +
          Multiset.range shared.made := by rw [hobjects]; abel
      _ = _ := by rw [hbefore]; abel
  · have hcredit := Census.sum_update id credit t credit'
    have hbefore := hbooks.reserved hmax
    have hstep := hmoves.reserved hmax
    simp only [id] at hcredit
    dsimp only at hstep ⊢
    omega

theorem books_set (th : Thread) (hsound : Sound cfg th (credit t))
    (hobjects : threadObjects th = threadObjects (s.threads t)) :
    Conserved cfg (s.setThread t th) := by
  refine ⟨_, books_move hbooks t th s.shared (credit t) hsound ?_⟩
  rw [hobjects]
  exact moves_refl _ _

theorem books_begin (th : Thread)
    (hidle : (s.threads t).activity = .idle) (hsound : Sound cfg th (credit t))
    (hcache : th.cache = [])
    (hobjects : (objectsOf th.activity.snap + ↑th.hands : Multiset Nat) =
      ↑(s.threads t).cache + ↑(s.threads t).hands) :
    Conserved cfg (s.setThread t th) := by
  refine books_set hbooks t th hsound ?_
  rw [threadObjects_eq, threadObjects_eq (s.threads t), hidle, hcache, ← hobjects]
  abel

theorem step_alloc_conserved (nb min : Nat) (hallowed : Allowed cfg s (.alloc t nb min)) :
    Conserved cfg (step cfg s (.alloc t nb min)) := by
  obtain ⟨hmin, hlimit⟩ := hallowed
  have hsound := hbooks.sound t
  simp only [step]
  cases hact : (s.threads t).activity with
  | idle =>
    rw [Sound, hact] at hsound
    have hsafe := safe_ocacheAlloc (h := ⟨↑(s.threads t).cache, credit t⟩) rfl hmin
      (max_of_limit hlimit) hsound
    obtain ⟨hsnap, hbusy⟩ := busy_of_safe (fun r h hr => hr.objects) hsafe
    exact books_begin hbooks t _ hact ⟨rfl, hbusy⟩ rfl (congrArg (· + _) hsnap)
  | allocating nb min task | freeing values min task => exact ⟨credit, hbooks⟩

theorem step_free_conserved (values : List Nat) (min : Nat)
    (hallowed : Allowed cfg s (.free t values min)) :
    Conserved cfg (step cfg s (.free t values min)) := by
  obtain ⟨hmin, hlimit, hnodup, hheld⟩ := hallowed
  have hsound := hbooks.sound t
  simp only [step]
  cases hact : (s.threads t).activity with
  | idle =>
    rw [Sound, hact] at hsound
    have hsafe := safe_ocacheFree (h := ⟨↑(s.threads t).cache + ↑values, credit t⟩) rfl hmin
      (max_of_limit hlimit) hsound
    obtain ⟨hsnap, hbusy⟩ := busy_of_safe (fun r h hr => hr.objects) hsafe
    have hhands : (↑values + ↑((s.threads t).hands.diff values) : Multiset Nat) =
        ↑(s.threads t).hands := by
      rw [← Multiset.coe_sub]
      exact add_tsub_cancel_of_le
        ((Multiset.le_iff_subset (Multiset.coe_nodup.mpr hnodup)).mpr hheld)
    refine books_begin hbooks t _ hact ⟨rfl, hbusy⟩ rfl ?_
    rw [← hhands, ← add_assoc]
    exact congrArg (· + _) hsnap
  | allocating nb min task | freeing values min task => exact ⟨credit, hbooks⟩

theorem step_run_conserved :
    Conserved cfg (step cfg s (.run t)) := by
  obtain ⟨credit', hsound, hmoves⟩ := run_sound t s.shared (s.threads t) (credit t) (hbooks.sound t)
  exact ⟨_, books_move hbooks t _ _ credit' hsound hmoves⟩

end

theorem total_setThread (s : State τ) (t : τ) (th : Thread) :
    (∑ u, threadObjects ((s.setThread t th).threads u)) + threadObjects (s.threads t) =
      (∑ u, threadObjects (s.threads u)) + threadObjects th :=
  Census.sum_update threadObjects s.threads t th

theorem threadObjects_give (th : Thread) (object : Nat) (hmem : object ∈ th.hands) :
    threadObjects (th.give object) + {object} = threadObjects th := by
  have hhands : (↑(th.hands.erase object) + {object} : Multiset Nat) = ↑th.hands := by
    rw [← Multiset.coe_erase, add_comm, Multiset.singleton_add, Multiset.cons_erase hmem]
  simp only [threadObjects_eq, Thread.give, ← hhands]
  abel

theorem threadObjects_receive (th : Thread) (object : Nat) :
    threadObjects (th.receive object) = threadObjects th + {object} := by
  simp only [threadObjects_eq, Thread.receive, ← Multiset.coe_add, Multiset.coe_singleton]
  abel

theorem total_pass (s : State τ) (t u : τ) (object : Nat) (hmem : object ∈ (s.threads t).hands) :
    let s₁ := s.setThread t ((s.threads t).give object)
    ∑ v, threadObjects ((s₁.setThread u ((s₁.threads u).receive object)).threads v) =
      ∑ v, threadObjects (s.threads v) := by
  intro s₁
  have hgive := total_setThread s t ((s.threads t).give object)
  have htake := total_setThread s₁ u ((s₁.threads u).receive object)
  rw [threadObjects_receive] at htake
  rw [← threadObjects_give (s.threads t) object hmem] at hgive
  have hgive' : ∑ v, threadObjects (s₁.threads v) + {object} =
      ∑ v, threadObjects (s.threads v) := by
    refine add_right_cancel (b := threadObjects ((s.threads t).give object)) ?_
    rw [← hgive]
    abel
  rw [← hgive']
  refine add_right_cancel (b := threadObjects (s₁.threads u)) ?_
  rw [htake]
  abel

theorem step_pass_conserved (hbooks : Books cfg s credit) (t u : τ) (object : Nat) :
    Conserved cfg (step cfg s (.pass t u object)) := by
  simp only [step]
  split_ifs with hmem
  · have hgive := sound_setThread hbooks.sound t ((s.threads t).give object) (credit t)
      (hbooks.sound t)
    rw [update_eq_self] at hgive
    have hreceive := sound_setThread hgive u (((s.setThread t ((s.threads t).give object)).threads
      u).receive object) (credit u) (hgive u)
    rw [update_eq_self] at hreceive
    refine ⟨credit, ?_, hreceive, hbooks.reserved, hbooks.limit⟩
    rw [total_pass s t u object hmem]
    exact hbooks.objects
  · exact ⟨credit, hbooks⟩

theorem step_conserved (hconserved : Conserved cfg s) (a : Action τ) (hallowed : Allowed cfg s a) :
    Conserved cfg (step cfg s a) := by
  obtain ⟨credit, hbooks⟩ := hconserved
  cases a with
  | alloc t nb min => exact step_alloc_conserved hbooks t nb min hallowed
  | free t values min => exact step_free_conserved hbooks t values min hallowed
  | run t => exact step_run_conserved hbooks t
  | pass t u object => exact step_pass_conserved hbooks t u object

end

end Libtrace.CacheConservation
