import Libtrace.CacheSafety
import Libtrace.SwapRemove

/-! Threads that register with an object cache and may unregister. A thread that unregisters holds
`spin` until the ring has taken its local cache; others that register or reserve wait for it. -/

namespace Libtrace.CachePool
open ObjectCache CacheThreads SwapRemove

section

def freeAll : List Nat → Call Unit
  | [] => return ()
  | object :: rest => do
    free ⟨rest, []⟩ object
    freeAll rest

def giveBack (cfg : Config) (cache : List Nat) : Call (Nat × List Nat) :=
  if cfg.maxAllocations ≠ 0 then do
    let written ← swriteBulk .cache ⟨[], []⟩ cache cache.length
    return (written, [])
  else do
    freeAll cache
    return (cache.length, [])

variable {τ : Type}

structure Pool (τ : Type) where
  state : State τ
  spin : Option τ
  threadList : List τ

def Pool.init : Pool τ := ⟨State.init, none, []⟩

inductive Event (τ : Type) where
  | findCache (t : τ)
  | call (a : Action τ)
  | unregister (t : τ)

def reserves : Activity → Bool
  | .allocating _ _ (.ask (.reserve ..) _) => true
  | .freeing _ _ (.ask (.reserve ..) _) => true
  | _ => false

def isIdle : Activity → Bool
  | .idle => true
  | _ => false

variable [DecidableEq τ]

/-- What cannot be done now: a call without a record, and a section under `spin` while another
thread holds it. -/
def Waits (cfg : Config) (p : Pool τ) : Action τ → Prop
  | .alloc t _ _ => cfg.threadCacheSize ≠ 0 ∧ t ∉ p.threadList
  | .free t _ _ => cfg.threadCacheSize ≠ 0 ∧ t ∉ p.threadList
  | .run t => reserves (p.state.threads t).activity = true ∧ p.spin ≠ none
  | .pass .. => False

def waits (cfg : Config) (p : Pool τ) : Action τ → Bool
  | .alloc t _ _ | .free t _ _ => cfg.threadCacheSize != 0 && !p.threadList.contains t
  | .run t => reserves (p.state.threads t).activity && p.spin.isSome
  | .pass .. => false

theorem waits_iff (cfg : Config) (p : Pool τ) (a : Action τ) :
    waits cfg p a = true ↔ Waits cfg p a := by
  cases a <;> simp [waits, Waits, Option.isSome_iff_ne_none]

instance (cfg : Config) (p : Pool τ) (a : Action τ) : Decidable (Waits cfg p a) :=
  decidable_of_iff _ (waits_iff cfg p a)

def Pool.release (p : Pool τ) : Pool τ :=
  match p.spin with
  | some t => if isIdle (p.state.threads t).activity then { p with spin := none } else p
  | none => p

def step (cfg : Config) (p : Pool τ) : Event τ → Pool τ
  | .findCache t =>
    if cfg.threadCacheSize = 0 ∨ t ∈ p.threadList ∨ p.spin ≠ none then p
    else
      let th := p.state.threads t
      { p with state := p.state.setThread t { th with cache := [] }
               threadList := p.threadList ++ [t] }
  | .call a =>
    if Waits cfg p a then p
    else Pool.release { p with state := CacheThreads.step cfg p.state a }
  | .unregister t =>
    let th := p.state.threads t
    match p.spin, th.activity, p.threadList.idxOf? t with
    | none, .idle, some i =>
      { state := p.state.setThread t
          ⟨[], th.hands, .freeing th.cache th.cache.length (giveBack cfg th.cache)⟩
        spin := some t
        threadList := swapRemove p.threadList i }
    | _, _, _ => p

def Allowed (cfg : Config) (p : Pool τ) : Event τ → Prop
  | .call a => CacheThreads.Allowed cfg p.state a
  | _ => True

instance (cfg : Config) (p : Pool τ) (e : Event τ) : Decidable (Allowed cfg p e) := by
  cases e <;> unfold Allowed <;> infer_instance

end

section

variable {τ : Type}

/-- The next thing the thread does is a bulk write of `values`, of which `min` must go. -/
inductive Writes : Activity → List Nat → Nat → Prop
  | allocating {nb min' source snap values min k} :
    Writes (.allocating nb min' (.ask (.swriteBulk source snap values min) k)) values min
  | freeing {objects min' source snap values min k} :
    Writes (.freeing objects min' (.ask (.swriteBulk source snap values min) k)) values min

/-- Every bulk write has room in the ring, is done in one round, and so no thread waits with the
write lock. -/
structure NeverWaits [DecidableEq τ] (cfg : Config) (p : Pool τ) : Prop where
  room : ∀ t values min, Writes (p.state.threads t).activity values min →
    min ≤ values.length ∧ values.length ≤ cfg.bufferSize - p.state.shared.ring.length
  written : ∀ t values min, Writes (p.state.threads t).activity values min →
    (step cfg p (.call (.run t))).state.shared.ring = p.state.shared.ring ++ values
  unlocked : p.state.shared.writer = none

end

end Libtrace.CachePool
