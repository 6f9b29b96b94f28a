import Libtrace.Requests

/-! `libtrace_ocache_alloc` and `libtrace_ocache_free` of `data-struct/object_cache.c`, as programs
of one thread. What they share with other threads is a request each: a bulk operation on the ring, a
look at `current_allocations`, the section under `spin`, and the user's `alloc` or `free`. A request
carries what its thread has then. -/

namespace Libtrace.ObjectCache
open Requests

structure Config where
  threadCacheSize : Nat
  bufferSize : Nat
  limitSize : Bool
  bufferSize_pos : 0 < bufferSize

def Config.maxAllocations (cfg : Config) : Nat := if cfg.limitSize then cfg.bufferSize else 0

theorem maxAllocations_limited {cfg : Config} (hlimit : cfg.limitSize = true) :
    cfg.maxAllocations = cfg.bufferSize ∧ cfg.maxAllocations ≠ 0 := by
  have hmax : cfg.maxAllocations = cfg.bufferSize := if_pos hlimit
  have hpos := cfg.bufferSize_pos
  exact ⟨hmax, by omega⟩

inductive Place where
  | cache
  | hands
  deriving DecidableEq, Repr

structure Snap where
  cached : List Nat
  hands : List Nat
  deriving DecidableEq, Repr

def Snap.add (snap : Snap) (place : Place) (objects : List Nat) : Snap :=
  match place with
  | .cache => { snap with cached := snap.cached ++ objects }
  | .hands => { snap with hands := snap.hands ++ objects }

/-- `snap` is what the thread has besides the objects that the request gives away. -/
inductive Op where
  | sreadBulk (into : Place) (snap : Snap) (nb min : Nat)
  | swriteBulk (source : Place) (snap : Snap) (values : List Nat) (min : Nat)
  | tryAlloc (snap : Snap)
  | reserve (snap : Snap) (want : Nat)
  | alloc (snap : Snap)
  | free (snap : Snap) (object : Nat)
  | fail

def Op.snap : Op → Snap
  | sreadBulk _ snap _ _ => snap
  | swriteBulk source snap values _ => snap.add source values
  | tryAlloc snap => snap
  | reserve snap _ => snap
  | alloc snap => snap
  | free snap object => snap.add .hands [object]
  | fail => ⟨[], []⟩

def Op.Ans : Op → Type
  | sreadBulk .. => List Nat
  | swriteBulk .. => Nat
  | tryAlloc _ => Bool
  | reserve .. => Nat
  | alloc _ => Nat
  | free .. => Unit
  | fail => Empty

abbrev Call (ρ : Type) := Task Op.Ans ρ

def sreadBulk (into : Place) (snap : Snap) (nb min : Nat) : Call (List Nat) :=
  request (Op.sreadBulk into snap nb min)

def swriteBulk (source : Place) (snap : Snap) (values : List Nat) (min : Nat) : Call Nat :=
  request (Op.swriteBulk source snap values min)

def tryAlloc (snap : Snap) : Call Bool := request (Op.tryAlloc snap)

def reserve (snap : Snap) (want : Nat) : Call Nat := request (Op.reserve snap want)

def alloc (snap : Snap) : Call Nat := request (Op.alloc snap)

def free (snap : Snap) (object : Nat) : Call Unit := request (Op.free snap object)

def fail {ρ : Type} : Call ρ := .ask Op.fail Empty.elim

def assertThat (p : Prop) [Decidable p] : Call Unit := if p then pure () else fail

section

def fillRemaining (nb : Nat) (values cache : List Nat) : List Nat × List Nat :=
  if values.length < nb ∧ cache ≠ [] then
    let remaining := min cache.length (nb - values.length)
    (values ++ cache.drop (cache.length - remaining), cache.take (cache.length - remaining))
  else (values, cache)

def fillAndCheck (nb min : Nat) (values cache : List Nat) : Call (List Nat × List Nat) := do
  let filled := fillRemaining nb values cache
  assertThat (filled.1.length ≥ min)
  return filled

/-- The objects for the caller and the cache that is left. The caller's array already has `got`. -/
def allocCache (total : Nat) (got cache : List Nat) (nb min : Nat) :
    Call (List Nat × List Nat) :=
  if nb ≤ cache.length then
    return (cache.drop (cache.length - nb), cache.take (cache.length - nb))
  else if nb > total then do
    let values ← sreadBulk .hands ⟨cache, got⟩ nb min
    fillAndCheck nb min values cache
  else do
    -- The cached objects are in the caller's array while the cache is filled anew.
    let refill ← sreadBulk .cache ⟨[], got ++ cache⟩ total (min - cache.length)
    fillAndCheck nb min cache refill

def fetch (cfg : Config) (got cache : List Nat) (nb min : Nat) : Call (List Nat × List Nat) :=
  if cfg.threadCacheSize ≠ 0 then allocCache cfg.threadCacheSize got cache nb min
  else do
    let values ← sreadBulk .hands ⟨cache, got⟩ nb min
    return (values, cache)

def reserveUpTo (cfg : Config) (values cache : List Nat) (nb : Nat) : Call Nat :=
  if cfg.maxAllocations ≠ 0 then do
    let n ← reserve ⟨cache, values⟩ (nb - values.length)
    return n + values.length
  else return nb

def allocMany (cache : List Nat) : Nat → List Nat → Call (List Nat)
  | 0, values => return values
  | left + 1, values => do
    let object ← alloc ⟨cache, values⟩
    allocMany cache left (values ++ [object])

def checkMin (min : Nat) (values cache : List Nat) : Call (List Nat × List Nat) := do
  assertThat (values.length ≥ min)
  return (values, cache)

def allocRest (cfg : Config) (values cache : List Nat) (nb min : Nat) :
    Call (List Nat × List Nat) := do
  let upTo ← reserveUpTo cfg values cache nb
  let values ← allocMany cache (upTo - values.length) values
  assertThat (values.length = upTo)
  if upTo < min then do
    let more ← fetch cfg values cache (nb - upTo) (min - upTo)
    checkMin min (values ++ more.1) more.2
  else checkMin min values cache

def ocacheAlloc (cfg : Config) (cache : List Nat) (nb min : Nat) :
    Call (List Nat × List Nat) := do
  let try_ ← tryAlloc ⟨cache, []⟩
  assertThat (cfg.maxAllocations ≠ 0 → nb < cfg.maxAllocations)
  let fetched ← fetch cfg [] cache nb (if try_ then 0 else min)
  if try_ then allocRest cfg fetched.1 fetched.2 nb min
  else checkMin min fetched.1 fetched.2

end

section

def emptyRemaining (total : Nat) (values cache : List Nat) (i : Nat) : Nat × List Nat :=
  if i < values.length ∧ cache.length ≠ total then
    let remaining := min (total - cache.length) (values.length - i)
    (i + remaining, cache ++ (values.drop i).take remaining)
  else (i, cache)

def freeCache (total : Nat) (cache values : List Nat) (min : Nat) : Call (Nat × List Nat) :=
  if values.length ≤ total - cache.length then return (values.length, cache ++ values)
  else if values.length > total then do
    let i ← swriteBulk .hands ⟨cache, []⟩ values min
    return emptyRemaining total values cache i
  else do
    let i := total - cache.length
    let full := cache ++ values.take i
    let written ← swriteBulk .cache ⟨[], values.drop i⟩ full (min - i)
    return emptyRemaining total values (full.drop written) i

def putBack (cfg : Config) (cache values : List Nat) (min : Nat) : Call (Nat × List Nat) :=
  if cfg.threadCacheSize ≠ 0 then freeCache cfg.threadCacheSize cache values min
  else do
    let i ← swriteBulk .hands ⟨cache, []⟩ values min
    return (i, cache)

def freeMany (cache values : List Nat) : Nat → Nat → Call Nat
  | 0, i => return i
  | left + 1, i =>
    match values[i]? with
    | some object => do
      free ⟨cache, values.drop (i + 1)⟩ object
      freeMany cache values left (i + 1)
    | none => fail

def ocacheFree (cfg : Config) (cache values : List Nat) (min : Nat) : Call (Nat × List Nat) := do
  assertThat (cfg.maxAllocations ≠ 0 → values.length < cfg.maxAllocations)
  let put ← putBack cfg cache values (if cfg.maxAllocations ≠ 0 then min else 0)
  if cfg.maxAllocations ≠ 0 then return put
  else do
    let i ← freeMany put.2 values (min - put.1) put.1
    return (i, put.2)

end

end Libtrace.ObjectCache
