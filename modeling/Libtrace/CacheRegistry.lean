import Libtrace.SwapRemove
import Mathlib.Logic.Function.Basic

/-! The registration of threads with object caches: a thread has a table of records, and an object
cache a list of the addresses of its records. -/

namespace Libtrace.CacheRegistry
open SwapRemove Function

variable {κ τ : Type}

structure Addr where
  block : Nat
  index : Nat
  deriving DecidableEq, Repr

def Addr.advance (p : Addr) (n : Nat) : Addr := { p with index := p.index + n }

/-- `struct local_cache`. `cached` are the first `used` objects of `cache`. -/
structure LocalCache (κ : Type) where
  oc : κ
  total : Nat
  cached : List Nat
  invalid : Bool

/-- `struct local_caches`. `records` are the first `t_mem_caches_used` records at
`t_mem_caches`. -/
structure LocalCaches (κ : Type) where
  memCaches : Addr
  memCachesTotal : Nat
  records : List (LocalCache κ)

def LocalCaches.addr (lcs : LocalCaches κ) (i : Nat) : Addr := lcs.memCaches.advance i

/-- `threadList` are the first `nb_thread_list` entries; `ring` and `freed` are what unregistered
threads gave back. -/
structure OCache where
  threadCacheSize : Nat
  limitSize : Bool
  threadList : List Addr
  maxThreadList : Nat
  ring : List Nat
  freed : List Nat

structure State (κ τ : Type) where
  ocaches : κ → OCache
  threads : τ → Option (LocalCaches κ)
  blocks : Nat

inductive Fault where
  | assertion
  /-- `realloc` of an address that is not the start of a block. -/
  | invalidPointer
  | outOfBounds
  deriving DecidableEq, Repr

section

variable [DecidableEq τ]

def State.setTable (s : State κ τ) (t : τ) (lcs : LocalCaches κ) : State κ τ :=
  { s with threads := update s.threads t (some lcs) }

@[simp] theorem setTable_threads (s : State κ τ) (t : τ) (lcs : LocalCaches κ) :
    (s.setTable t lcs).threads = update s.threads t (some lcs) := rfl

@[simp] theorem setTable_ocaches (s : State κ τ) (t : τ) (lcs : LocalCaches κ) :
    (s.setTable t lcs).ocaches = s.ocaches := rfl

@[simp] theorem setTable_blocks (s : State κ τ) (t : τ) (lcs : LocalCaches κ) :
    (s.setTable t lcs).blocks = s.blocks := rfl

end

section

variable [DecidableEq κ]

def State.setCache (s : State κ τ) (oc : κ) (c : OCache) : State κ τ :=
  { s with ocaches := update s.ocaches oc c }

@[simp] theorem setCache_threads (s : State κ τ) (oc : κ) (c : OCache) :
    (s.setCache oc c).threads = s.threads := rfl

@[simp] theorem setCache_ocaches (s : State κ τ) (oc : κ) (c : OCache) :
    (s.setCache oc c).ocaches = update s.ocaches oc c := rfl

@[simp] theorem setCache_blocks (s : State κ τ) (oc : κ) (c : OCache) :
    (s.setCache oc c).blocks = s.blocks := rfl

end

def State.init (threadCacheSize : κ → Nat) (limitSize : κ → Bool) : State κ τ where
  ocaches oc := ⟨threadCacheSize oc, limitSize oc, [], 0x10, [], []⟩
  threads _ := none
  blocks := 0

variable [DecidableEq κ] [DecidableEq τ]

section

variable (s : State κ τ)

def getLocalCaches (t : τ) : LocalCaches κ × State κ τ :=
  match s.threads t with
  | some lcs => (lcs, s)
  | none =>
    let lcs := ⟨⟨s.blocks, 0⟩, 0x10, []⟩
    (lcs, { s.setTable t lcs with blocks := s.blocks + 1 })

def registerThread (oc : κ) (lc : Addr) : Except Fault (State κ τ) :=
  let c := s.ocaches oc
  let maxThreadList :=
    if c.threadList.length = c.maxThreadList then c.maxThreadList + 0x10 else c.maxThreadList
  if c.threadList.length < maxThreadList then
    .ok (s.setCache oc
      { c with threadList := c.threadList ++ [lc], maxThreadList := maxThreadList })
  else .error .outOfBounds

def realloc (p : Addr) : Except Fault (Addr × State κ τ) :=
  if p.index ≠ 0 then .error .invalidPointer
  else .ok (⟨s.blocks, 0⟩, { s with blocks := s.blocks + 1 })

def resizeMemoryCaches (lcs : LocalCaches κ) : Except Fault (LocalCaches κ × State κ τ) :=
  if lcs.memCachesTotal > 0 then do
    let (memCaches, s) ← realloc s (lcs.memCaches.advance 0x10)
    return ({ lcs with memCaches := memCaches }, s)
  else .error .assertion

def growIfFull (lcs : LocalCaches κ) : Except Fault (LocalCaches κ × State κ τ) :=
  if lcs.records.length = lcs.memCachesTotal then resizeMemoryCaches s lcs else .ok (lcs, s)

def createCache (t : τ) (oc : κ) (lcs : LocalCaches κ) : Except Fault (Nat × State κ τ) := do
  let (lcs, s) ← growIfFull s lcs
  let lc := ⟨oc, (s.ocaches oc).threadCacheSize, [], false⟩
  let s ← registerThread s oc (lcs.addr lcs.records.length)
  return (lcs.records.length, s.setTable t { lcs with records := lcs.records ++ [lc] })

def findCache (t : τ) (oc : κ) : Except Fault (Option Nat × State κ τ) :=
  let (lcs, s) := getLocalCaches s t
  if (s.ocaches oc).threadCacheSize = 0 then .ok (none, s)
  else match lcs.records.findIdx? (·.oc = oc) with
    | some i =>
      if (lcs.records[i]?.any (·.invalid)) then .error .assertion else .ok (some i, s)
    | none => do
      let (i, s) ← createCache s t oc lcs
      return (some i, s)

end

section

def OCache.giveBack (c : OCache) (cached : List Nat) : OCache :=
  if c.limitSize then { c with ring := c.ring ++ cached } else { c with freed := c.freed ++ cached }

/-- A record whose address is not in the list is left as it is. -/
def unregisterThread (s : State κ τ) (t : τ) (i : Nat) : Except Fault (State κ τ) :=
  match s.threads t with
  | none => .error .outOfBounds
  | some lcs =>
    match lcs.records[i]? with
    | none => .error .outOfBounds
    | some lc =>
      let c := s.ocaches lc.oc
      match c.threadList.idxOf? (lcs.addr i) with
      | none => .ok s
      | some j =>
        let c := { c with threadList := swapRemove c.threadList j }
        let records := lcs.records.set i { lc with invalid := true }
        .ok ((s.setCache lc.oc (c.giveBack lc.cached)).setTable t
          { lcs with records := records })

def removeRecord (s : State κ τ) (t : τ) (i : Nat) : Except Fault (State κ τ) :=
  match s.threads t with
  | none => .error .outOfBounds
  | some lcs => .ok (s.setTable t { lcs with records := swapRemove lcs.records i })

def ocacheUnregisterThread (s : State κ τ) (t : τ) (oc : κ) : Except Fault (State κ τ) := do
  let (lc, s) ← findCache s t oc
  match lc with
  | none => return s
  | some i => do
    let s ← unregisterThread s t i
    removeRecord s t i

def destroyMemoryCaches (s : State κ τ) (t : τ) : Except Fault (State κ τ) :=
  match s.threads t with
  | none => .ok s
  | some lcs => do
    let s ← (List.range lcs.records.length).foldlM (fun s a => unregisterThread s t a) s
    return { s with threads := update s.threads t none }

end

section

def LocalCaches.leave (lcs : LocalCaches κ) (i : Nat) (left : List Nat) : LocalCaches κ :=
  { lcs with records := lcs.records.modify i fun lc => { lc with cached := left } }

def leaveIn (s : State κ τ) (t : τ) (i : Nat) (left : List Nat) : Except Fault (State κ τ) :=
  match s.threads t with
  | none => .error .outOfBounds
  | some lcs => .ok (s.setTable t (lcs.leave i left))

/-- The thread's record is found or made, and the call leaves `left` in it. -/
def useCache (s : State κ τ) (t : τ) (oc : κ) (left : List Nat) : Except Fault (State κ τ) := do
  let (lc, s) ← findCache s t oc
  match lc with
  | none => return s
  | some i => leaveIn s t i left

end

inductive Event (κ τ : Type) where
  | use (t : τ) (oc : κ) (left : List Nat)
  | unregister (t : τ) (oc : κ)
  | exit (t : τ)

def perform (s : State κ τ) : Event κ τ → Except Fault (State κ τ)
  | .use t oc left => useCache s t oc left
  | .unregister t oc => ocacheUnregisterThread s t oc
  | .exit t => destroyMemoryCaches s t

end Libtrace.CacheRegistry
