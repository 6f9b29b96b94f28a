import Libtrace.Exec
import Libtrace.MinScan
import Libtrace.Result
import Mathlib.Algebra.BigOperators.Fin

/-! `combiner_ordered.c`: one deque per per-packet thread, merged by key into the reporter, the only
thread that pops. A publish is one locked `push_back`, so an interleaving is fixed by which
publishes land before each deque operation of the reader: `arriving` holds them, one batch for every
operation to come. Here `read` may be called at any time. -/

namespace Libtrace.CombinerOrdered
open Exec Function

/-- An `ASSERT_RET` on an empty `pop_front`, the index `queues[-1]`, or the result that an unchecked
`peek_front` left unset. -/
inductive Fault where
  | popEmpty
  | queueIndex
  | unsetResult
  | outOfFuel
  deriving DecidableEq, Repr

structure World (n : Nat) where
  queues : Fin n → List Result
  lastCountTick : UInt64
  lastTsTick : UInt64
  sent : List (Fin n × Result)
  arriving : List (List (Fin n × Result))

abbrev Reader (n : Nat) := Prog Fault (World n)

def initCombiner (n : Nat) : World n := ⟨fun _ => [], 0, 0, [], []⟩

variable {n : Nat}

def publish (w : World n) (p : Fin n × Result) : World n :=
  { w with queues := update w.queues p.1 (w.queues p.1 ++ [p.2]) }

def World.land (w : World n) : World n :=
  match w.arriving with
  | [] => w
  | batch :: rest => { batch.foldl publish w with arriving := rest }

def World.landAll (w : World n) : World n :=
  { w.arriving.flatten.foldl publish w with arriving := [] }

def World.pop (w : World n) (i : Fin n) : World n :=
  { w with queues := update w.queues i (w.queues i).tail }

def World.send (w : World n) (i : Fin n) (r : Result) : World n :=
  { w with sent := w.sent ++ [(i, r)] }

def World.mark (w : World n) (r : Result) : World n :=
  if r.type = .tickInterval then { w with lastTsTick := r.key }
  else { w with lastCountTick := r.key }

def World.toCome (w : World n) (i : Fin n) : List Result :=
  w.queues i ++ resultsOf i w.arriving.flatten

/-- Everything in a queue or still to land; it bounds the loops of the reader. -/
def World.work (w : World n) : Nat := ∑ i, (w.toCome i).length

variable {w : World n} {i : Fin n} {r : Result} {q : List Result}

theorem publish_queues (w : World n) (p : Fin n × Result) (i : Fin n) :
    (publish w p).queues i = w.queues i ++ resultsOf i [p] := by
  obtain ⟨j, r⟩ := p
  by_cases h : j = i
  · subst h
    simp [publish, resultsOf]
  · simp [publish, resultsOf, h, update_of_ne (Ne.symm h)]

theorem foldl_publish (ps : List (Fin n × Result)) (w : World n) :
    ps.foldl publish w = { w with queues := fun i => w.queues i ++ resultsOf i ps } := by
  induction ps generalizing w with
  | nil => simp
  | cons p ps ih =>
    rw [List.foldl_cons, ih]
    have step : ∀ i, resultsOf i (p :: ps) = resultsOf i [p] ++ resultsOf i ps := fun i =>
      resultsOf_cons i p ps
    simp only [publish_queues, step, List.append_assoc]
    rfl

theorem land_eq (w : World n) :
    w.land = { w with
      queues := fun i => w.queues i ++ resultsOf i (w.arriving.head?.getD [])
      arriving := w.arriving.tail } := by
  obtain ⟨queues, count, ts, sent, arriving⟩ := w
  cases arriving with
  | nil => simp [World.land]
  | cons batch rest => simp [World.land, foldl_publish]

@[simp] theorem land_sent (w : World n) : w.land.sent = w.sent := by rw [land_eq]

@[simp] theorem land_lastCountTick (w : World n) :
    w.land.lastCountTick = w.lastCountTick := by rw [land_eq]

@[simp] theorem land_lastTsTick (w : World n) :
    w.land.lastTsTick = w.lastTsTick := by rw [land_eq]

theorem land_queues_cons (h : w.queues i = r :: q) : ∃ q', w.land.queues i = r :: q' := by
  rw [land_eq]
  exact ⟨q ++ resultsOf i (w.arriving.head?.getD []), by simp [h]⟩

@[simp] theorem land_toCome (w : World n) (i : Fin n) :
    w.land.toCome i = w.toCome i := by
  rw [land_eq]
  obtain ⟨queues, count, ts, sent, arriving⟩ := w
  cases arriving with
  | nil => simp [World.toCome]
  | cons batch rest => simp [World.toCome]

theorem land_arriving_nil (h : w.arriving = []) : w.land = w := by
  simp [World.land, h]

theorem landAll_eq (w : World n) : w.landAll = { w with queues := w.toCome, arriving := [] } := by
  rw [World.landAll, foldl_publish]
  rfl

theorem pop_queues (h : w.queues i = r :: q) (j : Fin n) :
    (w.pop i).queues j = if j = i then q else w.queues j := by
  by_cases hj : j = i
  · subst hj
    simp [World.pop, h]
  · simp [World.pop, hj]

theorem pop_toCome (h : w.queues i = r :: q) : w.toCome i = r :: (w.pop i).toCome i := by
  simp [World.toCome, h, World.pop]

theorem pop_toCome_ne (w : World n) {j : Fin n} (h : j ≠ i) : (w.pop i).toCome j = w.toCome j := by
  simp [World.toCome, World.pop, h]

@[simp] theorem mark_queues (w : World n) (r : Result) :
    (w.mark r).queues = w.queues := by
  unfold World.mark
  split <;> rfl

@[simp] theorem mark_arriving (w : World n) (r : Result) :
    (w.mark r).arriving = w.arriving := by
  unfold World.mark
  split <;> rfl

@[simp] theorem mark_sent (w : World n) (r : Result) :
    (w.mark r).sent = w.sent := by
  unfold World.mark
  split <;> rfl

@[simp] theorem mark_toCome (w : World n) (r : Result) (i : Fin n) :
    (w.mark r).toCome i = w.toCome i := by
  simp [World.toCome]

theorem mark_land (w : World n) (r : Result) : (w.mark r).land = w.land.mark r := by
  rw [land_eq, land_eq]
  unfold World.mark
  split <;> rfl

@[simp] theorem send_toCome (w : World n) (i j : Fin n) (r : Result) :
    (w.send i r).toCome j = w.toCome j := rfl

@[simp] theorem land_work (w : World n) : w.land.work = w.work := by
  simp [World.work]

@[simp] theorem mark_work (w : World n) (r : Result) : (w.mark r).work = w.work := by
  simp [World.work]

@[simp] theorem send_work (w : World n) (i : Fin n) (r : Result) :
    (w.send i r).work = w.work := rfl

theorem pop_work (h : w.queues i = r :: q) : w.work = (w.pop i).work + 1 := by
  unfold World.work
  rw [← Finset.add_sum_erase _ _ (Finset.mem_univ i),
    ← Finset.add_sum_erase Finset.univ (fun j => ((w.pop i).toCome j).length) (Finset.mem_univ i),
    pop_toCome h]
  have rest : ∀ j ∈ Finset.univ.erase i,
      (w.toCome j).length = ((w.pop i).toCome j).length := by
    intro j hj
    rw [pop_toCome_ne w (Finset.ne_of_mem_erase hj)]
  rw [Finset.sum_congr rfl rest, List.length_cons]
  omega

def dequeGetSize (i : Fin n) : Reader n Nat := do
  modify World.land
  return ((← get).queues i).length

def dequePeekFront (i : Fin n) : Reader n (Option Result) := do
  modify World.land
  return ((← get).queues i).head?

def dequePopFront (i : Fin n) : Reader n Result := do
  modify World.land
  match ((← get).queues i).head? with
  | none => throw .popEmpty
  | some r =>
    modify fun w => w.pop i
    return r

def sendMessage (i : Fin n) (r : Result) : Reader n Unit :=
  modify fun w => w.send i r

variable (parallel : Bool)

/-- `peek_queue` once `peeked` points at a result: `none` is its return value 0, `some key` is 1
with `*key` set. -/
def peekResult {n : Nat} (i : Fin n) (r : Result) : Reader n (Option UInt64) := do
  if r.type = .tickInterval then
    if r.key > (← get).lastTsTick then
      modify fun w => { w with lastTsTick := r.key }
      let r ← dequePopFront i
      sendMessage i r
      return none
    else
      let _ ← dequePopFront i
      return none
  else if r.type = .tickCount then
    if r.key > (← get).lastCountTick then
      modify fun w => { w with lastCountTick := r.key }
      if parallel then
        let r ← dequePopFront i
        sendMessage i r
        return none
      else
        return some r.key
    else
      let _ ← dequePopFront i
      return none
  else
    return some r.key

/-- Called with `NULL` it peeks itself and does not check what `peek_front` returns. -/
def peekQueue {n : Nat} (i : Fin n) (peeked : Option Result) : Reader n (Option UInt64) := do
  match peeked with
  | some r => peekResult parallel i r
  | none =>
    match ← dequePeekFront i with
    | some r => peekResult parallel i r
    | none => throw .unsetResult

def nextMessage {n : Nat} (parallel : Bool) (i : Fin n) : Nat → Reader n UInt64
  | 0 => throw .outOfFuel
  | fuel + 1 => do
    match ← dequePeekFront i with
    | none => return 0
    | some r =>
      match ← peekQueue parallel i (some r) with
      | none => nextMessage parallel i fuel
      | some key => return key

/-- The local variables of `read_internal`; `minQueue = none` is its `-1`. -/
structure Scan (n : Nat) where
  live : Fin n → Bool
  key : Fin n → UInt64
  liveCount : Int
  allActive : Bool
  minKey : UInt64
  minQueue : Option (Fin n)

def Scan.start (n : Nat) : Scan n := ⟨fun _ => false, fun _ => 0, 0, true, uint64Max, none⟩

def Scan.hit {n : Nat} (s : Scan n) (i : Fin n) (peeked : UInt64) : Scan n :=
  let s := { s with
    liveCount := s.liveCount + 1
    live := update s.live i true
    key := update s.key i peeked }
  if i.val = 0 ∨ s.minKey > peeked then { s with minKey := peeked, minQueue := some i } else s

def Scan.miss {n : Nat} (s : Scan n) (i : Fin n) : Scan n :=
  { s with
    allActive := false
    live := update s.live i false
    key := update s.key i 0 }

def scanQueue {n : Nat} (s : Scan n) (i : Fin n) : Reader n (Scan n) := do
  if (← dequeGetSize i) ≠ 0 then
    match ← peekQueue parallel i none with
    | some peeked => return s.hit i peeked
    | none => return s.miss i
  else
    return s.miss i

def Scan.rescan {n : Nat} (s : Scan n) : Scan n :=
  let best := MinScan.lastMin s.live s.key (s.minKey, s.minQueue) (List.finRange n)
  { s with minKey := best.1, minQueue := best.2 }

def Scan.advance {n : Nat} (s : Scan n) (m : Fin n) (peeked : UInt64) : Scan n :=
  if peeked ≠ 0 then
    let s' := { s with key := update s.key m peeked, minKey := peeked }
    if peeked ≤ s.minKey then s' else s'.rescan
  else
    Scan.rescan { s with
      allActive := false
      live := update s.live m false
      key := update s.key m 0
      liveCount := s.liveCount - 1
      minKey := uint64Max
      minQueue := none }

def Scan.more {n : Nat} (s : Scan n) (final : Bool) : Bool :=
  s.allActive || (s.liveCount ≠ 0 && final)

def drain {n : Nat} (parallel final : Bool) : Nat → Scan n → Reader n (Scan n)
  | 0, _ => throw .outOfFuel
  | fuel + 1, s => do
    if s.more final then
      match s.minQueue with
      | none => throw .queueIndex
      | some m =>
        let r ← dequePopFront m
        sendMessage m r
        let peeked ← nextMessage parallel m (fuel + 1)
        drain parallel final fuel (s.advance m peeked)
    else
      return s

def firstScan {n : Nat} : Reader n (Scan n) :=
  (List.finRange n).foldlM (scanQueue parallel) (Scan.start n)

def readInternal {n : Nat} (parallel final : Bool) : Reader n (Scan n) := do
  let s ← firstScan parallel
  drain parallel final ((← get).work + 1) s

def countEmpty {n : Nat} : Reader n Nat :=
  (List.finRange n).foldlM (fun empty i => do
    if (← dequeGetSize i) = 0 then return empty + 1 else return empty) 0

def readFinalLoop {n : Nat} (parallel : Bool) : Nat → Reader n Unit
  | 0 => throw .outOfFuel
  | fuel + 1 => do
    let _ ← readInternal parallel true
    let empty ← countEmpty
    if empty < n then readFinalLoop parallel fuel else return ()

def readFinal {n : Nat} : Reader n Unit := do
  readFinalLoop parallel ((← get).work + 1)

/-- What happens before `read_final`: publishes, and reads with the publishes between their deque
operations. -/
inductive Call (n : Nat) where
  | publish (p : Fin n × Result)
  | read (arriving : List (List (Fin n × Result)))

def Call.results {n : Nat} : Call n → List (Fin n × Result)
  | .publish p => [p]
  | .read arriving => arriving.flatten

def streamOf {n : Nat} (calls : List (Call n)) (i : Fin n) : List Result :=
  resultsOf i (calls.flatMap Call.results)

/-- Publishes that `arriving` holds beyond its last deque operation land after it. -/
def read {n : Nat} (arriving : List (List (Fin n × Result))) : Reader n (Scan n) := do
  modify fun w => { w with arriving := arriving }
  let s ← readInternal parallel false
  modify World.landAll
  return s

def runCall {n : Nat} : Call n → Reader n Unit
  | .publish p => modify fun w => publish w p
  | .read arriving => do
    let _ ← read parallel arriving
    return ()

def runCalls {n : Nat} (parallel : Bool) : List (Call n) → Reader n Unit
  | [] => return ()
  | c :: cs => do
    runCall parallel c
    runCalls parallel cs

def run {n : Nat} (calls : List (Call n)) : Reader n Unit := do
  runCalls parallel calls
  readFinal parallel

end Libtrace.CombinerOrdered
