import Libtrace.Exec
import Libtrace.Result
import Libtrace.DataVector
import Mathlib.Data.List.FinRange

/-! `combiner_sorted.c`: one vector per per-packet thread, appended to the first one and sorted by
`read_final`. There are `n + 1` threads, as `init_combiner` asserts. -/

namespace Libtrace.CombinerSorted
open Exec DataVector Function

inductive Fault where
  | elementSize
  | getFailed
  deriving DecidableEq, Repr

structure World (n : Nat) where
  queues : Fin (n + 1) → LibtraceVector Result
  sent : List Result

abbrev Reader (n : Nat) := Prog Fault (World n)

def sizeofResult : Nat := 24

def initCombiner {n : Nat} (memory : Fin (n + 1) → Nat → Result) : World n :=
  ⟨fun i => vectorInit (memory i) sizeofResult, []⟩

def publish {n : Nat} (w : World n) (p : Fin (n + 1) × Result) : World n :=
  { w with queues := update w.queues p.1 (vectorPushBack (w.queues p.1) p.2) }

inductive Call (n : Nat) where
  | publish (p : Fin (n + 1) × Result)
  | read

def runCall {n : Nat} (w : World n) : Call n → World n
  | .publish p => publish w p
  | .read => w

def compareResult (r₁ r₂ : Result) : Int :=
  if r₁.key < r₂.key then -1 else if r₁.key = r₂.key then 0 else 1

def appendQueue {n : Nat} (i : Fin n) : Reader n Unit := do
  let w ← get
  match vectorAppend (w.queues 0) (w.queues i.succ) with
  | none => throw .elementSize
  | some (dest, src) =>
    modify fun w =>
      { w with queues := update (update w.queues 0 dest) i.succ src }

def sendResult {n : Nat} (a : Nat) : Reader n Unit := do
  match vectorGet ((← get).queues 0) a with
  | none => throw .getFailed
  | some r =>
    if r.type = .tickInterval ∨ r.type = .tickCount then return ()
    else modify fun w => { w with sent := w.sent ++ [r] }

def readFinal {n : Nat} (q : Qsort compareResult) : Reader n Unit := do
  (List.finRange n).foldlM (fun _ i => appendQueue i) ()
  modify fun w => { w with queues := update w.queues 0 (vectorQsort q (w.queues 0)) }
  (List.range ((← get).queues 0).size).foldlM (fun _ a => sendResult a) ()
  modify fun w => { w with queues := update w.queues 0 (vectorEmpty (w.queues 0)) }

def Call.results {n : Nat} : Call n → List (Fin (n + 1) × Result)
  | .publish p => [p]
  | .read => []

def published {n : Nat} (calls : List (Call n)) : List (Fin (n + 1) × Result) :=
  calls.flatMap Call.results

def gathered {n : Nat} (calls : List (Call n)) : List Result :=
  (List.finRange (n + 1)).flatMap fun i => resultsOf i (published calls)

/-- Whatever the memory holds and whichever `qsort` is used, `read_final` sends the published
results that are not ticks, by nondecreasing key, and empties the queues. -/
def Delivers {n : Nat} (calls : List (Call n)) : Prop :=
  ∀ (memory : Fin (n + 1) → Nat → Result) (q : Qsort compareResult),
    ∃ w, readFinal q (calls.foldl runCall (initCombiner memory)) = .ok ((), w) ∧
      w.sent.Perm (nonTicks ((published calls).map Prod.snd)) ∧
      (w.sent.map Result.key).Pairwise (· ≤ ·) ∧ ∀ i, (w.queues i).size = 0

def Untouched (junk : Result → Prop) (v : LibtraceVector Result) : Prop :=
  ∀ k, v.size ≤ k → junk (v.elements k)

variable {n : Nat} {junk : Result → Prop} {streams : Fin (n + 1) → List Result} {w : World n}
  {E : Fault → Prop}

theorem publish_toList (w : World n) (p : Fin (n + 1) × Result) (i : Fin (n + 1)) :
    ((publish w p).queues i).toList = (w.queues i).toList ++ resultsOf i [p] := by
  obtain ⟨j, r⟩ := p
  by_cases hi : i = j
  · subst hi
    simp [publish, resultsOf_single]
  · simp [publish, resultsOf_single, hi, Ne.symm hi]

structure Filled {n : Nat} (junk : Result → Prop) (streams : Fin (n + 1) → List Result)
    (w : World n) : Prop where
  toList : ∀ i, (w.queues i).toList = streams i
  elementSize : ∀ i, (w.queues i).elementSize = sizeofResult
  untouched : ∀ i, Untouched junk (w.queues i)
  sent : w.sent = []

theorem publish_filled (h : Filled junk streams w) (p : Fin (n + 1) × Result) :
    Filled junk (fun i => streams i ++ resultsOf i [p]) (publish w p) := by
  refine ⟨fun i => by rw [publish_toList, h.toList], fun i => ?_, fun i k hk => ?_, h.sent⟩ <;>
    by_cases hi : i = p.1
  · simpa [publish, hi, vectorPushBack] using h.elementSize p.1
  · simpa [publish, hi] using h.elementSize i
  · simp only [publish, hi, update_self, vectorPushBack] at hk ⊢
    rw [update_of_ne (by omega)]
    exact h.untouched p.1 k (by omega)
  · simp only [publish, update_of_ne hi] at hk ⊢
    exact h.untouched i k hk

theorem runCalls_filled {memory : Fin (n + 1) → Nat → Result} (hmem : ∀ i k, junk (memory i k))
    (calls : List (Call n)) :
    Filled junk (fun i => resultsOf i (published calls))
      (calls.foldl runCall (initCombiner memory)) := by
  suffices general : ∀ calls streams w, Filled junk streams w →
      Filled junk (fun i => streams i ++ resultsOf i (published calls)) (calls.foldl runCall w) by
    simpa using general calls (fun _ => []) (initCombiner memory)
      ⟨fun _ => rfl, fun _ => rfl, fun i k _ => hmem i k, rfl⟩
  intro calls
  induction calls with
  | nil =>
    intro streams w h
    simpa [published] using h
  | cons c calls ih =>
    intro streams w h
    cases c with
    | publish p =>
      have hp : ∀ i, resultsOf i (published (.publish p :: calls)) =
          resultsOf i [p] ++ resultsOf i (published calls) := fun i => resultsOf_cons i p _
      simp only [hp, ← List.append_assoc]
      exact ih _ _ (publish_filled h p)
    | read => exact ih streams w h

structure Gathering {n : Nat} (junk : Result → Prop) (streams : Fin (n + 1) → List Result)
    (done : List (Fin n)) (w : World n) : Prop where
  front : (w.queues 0).toList = streams 0 ++ done.flatMap fun i => streams i.succ
  ahead : ∀ i, i ∉ done → (w.queues i.succ).toList = streams i.succ
  empty : ∀ i ∈ done, (w.queues i.succ).size = 0
  elementSize : ∀ i, (w.queues i).elementSize = sizeofResult
  untouched : Untouched junk (w.queues 0)
  ready : ∀ i, i ∉ done → Untouched junk (w.queues i.succ)
  sent : w.sent = []

theorem vectorAppend_untouched {dest src dest' src' : LibtraceVector Result}
    (h : vectorAppend dest src = some (dest', src')) (hdest : Untouched junk dest)
    (hsrc : Untouched junk src) : Untouched junk dest' := by
  unfold vectorAppend at h
  split_ifs at h with hsize hs hd <;> obtain ⟨rfl, rfl⟩ := Prod.mk.inj (Option.some.inj h)
  · exact hdest
  · exact hsrc
  · intro k hk
    simp only [vectorMove] at hk ⊢
    rw [if_neg (by omega)]
    exact hdest k (by omega)

theorem appendQueue_spec {done : List (Fin n)} {i : Fin n} (h : Gathering junk streams done w)
    (hi : i ∉ done) :
    Spec (appendQueue i) w (fun _ w' => Gathering junk streams (done ++ [i]) w') E := by
  obtain ⟨dest, src, happ, hdest, hsrc, hsize, hsize'⟩ :=
    vectorAppend_spec (w.queues 0) (w.queues i.succ) (by rw [h.elementSize, h.elementSize])
  refine spec_bind (spec_get ?_)
  rw [happ]
  refine spec_modify ?_
  set queues := update (update w.queues 0 dest) i.succ src with hqueues
  have hfront : queues 0 = dest := by
    rw [hqueues, update_of_ne (Fin.succ_ne_zero i).symm, update_self]
  have hself : queues i.succ = src := by rw [hqueues, update_self]
  have hother : ∀ j, j ≠ i → queues j.succ = w.queues j.succ := by
    intro j hj
    rw [hqueues, update_of_ne (fun he => hj (Fin.succ_injective n he)),
      update_of_ne (Fin.succ_ne_zero j)]
  have fresh : ∀ j, j ∉ done ++ [i] → j ∉ done ∧ j ≠ i := fun j hj => by simpa using hj
  refine ⟨?_, fun j hj => ?_, fun j hj => ?_, fun j => ?_, ?_, fun j hj => ?_, h.sent⟩
  · simp only [hfront, hdest, h.front, h.ahead i hi]
    simp
  · simp only [hother j (fresh j hj).2]
    exact h.ahead j (fresh j hj).1
  · by_cases hji : j = i
    · simp only [hji, hself]
      exact hsrc
    · simp only [hother j hji]
      exact h.empty j (by simpa [hji] using hj)
  · cases j using Fin.cases with
    | zero => simpa only [hfront, hsize] using h.elementSize 0
    | succ j =>
      by_cases hji : j = i
      · simpa only [hji, hself, hsize'] using h.elementSize i.succ
      · simpa only [hother j hji] using h.elementSize j.succ
  · simp only [hfront]
    exact vectorAppend_untouched happ h.untouched (h.ready i hi)
  · simp only [hother j (fresh j hj).2]
    exact h.ready j (fresh j hj).1

theorem gather_spec (h : Filled junk streams w) :
    Spec ((List.finRange n).foldlM (fun _ i => appendQueue i) ()) w
      (fun _ w' => Gathering junk streams (List.finRange n) w') E := by
  refine spec_foldlM (fun done _ w' => Gathering junk streams done w') _ ?_ _ _
    ⟨by simpa using h.toList 0, fun i _ => h.toList i.succ, by simp, h.elementSize,
      h.untouched 0, fun i _ => h.untouched i.succ, h.sent⟩
  rintro done i rest - w' hxs hw
  refine appendQueue_spec hw fun hi => ?_
  have hnodup := List.nodup_finRange n
  rw [hxs] at hnodup
  exact (List.nodup_append.mp hnodup).2.2 i hi i List.mem_cons_self rfl

theorem send_spec (hsent : w.sent = []) :
    Spec ((List.range (w.queues 0).size).foldlM (fun _ a => sendResult a) ()) w
      (fun _ w' => w' = { w with sent := nonTicks (w.queues 0).toList }) E := by
  have hloop := spec_foldlM (E := E) (f := fun (_ : Unit) a => sendResult (n := n) a)
    (fun done _ w' => w' = { w with sent := nonTicks (done.map (w.queues 0).elements) })
    (List.range (w.queues 0).size) ?_ () w (by rw [List.map_nil, nonTicks_nil, ← hsent])
  · exact hloop
  rintro done a rest - w' hxs rfl
  have ha : a < (w.queues 0).size := by
    rw [← List.mem_range, hxs]
    simp
  refine spec_bind (spec_get ?_)
  simp only [vectorGet_of_lt ha]
  by_cases ht : ((w.queues 0).elements a).type = .tickInterval ∨
      ((w.queues 0).elements a).type = .tickCount
  · have htick : ((w.queues 0).elements a).isTick = true := by simpa [Result.isTick] using ht
    rw [if_pos ht]
    exact spec_pure (by simp [nonTicks_cons_tick htick])
  · have hres : ((w.queues 0).elements a).isTick = false := by
      simpa [Result.isTick, not_or] using ht
    rw [if_neg ht]
    exact spec_modify (by simp [nonTicks_cons_result hres])

theorem readFinal_sent (junk : Result → Prop) {memory : Fin (n + 1) → Nat → Result}
    (hmem : ∀ i k, junk (memory i k)) (q : Qsort compareResult) (calls : List (Call n)) :
    ∃ base w, readFinal q (calls.foldl runCall (initCombiner memory)) = .ok ((), w) ∧
      (∀ i, (w.queues i).size = 0) ∧
      (List.range (gathered calls).length).map base = gathered calls ∧
      (∀ k, (gathered calls).length ≤ k → junk (base k)) ∧
      w.sent = nonTicks ((List.range (gathered calls).length).map (q.run sizeofResult base)) := by
  have hspec : Spec (readFinal q) (calls.foldl runCall (initCombiner memory)) (fun _ w =>
      ∃ base, (∀ i, (w.queues i).size = 0) ∧
      (List.range (gathered calls).length).map base = gathered calls ∧
      (∀ k, (gathered calls).length ≤ k → junk (base k)) ∧
      w.sent = nonTicks ((List.range (gathered calls).length).map (q.run sizeofResult base)))
      (fun _ => False) := by
    refine spec_seq (gather_spec (runCalls_filled hmem calls)) ?_
    rintro - w h
    have hfront : (w.queues 0).toList = gathered calls := by
      rw [h.front, gathered, List.finRange_succ, List.flatMap_cons, List.flatMap_map]
    have hlen : (w.queues 0).size = (gathered calls).length := by rw [← hfront, toList_length]
    refine spec_bind (spec_modify ?_)
    refine spec_bind (spec_get ?_)
    refine spec_seq (send_spec h.sent) ?_
    rintro - w' rfl
    refine spec_modify ⟨(w.queues 0).elements, fun i => ?_, ?_, fun k hk => ?_, ?_⟩
    · cases i using Fin.cases with
      | zero => simp [vectorEmpty]
      | succ i => simpa using h.empty i (List.mem_finRange i)
    · rw [← hlen]
      exact hfront
    · exact h.untouched k (hlen ▸ hk)
    · simp only [update_self, LibtraceVector.toList, LibtraceVector.slots, vectorQsort,
        h.elementSize 0, hlen]
  obtain ⟨⟨⟩, w, hrun, base, h⟩ := spec_total hspec
  exact ⟨base, w, hrun, h⟩

end Libtrace.CombinerSorted
