import Libtrace.OrderedTickRuns

/-! `combiner_unordered.c`: `read` empties the deques one after the other, and `read_final` is
another `read`. Publishes land before each deque operation. -/

namespace Libtrace.CombinerUnordered
open Exec CombinerOrdered OrderedMerge OrderedRefinement OrderedRuns HighWater OrderedTicks
open OrderedTickRuns

/-- What `read` does with a result that it took off deque `i`; ticks seen before are ignored. -/
def deliver {n : Nat} (i : Fin n) (r : Result) (w : World n) : World n :=
  if r.type = .tickInterval then
    if r.key ≤ w.lastTsTick then w else { w with lastTsTick := r.key }.send i r
  else if r.type = .tickCount then
    if r.key ≤ w.lastCountTick then w else { w with lastCountTick := r.key }.send i r
  else w.send i r

def drainQueue {n : Nat} (i : Fin n) : Nat → Reader n Unit
  | 0 => throw .outOfFuel
  | fuel + 1 => do
    if (← dequeGetSize i) ≠ 0 then
      let r ← dequePopFront i
      modify (deliver i r)
      drainQueue i fuel
    else
      return ()

def readQueues {n : Nat} : Reader n Unit :=
  (List.finRange n).foldlM (fun _ i => do drainQueue i ((← get).work + 1)) ()

def runCalls {n : Nat} : List (Call n) → Reader n Unit
  | [] => return ()
  | .publish p :: cs => do
    modify fun w => publish w p
    runCalls cs
  | .read arriving :: cs => do
    modify fun w => { w with arriving := arriving }
    readQueues
    modify World.landAll
    runCalls cs

def run {n : Nat} (calls : List (Call n)) : Reader n Unit := do
  runCalls calls
  readQueues

/-- Each thread's results reach the reporter once and in order, and so does each tick that all
threads publish. Nothing is left for `destroy` to find. -/
structure Delivered {n : Nat} (calls : List (Call n)) (w : World n) : Prop where
  drained : ∀ i, w.queues i = []
  results : ∀ i, nonTicks (resultsOf i w.sent) = nonTicks (streamOf calls i)
  ticks : ∀ kind ts, ts.Pairwise (· < ·) → (∀ t ∈ ts, 0 < t) →
    (∀ i, tickKeys kind (streamOf calls i) = ts) → sentTicks kind w = ts

variable {n : Nat} {w w' : World n} {calls cs : List (Call n)} {i : Fin n} {r : Result}
  {q : List Result} {kind : TickKind} {ts : List UInt64}

theorem deliver_cases (i : Fin n) (r : Result) (w : World n) :
    (Stale w r ∧ deliver i r (w.pop i) = w.pop i) ∨
      (Passes true w r ∧ deliver i r (w.pop i) = ((w.mark r).pop i).send i r) ∨
      (r.isTick = false ∧ deliver i r (w.pop i) = (w.pop i).send i r) := by
  by_cases hi : r.type = .tickInterval
  · by_cases hle : r.key ≤ w.lastTsTick
    · exact .inl ⟨.inl ⟨hi, hle⟩, by simp [deliver, World.pop, hi, hle]⟩
    · refine .inr (.inl ⟨.inl ⟨hi, not_le.mp hle⟩, ?_⟩)
      simp [deliver, World.pop, World.mark, hi, hle]
  · by_cases hc : r.type = .tickCount
    · by_cases hle : r.key ≤ w.lastCountTick
      · exact .inl ⟨.inr ⟨hc, hle⟩, by simp [deliver, World.pop, hc, hle]⟩
      · refine .inr (.inl ⟨.inr ⟨hc, not_le.mp hle, rfl⟩, ?_⟩)
        simp [deliver, World.pop, World.mark, hc, hle]
    · exact .inr (.inr ⟨by simp [Result.isTick, hi, hc], by simp [deliver, hi, hc]⟩)

theorem deliver_account (head : w.queues i = r :: q) (j : Fin n) :
    account (deliver i r (w.pop i)) j = account w j := by
  rcases deliver_cases i r w with ⟨hstale, heq⟩ | ⟨-, heq⟩ | ⟨-, heq⟩ <;> rw [heq]
  · exact account_drop head hstale.isTick j
  · have hmark : (w.mark r).queues i = r :: q := by rw [mark_queues, head]
    exact (account_send hmark j).trans (account_mark w r j)
  · exact account_send head j

/-- The ticks of one kind as the keys of a high-water consumer that passes them on at once. -/
def Once (ts : List UInt64) (L : Ledger (Fin n) UInt64) : Prop := Orderly true ts L ∧ Covered ts L

theorem once_step {st : Fin n → Status} (hts : ts.Pairwise (· < ·))
    (h : Once ts (between kind cs w))
    (hm : MayStep true (ledger kind (streamOf cs) (Merge.start w))
      (ledger kind (streamOf cs) ⟨st, w'⟩)) : Once ts (between kind cs w') := by
  obtain ⟨ho, hc⟩ : Once ts (ledger kind (streamOf cs) ⟨st, w'⟩) := by
    rcases hm with heq | hstep
    · rwa [heq]
    · exact ⟨step_orderly hts hstep h.1, step_covered hts hstep h.1 h.2⟩
  refine ⟨release_orderly ho, fun k hk hle => (hc k hk hle).imp_right fun ⟨j, hj⟩ => ?_⟩
  rw [ho.idle rfl j] at hj
  cases hj

theorem once_deliver (hts : ts.Pairwise (· < ·)) (head : w.queues i = r :: q)
    (h : Once ts (between kind cs w)) : Once ts (between kind cs (deliver i r (w.pop i))) := by
  have hopen : ((Merge.start w).status i).Open := .inl rfl
  have hdirect : kind.direct true = true := by simp [TickKind.direct]
  rcases deliver_cases i r w with ⟨hstale, heq⟩ | ⟨hpass, heq⟩ | ⟨hresult, heq⟩ <;> rw [heq]
  · exact once_step hts h (ledger_drop _ hopen head hstale)
  · exact once_step hts h (hdirect ▸ ledger_pass _ hopen head hpass)
  · have hother : r.type ≠ kind.type := result_type_ne hresult
    have hleft : leftTicks kind (streamOf cs) ((w.pop i).send i r) =
        leftTicks kind (streamOf cs) w := leftTicks_pop_other _ head hother
    have hsame : between kind cs ((w.pop i).send i r) = between kind cs w := by
      change Ledger.mk (leftTicks kind (streamOf cs) ((w.pop i).send i r)) _ _ _ = _
      rw [hleft, sentTicks_send_other (w.pop i) i hother]
      cases kind <;> rfl
    rwa [hsame]

structure Kept (calls cs : List (Call n)) (w : World n) : Prop where
  results : ∀ i, nonTicks (resultsOf i w.sent) ++ nonTicks (pending cs w i) =
    nonTicks (streamOf calls i)
  ticks : ∀ kind ts, ts.Pairwise (· < ·) → (∀ t ∈ ts, 0 < t) →
    (∀ i, tickKeys kind (streamOf calls i) = ts) → Once ts (between kind cs w)

theorem kept_of_eq {cs' : List (Call n)} (h : Kept calls cs w) (hp : pending cs' w' = pending cs w)
    (hs : w'.sent = w.sent) (hm : ∀ kind, lastTick kind w' = lastTick kind w) :
    Kept calls cs' w' := by
  refine ⟨fun i => by rw [hp, hs]; exact h.results i, fun kind ts hts hpos hall => ?_⟩
  rw [between_eq hp hs (hm kind)]
  exact h.ticks kind ts hts hpos hall

theorem kept_land (h : Kept calls cs w) : Kept calls cs w.land :=
  kept_of_eq h (by funext i; simp [pending]) (land_sent w) fun kind => by
    cases kind <;> simp [lastTick]

theorem kept_deliver (h : Kept calls cs w) (head : w.queues i = r :: q) :
    Kept calls cs (deliver i r (w.pop i)) := by
  refine ⟨fun j => ?_, fun kind ts hts hpos hall =>
    once_deliver hts head (h.ticks kind ts hts hpos hall)⟩
  have hsame := deliver_account head j
  have hres := h.results j
  simp only [account] at hsame
  simp only [pending, nonTicks_append] at hres ⊢
  rw [← List.append_assoc, hsame, List.append_assoc]
  exact hres

section

variable {E : Fault → Prop}

theorem drainQueue_spec (K : World n → Prop) (land : ∀ w, K w → K w.land)
    (take : ∀ w r q, K w → w.queues i = r :: q → K (deliver i r (w.pop i))) (fuel : Nat)
    (h : K w) (hfuel : w.work < fuel) :
    Spec (drainQueue i fuel) w (fun _ w' => K w' ∧ w'.queues i = []) E := by
  induction fuel generalizing w with
  | zero => omega
  | succ fuel ih =>
    refine spec_bind (dequeGetSize_spec ?_)
    cases hq : w.land.queues i with
    | nil => exact spec_pure ⟨land w h, hq⟩
    | cons r q =>
      obtain ⟨q', hq'⟩ := land_queues_cons hq
      refine spec_bind (dequePopFront_spec hq' ?_)
      refine spec_bind (spec_modify (ih (take _ r q' (land _ (land w h)) hq') ?_))
      have hwork := pop_work hq'
      have hsame : (deliver i r (w.land.land.pop i)).work = (w.land.land.pop i).work := by
        rw [deliver]
        split_ifs <;> rfl
      rw [land_work, land_work] at hwork
      omega

theorem readQueues_spec (K : List (Fin n) → World n → Prop)
    (land : ∀ done w, K done w → K done w.land)
    (take : ∀ done w i r q, K done w → w.queues i = r :: q → K done (deliver i r (w.pop i)))
    (drained : ∀ done w i, K done w → w.queues i = [] → K (done ++ [i]) w) (h : K [] w) :
    Spec readQueues w (fun _ w' => K (List.finRange n) w') E := by
  refine spec_foldlM (fun done _ w => K done w) _ ?_ () w h
  intro done i rest _ w _ hw
  refine spec_bind (spec_get ?_)
  exact spec_mono (drainQueue_spec (K done) (land done) (fun w => take done w i) _ hw
    (Nat.lt_succ_self _)) (fun _ w' h' => drained done w' i h'.1 h'.2) fun _ he => he

theorem runCalls_kept (ha : w.arriving = []) (h : Kept calls cs w) :
    Spec (runCalls cs) w (fun _ w' => w'.arriving = [] ∧ Kept calls [] w') E := by
  induction cs generalizing w with
  | nil => exact spec_pure ⟨ha, h⟩
  | cons c cs ih =>
    cases c with
    | publish p =>
      refine spec_bind (spec_modify (ih ha ?_))
      exact kept_of_eq h (pending_publish ha p cs) rfl fun kind => by cases kind <;> rfl
    | read arriving =>
      refine spec_bind (spec_modify ?_)
      have hstart : Kept calls cs { w with arriving := arriving } :=
        kept_of_eq h (pending_read ha arriving cs) rfl fun kind => by cases kind <;> rfl
      refine spec_seq (readQueues_spec (fun _ => Kept calls cs) (fun _ _ => kept_land)
        (fun _ _ _ _ _ => kept_deliver) (fun _ _ _ hw _ => hw) hstart) fun _ w' hw' => ?_
      refine spec_bind (spec_modify (ih (by rw [landAll_eq]) ?_))
      exact kept_of_eq hw' (pending_landAll w' cs) (by rw [landAll_eq]) fun kind => by
        rw [landAll_eq]
        cases kind <;> rfl

theorem readQueues_final (ha : w.arriving = []) (h : Kept calls [] w) :
    Spec readQueues w
      (fun _ w' => Kept calls [] w' ∧ w'.arriving = [] ∧ ∀ i, w'.queues i = []) E := by
  refine spec_mono (readQueues_spec (fun done w => Kept calls [] w ∧ w.arriving = [] ∧
    ∀ j ∈ done, w.queues j = []) ?_ ?_ ?_ ⟨h, ha, by simp⟩)
    (fun _ w' h' => ⟨h'.1, h'.2.1, fun i => h'.2.2 i (List.mem_finRange i)⟩) fun _ he => he
  · rintro done w ⟨hk, ha, hdone⟩
    rw [land_arriving_nil ha]
    exact ⟨hk, ha, hdone⟩
  · rintro done w i r q ⟨hk, ha, hdone⟩ head
    have hsame : (deliver i r (w.pop i)).arriving = w.arriving ∧
        (deliver i r (w.pop i)).queues = (w.pop i).queues := by
      rw [deliver]
      split_ifs <;> exact ⟨rfl, rfl⟩
    refine ⟨kept_deliver hk head, hsame.1.trans ha, fun j hj => ?_⟩
    rw [hsame.2, pop_queues head, if_neg]
    · exact hdone j hj
    · rintro rfl
      rw [hdone j hj] at head
      cases head
  · rintro done w i ⟨hk, ha, hdone⟩ hi
    refine ⟨hk, ha, fun j hj => ?_⟩
    rcases List.mem_append.mp hj with hold | hnew
    · exact hdone j hold
    · rwa [List.mem_singleton.mp hnew]

end

/-- Every run of the unordered combiner, whatever is published while it reads, ends with everything
delivered. -/
theorem run_delivered (calls : List (Call (n + 1))) :
    ∃ w, run calls (initCombiner (n + 1)) = .ok ((), w) ∧ Delivered calls w := by
  have hinit : Kept calls calls (initCombiner (n + 1)) := by
    refine ⟨fun i => ?_, fun kind ts _ hpos hall => orderly_init hpos hall⟩
    rfl
  obtain ⟨⟨⟩, w, hrun, hk, ha, hempty⟩ := spec_total (spec_seq (runCalls_kept rfl hinit)
    fun _ _ h => readQueues_final h.1 h.2)
  have hcome : ∀ i, pending [] w i = [] := fun i => by
    rw [pending_nil, World.toCome, hempty, ha]
    rfl
  refine ⟨w, hrun, hempty, fun i => ?_, fun kind ts hts hpos hall => ?_⟩
  · have hres := hk.results i
    rwa [hcome, nonTicks_nil, List.append_nil] at hres
  · obtain ⟨ho, hc⟩ := hk.ticks kind ts hts hpos hall
    refine sent_eq (0 : Fin (n + 1)) hts ho hc ?_ fun _ => rfl
    change tickKeys kind (pending [] w 0) = []
    rw [hcome]
    rfl

end Libtrace.CombinerUnordered
