import Libtrace.CombinerOrdered
import Mathlib.Logic.Relation

/-! The merge that `read_internal` performs, without its cached keys. Each queue has a status for
the running call; a step looks at one queue head, lets publishes land, or hands the smallest live
head to the reporter. `OrderedRefinement` shows that the code takes no other steps. -/

namespace Libtrace.OrderedMerge
open CombinerOrdered Function

/-- `unseen`: not reached by the first scan. `current`: `next_message` looks at its new head.
`live`: its head waits to be sent. `dead`: left alone until the next call. -/
inductive Status where
  | unseen
  | current
  | live
  | dead
  deriving DecidableEq, Repr

structure Merge (n : Nat) where
  status : Fin n → Status
  world : World n

def Merge.start {n : Nat} (w : World n) : Merge n := ⟨fun _ => .unseen, w⟩

def Passes {n : Nat} (parallel : Bool) (w : World n) (r : Result) : Prop :=
  (r.type = .tickInterval ∧ w.lastTsTick < r.key) ∨
    (r.type = .tickCount ∧ w.lastCountTick < r.key ∧ parallel = true)

def Stale {n : Nat} (w : World n) (r : Result) : Prop :=
  (r.type = .tickInterval ∧ r.key ≤ w.lastTsTick) ∨
    (r.type = .tickCount ∧ r.key ≤ w.lastCountTick)

def Status.afterTick : Status → Status
  | .current => .current
  | _ => .dead

def Status.Open (st : Status) : Prop := st = .unseen ∨ st = .current

inductive Step {n : Nat} (parallel final : Bool) : Merge n → Merge n → Prop where
  | land (st : Fin n → Status) (w : World n) : Step parallel final ⟨st, w⟩ ⟨st, w.land⟩
  | empty (st : Fin n → Status) (w : World n) (i : Fin n) (open_ : (st i).Open)
      (head : w.queues i = []) :
      Step parallel final ⟨st, w⟩ ⟨update st i .dead, w⟩
  | pass (st : Fin n → Status) (w : World n) (i : Fin n) (r : Result) (q : List Result)
      (open_ : (st i).Open) (head : w.queues i = r :: q) (fresh : Passes parallel w r) :
      Step parallel final ⟨st, w⟩
        ⟨update st i (st i).afterTick, ((w.mark r).pop i).send i r⟩
  | drop (st : Fin n → Status) (w : World n) (i : Fin n) (r : Result) (q : List Result)
      (open_ : (st i).Open) (head : w.queues i = r :: q) (stale : Stale w r) :
      Step parallel final ⟨st, w⟩ ⟨update st i (st i).afterTick, w.pop i⟩
  | zero (st : Fin n → Status) (w : World n) (i : Fin n) (r : Result) (q : List Result)
      (current : st i = .current) (head : w.queues i = r :: q) (result : r.isTick = false)
      (zero : r.key = 0) :
      Step parallel final ⟨st, w⟩ ⟨update st i .dead, w⟩
  | ready (st : Fin n → Status) (w : World n) (i : Fin n) (r : Result) (q : List Result)
      (open_ : (st i).Open) (head : w.queues i = r :: q) (result : r.isTick = false) :
      Step parallel final ⟨st, w⟩ ⟨update st i .live, w⟩
  | count (st : Fin n → Status) (w : World n) (i : Fin n) (r : Result) (q : List Result)
      (open_ : (st i).Open) (head : w.queues i = r :: q) (tick : r.type = .tickCount)
      (fresh : w.lastCountTick < r.key) (single : parallel = false) :
      Step parallel final ⟨st, w⟩ ⟨update st i .live, w.mark r⟩
  | send (st : Fin n → Status) (w : World n) (i : Fin n) (r : Result) (q : List Result)
      (live : st i = .live) (head : w.queues i = r :: q) (closed : ∀ j, ¬ (st j).Open)
      (least : ∀ j x xs, st j = .live → w.queues j = x :: xs → r.key ≤ x.key)
      (all : final = true ∨ ∀ j, st j = .live) :
      Step parallel final ⟨st, w⟩ ⟨update st i .current, (w.pop i).send i r⟩

abbrev Steps {n : Nat} (parallel final : Bool) : Merge n → Merge n → Prop :=
  Relation.ReflTransGen (Step parallel final)

variable {n : Nat} {parallel final : Bool} {A B : Merge n} {w : World n} {r : Result}

theorem steps_invariant {M M' : Merge n} (I : Merge n → Prop) (hs : Steps parallel final M M')
    (h : I M) (step : ∀ A B, Step parallel final A B → I A → I B) : I M' := by
  induction hs with
  | refl => exact h
  | tail _ hab ih => exact step _ _ hab ih

theorem step_toCome (h : Step parallel final A B) (i : Fin n) :
    B.world.toCome i = A.world.toCome i ∨
      ∃ r, A.world.toCome i = r :: B.world.toCome i := by
  have popped : ∀ (w : World n) (j : Fin n) (r : Result) (q : List Result),
      w.queues j = r :: q → (w.pop j).toCome i = w.toCome i ∨
        ∃ x, w.toCome i = x :: (w.pop j).toCome i := by
    intro w j r q hq
    by_cases hij : i = j
    · subst hij
      exact .inr ⟨r, pop_toCome hq⟩
    · exact .inl (pop_toCome_ne w hij)
  cases h with
  | land st w => simp
  | empty st w j => simp
  | pass st w j r q _ head => simpa using popped (w.mark r) j r q (by simpa using head)
  | drop st w j r q _ head => exact popped w j r q head
  | zero st w j => simp
  | ready st w j => simp
  | count st w j r => simp
  | send st w j r q _ head => simpa using popped w j r q head

theorem steps_toCome (h : Steps parallel final A B) (i : Fin n) :
    B.world.toCome i <:+ A.world.toCome i := by
  refine steps_invariant (fun M => M.world.toCome i <:+ A.world.toCome i) h List.suffix_rfl ?_
  intro C D hstep hc
  rcases step_toCome hstep i with he | ⟨r, hr⟩
  · rw [he]
    exact hc
  · exact (List.suffix_cons r _).trans (hr ▸ hc)

theorem step_arriving (h : Step parallel final A B) (ha : A.world.arriving = []) :
    B.world.arriving = [] := by
  cases h with
  | land st w => rw [land_arriving_nil ha]; exact ha
  | pass st w j r => simpa [World.send, World.pop] using ha
  | count st w j r => simpa using ha
  | _ => exact ha

theorem steps_arriving (h : Steps parallel final A B) (ha : A.world.arriving = []) :
    B.world.arriving = [] :=
  steps_invariant (fun M => M.world.arriving = []) h ha fun _ _ hs => step_arriving hs

def LiveHeads {n : Nat} (M : Merge n) : Prop := ∀ j, M.status j = .live → M.world.queues j ≠ []

theorem step_liveHeads (h : Step parallel final A B) (hl : LiveHeads A) : LiveHeads B := by
  intro j hj
  have other : ∀ (st : Fin n → Status) (i : Fin n) (x : Status), x ≠ .live →
      update st i x j = .live → j ≠ i ∧ st j = .live := by
    intro st i x hx hj
    by_cases hji : j = i
    · subst hji
      simp [hx] at hj
    · exact ⟨hji, by simpa [hji] using hj⟩
  have afterTick : ∀ s : Status, s.afterTick ≠ .live := by
    intro s
    cases s <;> simp [Status.afterTick]
  cases h with
  | land st w =>
    obtain ⟨r, q, hq⟩ := List.exists_cons_of_ne_nil (hl j hj)
    obtain ⟨q', hq'⟩ := land_queues_cons hq
    simp [hq']
  | empty st w i | zero st w i => exact hl j (other st i _ (by simp) hj).2
  | pass st w i r q =>
    obtain ⟨hji, hst⟩ := other st i _ (afterTick _) hj
    simpa [World.send, World.pop, hji] using hl j hst
  | drop st w i r q =>
    obtain ⟨hji, hst⟩ := other st i _ (afterTick _) hj
    simpa [World.pop, hji] using hl j hst
  | send st w i r q =>
    obtain ⟨hji, hst⟩ := other st i _ (by simp) hj
    simpa [World.send, World.pop, hji] using hl j hst
  | ready st w i r q _ head =>
    by_cases hji : j = i
    · subst hji
      simp [head]
    · exact hl j (by simpa [hji] using hj)
  | count st w i r q _ head =>
    by_cases hji : j = i
    · subst hji
      simp [head]
    · simpa using hl j (by simpa [hji] using hj)

def account {n : Nat} (w : World n) (i : Fin n) : List Result :=
  nonTicks (resultsOf i w.sent) ++ nonTicks (w.toCome i)

theorem Passes.isTick (h : Passes parallel w r) : r.isTick = true := by
  rcases h with ⟨h, -⟩ | ⟨h, -, -⟩ <;> simp [Result.isTick, h]

theorem Stale.isTick (h : Stale w r) : r.isTick = true := by
  rcases h with ⟨h, -⟩ | ⟨h, -⟩ <;> simp [Result.isTick, h]

theorem account_drop {j : Fin n} {q : List Result} (head : w.queues j = r :: q)
    (tick : r.isTick = true) (i : Fin n) : account (w.pop j) i = account w i := by
  by_cases hij : i = j
  · subst hij
    rw [account, account, pop_toCome head, nonTicks_cons_tick tick]
    rfl
  · rw [account, account, pop_toCome_ne w hij]
    rfl

theorem account_send {j : Fin n} {q : List Result} (head : w.queues j = r :: q) (i : Fin n) :
    account ((w.pop j).send j r) i = account w i := by
  by_cases hij : i = j
  · subst hij
    have split := nonTicks_append [r] ((w.pop i).toCome i)
    rw [List.singleton_append] at split
    simp only [account, World.send, resultsOf_append, resultsOf_single, if_true, nonTicks_append,
      List.append_assoc, pop_toCome head, split]
    rfl
  · simp only [account, World.send, resultsOf_append, resultsOf_single, if_neg (Ne.symm hij),
      List.append_nil]
    rw [← pop_toCome_ne w hij]
    rfl

@[simp] theorem account_mark {n : Nat} (w : World n) (r : Result) (i : Fin n) :
    account (w.mark r) i = account w i := by
  simp [account]

theorem step_account (h : Step parallel final A B) (i : Fin n) :
    account B.world i = account A.world i := by
  cases h with
  | land st w => simp [account]
  | pass st w j r q _ head =>
    have hq : (w.mark r).queues j = r :: q := by simpa using head
    exact (account_send hq i).trans (account_mark w r i)
  | drop st w j r q _ head stale => exact account_drop head stale.isTick i
  | count st w j r => simp
  | send st w j r q _ head => exact account_send head i
  | _ => rfl

theorem steps_account (h : Steps parallel final A B) (i : Fin n) :
    account B.world i = account A.world i :=
  steps_invariant (fun M => account M.world i = account A.world i) h rfl
    fun _ _ hs ih => (step_account hs i).trans ih

theorem step_work (h : Step parallel final A B) : B.world.work ≤ A.world.work := by
  cases h with
  | pass st w j r q _ head =>
    have hq : (w.mark r).queues j = r :: q := by simpa using head
    have := pop_work hq
    simp only [mark_work, send_work] at this ⊢
    omega
  | drop st w j r q _ head => have := pop_work head; simp only; omega
  | send st w j r q _ head => have := pop_work head; simp only [send_work]; omega
  | _ => simp

def Untouched {n : Nat} (w : World n) (M : Merge n) : Prop :=
  M.world.queues = w.queues ∧
    ∀ i, M.status i ≠ .current ∧ (M.status i = .dead → w.queues i = [])

theorem step_untouched (h : Step parallel final A B) (ha : A.world.arriving = [])
    (hu : A.world.work < w.work ∨ (A.world.work = w.work ∧ Untouched w A)) :
    B.world.work < w.work ∨ (B.world.work = w.work ∧ Untouched w B) := by
  have hle := step_work h
  rcases hu with hu | ⟨hwork, hq, hst⟩
  · exact .inl (by omega)
  have set : ∀ (st : Fin n → Status) (j : Fin n) (x : Status),
      (∀ i, st i ≠ .current ∧ (st i = .dead → w.queues i = [])) → x ≠ .current →
      (x = .dead → w.queues j = []) → ∀ i, update st j x i ≠ .current ∧
        (update st j x i = .dead → w.queues i = []) := by
    intro st j x hst hx hdead i
    by_cases hij : i = j
    · subst hij
      simpa using ⟨hx, hdead⟩
    · simpa [hij] using hst i
  cases h with
  | land st v =>
    rw [land_arriving_nil ha]
    exact .inr ⟨hwork, hq, hst⟩
  | empty st v j _ head =>
    exact .inr ⟨hwork, hq, set st j .dead hst (by simp) fun _ => by rw [← hq]; exact head⟩
  | pass st v j r q _ head =>
    have hp : (v.mark r).queues j = r :: q := by simpa using head
    have := pop_work hp
    simp only [mark_work, send_work] at this hwork ⊢
    exact .inl (by omega)
  | drop st v j r q _ head =>
    have := pop_work head
    simp only at hwork ⊢
    exact .inl (by omega)
  | zero st v j r q hcur => exact absurd hcur (hst j).1
  | ready st v j r q =>
    exact .inr ⟨hwork, hq, set st j .live hst (by simp) (by simp)⟩
  | count st v j r q =>
    exact .inr ⟨by simpa using hwork, by simpa using hq, set st j .live hst (by simp) (by simp)⟩
  | send st v j r q _ head =>
    have := pop_work head
    simp only [send_work] at hwork ⊢
    exact .inl (by omega)

theorem steps_progress {M : Merge n} (h : Steps parallel final (Merge.start w) M)
    (ha : w.arriving = []) (hdead : ∀ i, M.status i = .dead) :
    M.world.work < w.work ∨ ∀ i, M.world.queues i = [] := by
  have inv := steps_invariant
    (fun M => M.world.arriving = [] ∧
      (M.world.work < w.work ∨ (M.world.work = w.work ∧ Untouched w M))) h
    ⟨ha, .inr ⟨rfl, rfl, by simp [Merge.start]⟩⟩
    (fun A B hs hA => ⟨step_arriving hs hA.1, step_untouched hs hA.1 hA.2⟩)
  rcases inv.2 with hlt | ⟨-, hq, hst⟩
  · exact .inl hlt
  · exact .inr fun i => by rw [hq]; exact (hst i).2 (hdead i)

end Libtrace.OrderedMerge
