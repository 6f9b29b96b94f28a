import Libtrace.HighWater
import Libtrace.OrderedRuns

/-! Ticks through the ordered combiner. `peek_queue` suppresses duplicates with the marks
`last_ts_tick` and `last_count_tick`: seen from one kind of tick, a step of the merge is a step of a
high-water consumer. -/

namespace Libtrace.OrderedTicks
open CombinerOrdered OrderedMerge HighWater Function

inductive TickKind where
  | interval
  | count
  deriving DecidableEq, Repr

def TickKind.type : TickKind → ResultType
  | .interval => .tickInterval
  | .count => .tickCount

def TickKind.direct (kind : TickKind) (parallel : Bool) : Bool := kind = .interval || parallel

def lastTick {n : Nat} (kind : TickKind) (w : World n) : UInt64 :=
  match kind with
  | .interval => w.lastTsTick
  | .count => w.lastCountTick

def tickKeys (kind : TickKind) (rs : List Result) : List UInt64 :=
  (rs.filter fun r => r.type = kind.type).map Result.key

def sentTicks {n : Nat} (kind : TickKind) (w : World n) : List UInt64 :=
  tickKeys kind (w.sent.map Prod.snd)

def leftTicks {n : Nat} (kind : TickKind) (rest : Fin n → List Result) (w : World n)
    (i : Fin n) : List UInt64 := tickKeys kind (w.toCome i ++ rest i)

def waitingTick {n : Nat} (kind : TickKind) (M : Merge n) (i : Fin n) : Option UInt64 :=
  if M.status i = .live then
    (M.world.queues i).head?.bind fun r => if r.type = kind.type then some r.key else none
  else none

/-- A merge as a high-water consumer of one kind of tick; `rest` is published later. -/
def ledger {n : Nat} (kind : TickKind) (rest : Fin n → List Result) (M : Merge n) :
    Ledger (Fin n) UInt64 :=
  ⟨leftTicks kind rest M.world, lastTick kind M.world, sentTicks kind M.world, waitingTick kind M⟩

@[simp] theorem tickKeys_append (kind : TickKind) (xs ys : List Result) :
    tickKeys kind (xs ++ ys) = tickKeys kind xs ++ tickKeys kind ys := by
  simp [tickKeys]

variable {kind : TickKind} {r : Result} {n : Nat} {w : World n} {i : Fin n} {q : List Result}
  {M : Merge n} {st : Fin n → Status} {w' : World n} {x : Status} {parallel : Bool}

theorem tickKeys_cons_same (h : r.type = kind.type) (q : List Result) :
    tickKeys kind (r :: q) = r.key :: tickKeys kind q := by
  simp [tickKeys, h]

theorem tickKeys_cons_other (h : r.type ≠ kind.type) (q : List Result) :
    tickKeys kind (r :: q) = tickKeys kind q := by
  simp [tickKeys, h]

theorem sentTicks_send_same (w : World n) (i : Fin n) (h : r.type = kind.type) :
    sentTicks kind (w.send i r) = sentTicks kind w ++ [r.key] := by
  simp [sentTicks, World.send, tickKeys, h]

theorem sentTicks_send_other (w : World n) (i : Fin n) (h : r.type ≠ kind.type) :
    sentTicks kind (w.send i r) = sentTicks kind w := by
  simp [sentTicks, World.send, tickKeys, h]

theorem lastTick_mark_same (w : World n) (h : r.type = kind.type) :
    lastTick kind (w.mark r) = r.key := by
  cases kind <;> simp [lastTick, World.mark, h, TickKind.type]

theorem lastTick_mark_other (w : World n) (ht : r.isTick = true) (h : r.type ≠ kind.type) :
    lastTick kind (w.mark r) = lastTick kind w := by
  cases kind with
  | interval => simp [lastTick, World.mark, show r.type ≠ .tickInterval from h]
  | count =>
    have hi : r.type = .tickInterval := by
      simpa [Result.isTick, show r.type ≠ .tickCount from h] using ht
    simp [lastTick, World.mark, hi]

theorem result_type_ne (h : r.isTick = false) : r.type ≠ kind.type := by
  intro he
  cases kind <;> simp [Result.isTick, he, TickKind.type] at h

theorem leftTicks_pop_same (rest : Fin n → List Result) (head : w.queues i = r :: q)
    (h : r.type = kind.type) :
    leftTicks kind rest w i = r.key :: leftTicks kind rest (w.pop i) i ∧
      leftTicks kind rest (w.pop i) =
        update (leftTicks kind rest w) i (leftTicks kind rest (w.pop i) i) := by
  constructor
  · rw [leftTicks, pop_toCome head, List.cons_append, tickKeys_cons_same h]
    rfl
  · funext j
    by_cases hj : j = i
    · rw [hj, update_self]
    · rw [update_of_ne hj, leftTicks, leftTicks, pop_toCome_ne w hj]

theorem leftTicks_pop_other (rest : Fin n → List Result) (head : w.queues i = r :: q)
    (h : r.type ≠ kind.type) : leftTicks kind rest (w.pop i) = leftTicks kind rest w := by
  funext j
  by_cases hj : j = i
  · rw [hj, leftTicks, leftTicks, pop_toCome head, List.cons_append, tickKeys_cons_other h]
  · rw [leftTicks, leftTicks, pop_toCome_ne w hj]

@[simp] theorem leftTicks_mark {n : Nat} (kind : TickKind) (rest : Fin n → List Result)
    (w : World n) (r : Result) : leftTicks kind rest (w.mark r) = leftTicks kind rest w := by
  funext i
  simp [leftTicks]

theorem waitingTick_not_live (kind : TickKind) (h : M.status i ≠ .live) :
    waitingTick kind M i = none := by
  simp [waitingTick, h]

theorem waitingTick_live (kind : TickKind) (h : M.status i = .live)
    (head : M.world.queues i = r :: q) :
    waitingTick kind M i = if r.type = kind.type then some r.key else none := by
  simp [waitingTick, h, head]

theorem waitingTick_other {j : Fin n} (hj : j ≠ i) (hq : w'.queues j = w.queues j) :
    waitingTick kind ⟨update st i x, w'⟩ j = waitingTick kind ⟨st, w⟩ j := by
  simp [waitingTick, hj, hq]

theorem waitingTick_idle (hq : ∀ j, j ≠ i → w'.queues j = w.queues j)
    (hold : waitingTick kind ⟨st, w⟩ i = none)
    (hnew : waitingTick kind ⟨update st i x, w'⟩ i = none) :
    waitingTick kind ⟨update st i x, w'⟩ = waitingTick kind ⟨st, w⟩ := by
  funext j
  by_cases hj : j = i
  · rw [hj, hold, hnew]
  · exact waitingTick_other hj (hq j hj)

theorem afterTick_not_live (s : Status) : s.afterTick ≠ .live := by
  cases s <;> simp [Status.afterTick]

theorem open_not_live {s : Status} (h : s.Open) : s ≠ .live := by
  rcases h with rfl | rfl <;> simp

theorem passes_kind (h : Passes parallel w r) (hk : r.type = kind.type) :
    lastTick kind w < r.key ∧ kind.direct parallel = true := by
  rcases h with ⟨ht, hlt⟩ | ⟨ht, hlt, hpar⟩ <;> rw [ht] at hk <;> cases kind
  · exact ⟨hlt, rfl⟩
  · exact absurd hk (by simp [TickKind.type])
  · exact absurd hk (by simp [TickKind.type])
  · exact ⟨hlt, by simp [TickKind.direct, hpar]⟩

theorem stale_kind (h : Stale w r) (hk : r.type = kind.type) : r.key ≤ lastTick kind w := by
  rcases h with ⟨ht, hle⟩ | ⟨ht, hle⟩ <;> rw [ht] at hk <;> cases kind
  · exact hle
  · exact absurd hk (by simp [TickKind.type])
  · exact absurd hk (by simp [TickKind.type])
  · exact hle

section

variable {n : Nat} {kind : TickKind} (rest : Fin n → List Result) {st : Fin n → Status}
  {w : World n} {i : Fin n} {r : Result} {q : List Result}

theorem ledger_land (hl : LiveHeads ⟨st, w⟩) :
    ledger kind rest ⟨st, w.land⟩ = ledger kind rest ⟨st, w⟩ := by
  have hleft : leftTicks kind rest w.land = leftTicks kind rest w := by
    funext i
    simp [leftTicks]
  have hmark : lastTick kind w.land = lastTick kind w := by
    cases kind <;> simp [lastTick]
  have hwait : waitingTick kind ⟨st, w.land⟩ = waitingTick kind ⟨st, w⟩ := by
    funext i
    by_cases hi : st i = .live
    · obtain ⟨r, q, hq⟩ := List.exists_cons_of_ne_nil (hl i hi)
      obtain ⟨q', hq'⟩ := land_queues_cons hq
      rw [waitingTick_live kind hi hq, waitingTick_live kind hi hq']
    · rw [waitingTick_not_live kind hi, waitingTick_not_live kind hi]
  simp [ledger, hleft, hmark, hwait, sentTicks]

theorem ledger_idle {x : Status} (hold : waitingTick kind ⟨st, w⟩ i = none)
    (hnew : waitingTick kind ⟨update st i x, w⟩ i = none) :
    ledger kind rest ⟨update st i x, w⟩ = ledger kind rest ⟨st, w⟩ := by
  rw [ledger, ledger, waitingTick_idle (fun _ _ => rfl) hold hnew]

theorem ledger_pass {parallel : Bool} (hopen : (st i).Open) (head : w.queues i = r :: q)
    (fresh : Passes parallel w r) :
    MayStep (kind.direct parallel) (ledger kind rest ⟨st, w⟩) (ledger kind rest
      ⟨update st i (st i).afterTick, ((w.mark r).pop i).send i r⟩) := by
  have hidle : waitingTick kind ⟨st, w⟩ i = none := waitingTick_not_live _ (open_not_live hopen)
  have hw : waitingTick kind
      ⟨update st i (st i).afterTick, ((w.mark r).pop i).send i r⟩ =
        waitingTick kind ⟨st, w⟩ :=
    waitingTick_idle (fun j hj => by simp [World.send, World.pop, hj]) hidle
      (waitingTick_not_live _ (by simpa using afterTick_not_live (st i)))
  have head' : (w.mark r).queues i = r :: q := by simpa using head
  have hsent : sentTicks kind ((w.mark r).pop i) = sentTicks kind w := by
    simp [sentTicks, World.pop]
  by_cases hk : r.type = kind.type
  · right
    obtain ⟨hlt, hdirect⟩ := passes_kind fresh hk
    obtain ⟨hhead, hleft⟩ := leftTicks_pop_same rest head' hk
    rw [leftTicks_mark] at hhead hleft
    have hB : ledger kind rest
        ⟨update st i (st i).afterTick, ((w.mark r).pop i).send i r⟩ =
        { ledger kind rest ⟨st, w⟩ with
          left := update (leftTicks kind rest w) i
            (leftTicks kind rest ((w.mark r).pop i) i)
          mark := r.key
          sent := sentTicks kind w ++ [r.key] } := by
      simp only [ledger, hw, sentTicks_send_same _ i hk, hsent]
      rw [← hleft, ← lastTick_mark_same w hk]
      rfl
    rw [hB]
    exact .pass _ i r.key _ hhead hidle hlt hdirect
  · left
    have hleft := leftTicks_pop_other rest head' hk
    rw [leftTicks_mark] at hleft
    simp only [ledger, hw, sentTicks_send_other _ i hk, hsent]
    rw [← hleft, ← lastTick_mark_other w fresh.isTick hk]
    rfl

variable {direct : Bool}

section

variable (hopen : (st i).Open) (head : w.queues i = r :: q)
include hopen head

theorem ledger_drop (stale : Stale w r) :
    MayStep direct (ledger kind rest ⟨st, w⟩)
      (ledger kind rest ⟨update st i (st i).afterTick, w.pop i⟩) := by
  have hidle : waitingTick kind ⟨st, w⟩ i = none := waitingTick_not_live _ (open_not_live hopen)
  have hw : waitingTick kind ⟨update st i (st i).afterTick, w.pop i⟩ =
      waitingTick kind ⟨st, w⟩ :=
    waitingTick_idle (fun j hj => by simp [World.pop, hj]) hidle
      (waitingTick_not_live _ (by simpa using afterTick_not_live (st i)))
  by_cases hk : r.type = kind.type
  · right
    obtain ⟨hhead, hleft⟩ := leftTicks_pop_same rest head hk
    have hB : ledger kind rest ⟨update st i (st i).afterTick, w.pop i⟩ =
        { ledger kind rest ⟨st, w⟩ with
          left := update (leftTicks kind rest w) i
            (leftTicks kind rest (w.pop i) i) } := by
      simp only [ledger, hw]
      rw [← hleft]
      rfl
    rw [hB]
    exact .drop _ i r.key _ hhead hidle (stale_kind stale hk)
  · left
    simp only [ledger, hw, leftTicks_pop_other rest head hk]
    rfl

theorem ledger_count_other (tick : r.isTick = true) (hk : r.type ≠ kind.type) :
    ledger kind rest ⟨update st i .live, w.mark r⟩ = ledger kind rest ⟨st, w⟩ := by
  have head' : (w.mark r).queues i = r :: q := by simpa using head
  have hsent : sentTicks kind (w.mark r) = sentTicks kind w := by simp [sentTicks]
  have hnew : waitingTick kind ⟨update st i .live, w.mark r⟩ i = none := by
    rw [waitingTick_live _ (by simp) head', if_neg hk]
  have hw : waitingTick kind ⟨update st i .live, w.mark r⟩ = waitingTick kind ⟨st, w⟩ :=
    waitingTick_idle (fun _ _ => by simp) (waitingTick_not_live _ (open_not_live hopen)) hnew
  simp only [ledger, hsent, leftTicks_mark, hw, lastTick_mark_other w tick hk]

theorem ledger_count_same (hk : r.type = kind.type) (fresh : lastTick kind w < r.key) :
    HighWater.Step false (ledger kind rest ⟨st, w⟩)
      (ledger kind rest ⟨update st i .live, w.mark r⟩) := by
  have head' : (w.mark r).queues i = r :: q := by simpa using head
  have hsent : sentTicks kind (w.mark r) = sentTicks kind w := by simp [sentTicks]
  have hw : waitingTick kind ⟨update st i .live, w.mark r⟩ =
      update (waitingTick kind ⟨st, w⟩) i (some r.key) := by
    funext j
    by_cases hj : j = i
    · rw [hj, waitingTick_live _ (by simp) head', if_pos hk, update_self]
    · rw [update_of_ne hj]
      exact waitingTick_other hj (by simp)
  have hB : ledger kind rest ⟨update st i .live, w.mark r⟩ =
      { ledger kind rest ⟨st, w⟩ with
        mark := r.key
        waiting := update (waitingTick kind ⟨st, w⟩) i (some r.key) } := by
    simp only [ledger, hsent, leftTicks_mark, hw, lastTick_mark_same w hk]
  rw [hB]
  exact .peek _ i r.key _ (leftTicks_pop_same rest head hk).1
    (waitingTick_not_live _ (open_not_live hopen)) fresh rfl

end

theorem waitingTick_least {k : UInt64} (hl : LiveHeads ⟨st, w⟩)
    (least : ∀ j x xs, st j = .live → w.queues j = x :: xs → k ≤ x.key) {j : Fin n} {x : UInt64}
    (hx : waitingTick kind ⟨st, w⟩ j = some x) : k ≤ x := by
  by_cases hj : st j = .live
  · obtain ⟨y, ys, hy⟩ := List.exists_cons_of_ne_nil (hl j hj)
    rw [waitingTick_live kind hj hy] at hx
    split at hx
    · rw [← Option.some.inj hx]
      exact least j y ys hj hy
    · exact absurd hx (by simp)
  · rw [waitingTick_not_live kind hj] at hx
    exact absurd hx (by simp)

theorem ledger_send (hl : LiveHeads ⟨st, w⟩) (live : st i = .live) (head : w.queues i = r :: q)
    (least : ∀ j x xs, st j = .live → w.queues j = x :: xs → r.key ≤ x.key) :
    MayStep direct (ledger kind rest ⟨st, w⟩)
      (ledger kind rest ⟨update st i .current, (w.pop i).send i r⟩) := by
  have hold : waitingTick kind ⟨st, w⟩ i = if r.type = kind.type then some r.key else none :=
    waitingTick_live kind live head
  have hnew : waitingTick kind ⟨update st i .current, (w.pop i).send i r⟩ i = none :=
    waitingTick_not_live _ (by simp)
  have hother : ∀ j, j ≠ i → ((w.pop i).send i r).queues j = w.queues j := fun j hj => by
    simp [World.send, World.pop, hj]
  have hsent : sentTicks kind (w.pop i) = sentTicks kind w := rfl
  by_cases hk : r.type = kind.type
  · right
    obtain ⟨hhead, hleft⟩ := leftTicks_pop_same rest head hk
    have hw : waitingTick kind ⟨update st i .current, (w.pop i).send i r⟩ =
        update (waitingTick kind ⟨st, w⟩) i none := by
      funext j
      by_cases hj : j = i
      · rw [hj, hnew, update_self]
      · rw [update_of_ne hj]
        exact waitingTick_other hj (hother j hj)
    have hB : ledger kind rest ⟨update st i .current, (w.pop i).send i r⟩ =
        { ledger kind rest ⟨st, w⟩ with
          left := update (leftTicks kind rest w) i (leftTicks kind rest (w.pop i) i)
          sent := sentTicks kind w ++ [r.key]
          waiting := update (waitingTick kind ⟨st, w⟩) i none } := by
      simp only [ledger, hw, sentTicks_send_same _ i hk, hsent]
      rw [← hleft]
      rfl
    rw [hB]
    exact .send _ i r.key _ hhead (hold.trans (if_pos hk)) fun j x hx =>
      waitingTick_least hl least hx
  · left
    have hleft := leftTicks_pop_other rest head hk
    simp only [ledger, sentTicks_send_other _ i hk, hsent]
    rw [waitingTick_idle hother (hold.trans (if_neg hk)) hnew, ← hleft]
    rfl

end

theorem step_ledger {final : Bool} (kind : TickKind) (rest : Fin n → List Result) {A B : Merge n}
    (hs : OrderedMerge.Step parallel final A B) (hl : LiveHeads A) :
    MayStep (kind.direct parallel) (ledger kind rest A) (ledger kind rest B) := by
  cases hs with
  | land st w => exact .inl (ledger_land rest hl)
  | empty st w i hopen head =>
    exact .inl (ledger_idle rest (waitingTick_not_live _ (open_not_live hopen))
      (waitingTick_not_live _ (by simp)))
  | zero st w i r q cur =>
    exact .inl (ledger_idle rest (waitingTick_not_live _ (by simp [cur]))
      (waitingTick_not_live _ (by simp)))
  | ready st w i r q hopen head result =>
    have hnew : waitingTick kind ⟨update st i .live, w⟩ i = none := by
      rw [waitingTick_live _ (by simp) head, if_neg (result_type_ne result)]
    exact .inl (ledger_idle rest (waitingTick_not_live _ (open_not_live hopen)) hnew)
  | pass st w i r q hopen head fresh => exact ledger_pass rest hopen head fresh
  | drop st w i r q hopen head stale => exact ledger_drop rest hopen head stale
  | count st w i r q hopen head tick fresh single =>
    cases kind with
    | interval =>
      exact .inl (ledger_count_other rest hopen head (by simp [Result.isTick, tick])
        (by simp [tick, TickKind.type]))
    | count =>
      rw [show TickKind.count.direct parallel = false by simp [TickKind.direct, single]]
      exact .inr (ledger_count_same rest hopen head tick fresh)
  | send st w i r q live head closed least all => exact ledger_send rest hl live head least

end Libtrace.OrderedTicks
