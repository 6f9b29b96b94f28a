import Libtrace.KWayMerge
import Libtrace.TraceMerge

/-! What a round of `tracemerge` takes: the first of the oldest packets at the heads of the inputs,
as the merge of inputs whose timestamps do not decrease wants it. -/

namespace Libtrace.TraceMerge
open KWayMerge

variable {π : Type}

inductive Holds : Slot π → List π → Prop where
  | live (p : π) (rest : List π) : Holds ⟨some (rest.map .packet), some p⟩ (p :: rest)
  | idle (q : List π) : Holds ⟨some (q.map .packet), none⟩ q
  | closed : Holds ⟨none, none⟩ []

theorem holds_openInput (q : List π) : Holds (openInput (q.map .packet)) q := by
  cases q with
  | nil => exact .idle []
  | cons p rest => exact .live p rest

variable {s : Slot π}

theorem Holds.refill {q : List π} (h : Holds s q) :
    Holds s.refill q ∧ s.refill.packet = q.head? := by
  cases h with
  | live p rest => exact ⟨.live p rest, rfl⟩
  | idle q =>
    cases q with
    | nil => exact ⟨.closed, rfl⟩
    | cons p rest => exact ⟨.live p rest, rfl⟩
  | closed => exact ⟨.closed, rfl⟩

theorem Holds.release {p : π} {rest : List π} (h : Holds s (p :: rest))
    (hlive : s.packet = some p) : Holds { s with packet := none } rest := by
  cases h with
  | live => exact .idle rest
  | idle => cases hlive

structure Feeds (slots : List (Slot π)) (queues : List (List π)) : Prop where
  length_eq : slots.length = queues.length
  holds : ∀ (i : Nat) s q, slots[i]? = some s → queues[i]? = some q → Holds s q

theorem feeds_open (inputs : List (List π)) :
    Feeds ((inputs.map fun xs => xs.map Reading.packet).map openInput) inputs where
  length_eq := by rw [List.length_map, List.length_map]
  holds i s q hs hq := by
    rw [List.getElem?_map, List.getElem?_map, hq] at hs
    obtain rfl := Option.some.inj hs
    exact holds_openInput q

section

variable {slots : List (Slot π)} {queues : List (List π)}

theorem Feeds.waiting (h : Feeds slots queues) (i : Nat) :
    slots[i]?.bind (fun s => s.refill.packet) = (queues.getD i []).head? := by
  by_cases hi : i < slots.length
  · have hs := List.getElem?_eq_getElem hi
    have hq := List.getElem?_eq_getElem (h.length_eq ▸ hi)
    rw [hs, Option.bind_some, (h.holds i _ _ hs hq).refill.2, List.getD_eq_getElem?_getD, hq]
    rfl
  · have hs := List.getElem?_eq_none (Nat.le_of_not_lt hi)
    have hq := List.getElem?_eq_none (h.length_eq ▸ Nat.le_of_not_lt hi)
    rw [hs, List.getD_eq_getElem?_getD, hq]
    rfl

variable {k : Nat} {p : π} {rest : List π}

theorem Feeds.release (h : Feeds slots queues) (hk : queues[k]? = some (p :: rest)) :
    Feeds (release k (slots.map Slot.refill)) (queues.set k rest) where
  length_eq := by
    rw [TraceMerge.release, List.length_modify, List.length_set, List.length_map, h.length_eq]
  holds i s q hs hq := by
    rw [TraceMerge.release, List.getElem?_modify] at hs
    obtain ⟨t, ht, rfl⟩ := Option.map_eq_some_iff.mp hs
    rw [List.getElem?_map] at ht
    obtain ⟨s, hslot, rfl⟩ := Option.map_eq_some_iff.mp ht
    by_cases hik : k = i
    · subst hik
      obtain ⟨hlt, -⟩ := List.getElem?_eq_some_iff.mp hk
      rw [List.getElem?_set_self hlt] at hq
      obtain rfl := Option.some.inj hq
      obtain ⟨hrefill, hlive⟩ := (h.holds k s _ hslot hk).refill
      rw [if_pos rfl]
      exact hrefill.release hlive
    · rw [List.getElem?_set_ne hik] at hq
      rw [if_neg hik]
      exact (h.holds i s q hslot hq).refill.1

theorem flatten_length_set (hk : queues[k]? = some (p :: rest)) :
    (queues.set k rest).flatten.length + 1 = queues.flatten.length := by
  induction queues generalizing k with
  | nil => cases hk
  | cons q queues ih =>
    cases k with
    | zero =>
      obtain rfl := Option.some.inj hk
      simp only [List.set_cons_zero, List.flatten_cons, List.length_append, List.length_cons]
      omega
    | succ k =>
      have h := ih (k := k) hk
      simp only [List.set_cons_succ, List.flatten_cons, List.length_append]
      omega

theorem getD_set (hk : k < queues.length) (rest : List π) :
    (fun i => (queues.set k rest).getD i []) =
      Function.update (fun i => queues.getD i []) k rest := by
  funext i
  by_cases hik : i = k
  · subst hik
    rw [Function.update_self, List.getD_eq_getElem?_getD, List.getElem?_set_self hk]
    rfl
  · rw [Function.update_of_ne hik, List.getD_eq_getElem?_getD, List.getElem?_set_ne (Ne.symm hik)]
    rfl

theorem getElem?_of_head (h : (queues.getD k []).head? = some p) :
    ∃ rest, queues[k]? = some (p :: rest) := by
  cases hk : queues[k]? with
  | none =>
    rw [List.getD_eq_getElem?_getD, hk] at h
    cases h
  | some q =>
    rw [List.getD_eq_getElem?_getD, hk] at h
    obtain ⟨rest, rfl⟩ := List.head?_eq_some_iff.mp h
    exact ⟨rest, rfl⟩

end

section

variable (c : Calls π)

/-- The first of the packets with the least timestamp among those that wait. -/
def IsOldest (waits : Nat → π → Prop) : Option (Oldest π) → Prop
  | none => ∀ i p, ¬ waits i p
  | some o => waits o.index o.packet ∧ o.ts = c.getErfTimestamp o.packet ∧
    ∀ i p, waits i p →
      rank c.getErfTimestamp (o.index, o.packet) ≤ rank c.getErfTimestamp (i, p)

variable {c}

variable {waits : Nat → π → Prop} {best : Option (Oldest π)} {i : Nat}

theorem isOldest_congr {waits' : Nat → π → Prop} (h : ∀ i p, waits i p ↔ waits' i p)
    (hbest : IsOldest c waits best) : IsOldest c waits' best := by
  have heq : waits = waits' := funext fun i => funext fun p => propext (h i p)
  rw [← heq]
  exact hbest

theorem isOldest_older
    (h : IsOldest c waits best) (hi : ∀ j p, waits j p → j < i) (next : Option π) :
    IsOldest c (fun j p => waits j p ∨ j = i ∧ next = some p) (older c i best next) := by
  cases next with
  | none =>
    refine isOldest_congr (fun j p => ?_) h
    exact ⟨.inl, fun h => h.elim id fun h => absurd h.2.symm (Option.some_ne_none p)⟩
  | some q =>
    cases best with
    | none =>
      refine ⟨.inr ⟨rfl, rfl⟩, rfl, fun j p hp => ?_⟩
      obtain hp | ⟨rfl, hp⟩ := hp
      · exact absurd hp (h j p)
      · obtain rfl := Option.some.inj hp
        exact le_refl _
    | some o =>
      obtain ⟨hwaits, hts, hleast⟩ := h
      rw [older]
      split_ifs with hlt
      · refine ⟨.inr ⟨rfl, rfl⟩, rfl, fun j p hp => ?_⟩
        obtain hp | ⟨rfl, hp⟩ := hp
        · rw [hts] at hlt
          exact (rank_le_rank.mpr (.inl hlt)).trans (hleast j p hp)
        · obtain rfl := Option.some.inj hp
          exact le_refl _
      · refine ⟨.inl hwaits, hts, fun j p hp => ?_⟩
        obtain hp | ⟨rfl, hp⟩ := hp
        · exact hleast j p hp
        · obtain rfl := Option.some.inj hp
          rw [hts] at hlt
          refine rank_le_rank.mpr ?_
          obtain hless | heq := lt_or_eq_of_le (le_of_not_gt hlt)
          · exact .inl hless
          · exact .inr ⟨heq, (hi _ _ hwaits).le⟩

theorem scan_slots (i : Nat) (best : Option (Oldest π)) (slots : List (Slot π)) :
    (scan c i best slots).1 = slots.map Slot.refill := by
  induction slots generalizing i best with
  | nil => rfl
  | cons s slots ih => exact congrArg (s.refill :: ·) (ih _ _)

theorem isOldest_scan (h : IsOldest c waits best) (hi : ∀ j p, waits j p → j < i)
    (slots : List (Slot π)) :
    IsOldest c (fun j p => waits j p ∨
        ∃ m, j = i + m ∧ slots[m]?.bind (fun s => s.refill.packet) = some p)
      (scan c i best slots).2 := by
  induction slots generalizing i best waits with
  | nil =>
    refine isOldest_congr (fun j p => ?_) h
    exact ⟨.inl, fun h => h.elim id fun ⟨_, _, hm⟩ => absurd hm.symm (Option.some_ne_none p)⟩
  | cons s slots ih =>
    have hnext := ih (isOldest_older h hi s.refill.packet) (i := i + 1) (by
      rintro j p (hp | ⟨rfl, -⟩)
      · exact (hi j p hp).trans (Nat.lt_succ_self i)
      · exact Nat.lt_succ_self j)
    refine isOldest_congr (fun j p => ?_) hnext
    constructor
    · rintro ((hp | ⟨rfl, hp⟩) | ⟨m, rfl, hp⟩)
      · exact .inl hp
      · exact .inr ⟨0, rfl, hp⟩
      · exact .inr ⟨m + 1, by omega, hp⟩
    · rintro (hp | ⟨m, rfl, hp⟩)
      · exact .inl (.inl hp)
      · cases m with
        | zero => exact .inl (.inr ⟨rfl, hp⟩)
        | succ m => exact .inr ⟨m, by omega, hp⟩

theorem scan_oldest {slots : List (Slot π)} {queues : List (List π)} (h : Feeds slots queues) :
    IsOldest c (fun i p => (queues.getD i []).head? = some p) (scan c 0 none slots).2 := by
  have hstart : IsOldest c (fun _ _ => False) none := fun _ _ h => h
  refine isOldest_congr (fun i p => ?_) (isOldest_scan hstart (fun _ _ h => h.elim) slots)
  constructor
  · rintro (hp | ⟨m, rfl, hp⟩)
    · exact hp.elim
    · rw [Nat.zero_add, ← h.waiting m]
      exact hp
  · intro hp
    refine .inr ⟨i, (Nat.zero_add i).symm, ?_⟩
    rw [h.waiting i]
    exact hp

end

section

variable {c : Calls π} {inputs : Nat → List π} {queues : List (List π)}

variable {s : State π} {o : Oldest π}

theorem mainLoop_last (hfeeds : Feeds s.slots queues) (hscan : (scan c 0 none s.slots).2 = none)
    (i : Nat) : queues.getD i [] = [] := by
  have hnone : IsOldest c _ none := hscan ▸ scan_oldest hfeeds
  cases hq : queues.getD i [] with
  | nil => rfl
  | cons p rest => exact absurd (congrArg List.head? hq) (hnone i p)

theorem mainLoop_take (hfeeds : Feeds s.slots queues)
    (hmerging : Merging c.getErfTimestamp inputs (fun i => queues.getD i []) s.written)
    (hscan : (scan c 0 none s.slots).2 = some o) :
    ∃ rest, queues[o.index]? = some (o.packet :: rest) ∧
      Feeds (release o.index (scan c 0 none s.slots).1) (queues.set o.index rest) ∧
      Merging c.getErfTimestamp inputs (fun i => (queues.set o.index rest).getD i [])
        (s.written ++ [(o.index, o.packet)]) := by
  obtain ⟨hhead, -, hleast⟩ : IsOldest c _ (some o) := hscan ▸ scan_oldest hfeeds
  obtain ⟨rest, hrest⟩ := getElem?_of_head hhead
  have hlt : o.index < queues.length := (List.getElem?_eq_some_iff.mp hrest).1
  refine ⟨rest, hrest, ?_, ?_⟩
  · rw [scan_slots]
    exact hfeeds.release hrest
  · rw [getD_set hlt rest]
    refine hmerging.take ?_ fun i q qs hi => hleast i q ?_
    · rw [List.getD_eq_getElem?_getD, hrest]
      rfl
    · exact congrArg List.head? hi

end

end Libtrace.TraceMerge
