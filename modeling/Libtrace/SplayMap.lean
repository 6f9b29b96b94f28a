import Libtrace.SplaySearch
import Mathlib.Data.List.Induction

/-! The map of `contain.h`. `splay_insert` drops everything above the subtree it gives back, so a
map holds the last key that was inserted and no other. -/

namespace Libtrace.SplayTree

variable {κ ν : Type}

section

def Inserted (ops : List (Op κ ν)) (key : κ) : Prop := ∃ value, Op.insert key value ∈ ops

def Latest (ops : List (Op κ ν)) (key : κ) (value : ν) : Prop :=
  ∃ before after, ops = before ++ .insert key value :: after ∧ ¬ Inserted after key

def visited (map : Splay κ ν) : List (Entry κ ν) :=
  splayVisit none (some fun e seen => seen ++ [e]) none map []

/-- The keys that were inserted are found, with their latest values, and nothing else; a visit goes
through them in increasing order. -/
structure Behaves (cmp : κ → κ → Int) (ops : List (Op κ ν)) (map : Splay κ ν) : Prop where
  ends : run cmp ops = .ok map
  finds : ∀ key, ∃ found map', mapFind cmp key map = .ok (found, map') ∧
    (found.isSome = true ↔ Inserted ops key) ∧
    ∀ e, found = some e → e.key = key ∧ Latest ops key e.value
  increasing : (visited map).Pairwise fun a b => cmp a.key b.key < 0
  visits : ∀ key, (∃ e ∈ visited map, e.key = key) ↔ Inserted ops key

def lastEntry (ops : List (Op κ ν)) : Option (Entry κ ν) :=
  ops.foldl (fun last op => match op with
    | .insert key value => some ⟨key, value⟩
    | .find _ => last) none

theorem lastEntry_insert (ops : List (Op κ ν)) (key : κ) (value : ν) :
    lastEntry (ops ++ [.insert key value]) = some ⟨key, value⟩ := by
  rw [lastEntry, List.foldl_append]
  rfl

theorem lastEntry_find (ops : List (Op κ ν)) (key : κ) :
    lastEntry (ops ++ [.find key]) = lastEntry ops := by
  rw [lastEntry, List.foldl_append]
  rfl

variable {ops : List (Op κ ν)}

theorem inserted_append {ops' : List (Op κ ν)} {key : κ} :
    Inserted (ops ++ ops') key ↔ Inserted ops key ∨ Inserted ops' key := by
  simp only [Inserted, List.mem_append, exists_or]

theorem not_inserted_find (key key' : κ) : ¬ Inserted ([.find key] : List (Op κ ν)) key' := by
  rintro ⟨value, h⟩
  cases List.mem_singleton.mp h

theorem not_inserted_nil (key : κ) : ¬ Inserted ([] : List (Op κ ν)) key :=
  fun ⟨_, h⟩ => List.not_mem_nil h

theorem Latest.inserted {key : κ} {value : ν} (h : Latest ops key value) : Inserted ops key := by
  obtain ⟨before, after, rfl, -⟩ := h
  exact ⟨value, List.mem_append.mpr (.inr List.mem_cons_self)⟩

theorem not_inserted_of_none (h : lastEntry ops = none) (key : κ) : ¬ Inserted ops key := by
  induction ops using List.reverseRecOn with
  | nil => exact not_inserted_nil key
  | append_singleton ops op ih =>
    cases op with
    | insert key' value =>
      rw [lastEntry_insert] at h
      cases h
    | find key' =>
      rw [lastEntry_find] at h
      rw [inserted_append, or_iff_left (not_inserted_find key' key)]
      exact ih h

theorem latest_of_some {e : Entry κ ν} (h : lastEntry ops = some e) : Latest ops e.key e.value := by
  induction ops using List.reverseRecOn with
  | nil => cases h
  | append_singleton ops op ih =>
    cases op with
    | insert key value =>
      rw [lastEntry_insert] at h
      obtain rfl := Option.some.inj h
      exact ⟨ops, [], rfl, not_inserted_nil key⟩
    | find key =>
      rw [lastEntry_find] at h
      obtain ⟨before, after, rfl, hafter⟩ := ih h
      refine ⟨before, after ++ [.find key], by rw [List.append_assoc, List.cons_append], ?_⟩
      rw [inserted_append, or_iff_left (not_inserted_find key e.key)]
      exact hafter

end

section

variable (cmp : κ → κ → Int)

def single : Option (Entry κ ν) → Splay κ ν
  | none => .null
  | some e => .node .null e .null

theorem search_single (key : κ) (x : Option (Entry κ ν)) :
    search cmp key (single x) = single x := by
  cases x with
  | none => rw [single, search]
  | some e =>
    obtain h | h | h := Int.lt_trichotomy (cmp key e.key) 0
    · exact search_leftmost h
    · exact search_here h
    · exact search_rightmost h

theorem assertTree_single (x : Option (Entry κ ν)) : assertTree cmp (single x) = .ok () := by
  cases x <;> rfl

theorem mapFind_single (key : κ) (x : Option (Entry κ ν)) :
    mapFind cmp key (single x) = .ok (x.filter fun e => cmp e.key key = 0, single x) := by
  have hroot : (single x).root = x := by cases x <;> rfl
  rw [mapFind, splaySearchTree, search_single, assertTree_single]
  change Except.ok ((single x).root.filter _, single x) = _
  rw [hroot]

theorem mapInsert_single (key : κ) (value : ν) (x : Option (Entry κ ν)) :
    mapInsert cmp key value (single x) = .ok (single (some ⟨key, value⟩)) := by
  cases x with
  | none => rfl
  | some e =>
    have hassert := assertTree_single cmp (some e)
    have hassert' := assertTree_single cmp (some (⟨key, value⟩ : Entry κ ν))
    rw [single] at hassert hassert' ⊢
    rw [mapInsert, splayInsert, hassert]
    have hleaf : splayInsert cmp (⟨key, value⟩ : Entry κ ν) .null =
        .ok (.node .null ⟨key, value⟩ .null) := rfl
    rw [hleaf, ite_self, ite_self]
    exact congrArg (· >>= fun _ => _) hassert'

theorem run_single (ops : List (Op κ ν)) : run cmp ops = .ok (single (lastEntry ops)) := by
  induction ops using List.reverseRecOn with
  | nil => rfl
  | append_singleton ops op ih =>
    rw [run] at ih
    rw [run, List.foldlM_append, ih]
    change List.foldlM (step cmp) (single (lastEntry ops)) [op] = _
    rw [List.foldlM_cons]
    cases op with
    | insert key value =>
      rw [lastEntry_insert, step, mapInsert_single]
      rfl
    | find key =>
      rw [lastEntry_find, step, mapFind_single]
      rfl

theorem visited_single (x : Option (Entry κ ν)) : visited (single x) = x.toList := by
  cases x <;> rfl

end

/-- The map is right after a run exactly if all inserted keys are the same. -/
theorem run_behaves_iff (cmp : κ → κ → Int) (hcmp : Orders cmp) (ops : List (Op κ ν)) :
    (∃ map, Behaves cmp ops map) ↔
      ∀ key key', Inserted ops key → Inserted ops key' → key = key' := by
  constructor
  · rintro ⟨map, hmap⟩ key key' hkey hkey'
    obtain rfl := Except.ok.inj (hmap.ends.symm.trans (run_single cmp ops))
    obtain ⟨e, he, rfl⟩ := (hmap.visits key).mpr hkey
    obtain ⟨e', he', rfl⟩ := (hmap.visits key').mpr hkey'
    rw [visited_single, Option.mem_toList] at he he'
    rw [Option.mem_unique he he']
  · intro hsame
    refine ⟨single (lastEntry ops), run_single cmp ops, fun key => ?_, ?_, fun key => ?_⟩
    · refine ⟨_, _, mapFind_single cmp key (lastEntry ops), ?_⟩
      cases hlast : lastEntry ops with
      | none =>
        exact ⟨iff_of_false (fun h => Bool.false_ne_true h) (not_inserted_of_none hlast key),
          fun e h => absurd h.symm (Option.some_ne_none e)⟩
      | some e =>
        have hlatest := latest_of_some hlast
        by_cases hkey : e.key = key
        · subst hkey
          have hzero : cmp e.key e.key = 0 := (hcmp.zero_iff _ _).mpr rfl
          rw [Option.filter_some, if_pos (decide_eq_true hzero)]
          refine ⟨iff_of_true rfl hlatest.inserted, fun x hx => ?_⟩
          obtain rfl := Option.some.inj hx
          exact ⟨rfl, hlatest⟩
        · have hzero : cmp e.key key ≠ 0 := fun h => hkey ((hcmp.zero_iff _ _).mp h)
          rw [Option.filter_some, if_neg (fun h => hzero (of_decide_eq_true h))]
          exact ⟨iff_of_false (fun h => Bool.false_ne_true h)
            fun h => hkey (hsame _ _ hlatest.inserted h),
            fun x hx => absurd hx.symm (Option.some_ne_none x)⟩
    · rw [visited_single]
      cases lastEntry ops with
      | none => exact List.Pairwise.nil
      | some e => exact List.pairwise_singleton _ e
    · rw [visited_single]
      cases hlast : lastEntry ops with
      | none =>
        exact iff_of_false (fun ⟨e, he, _⟩ => List.not_mem_nil he) (not_inserted_of_none hlast key)
      | some e =>
        have hinserted := (latest_of_some hlast).inserted
        constructor
        · rintro ⟨x, hx, rfl⟩
          obtain rfl := List.mem_singleton.mp hx
          exact hinserted
        · exact fun h => ⟨e, List.mem_singleton.mpr rfl, hsame _ _ hinserted h⟩

theorem orders_difference : Orders difference where
  zero_iff a b := Int.sub_eq_zero
  swap a b := by
    rw [difference, difference]
    omega
  trans a b c hab hbc := by
    rw [difference] at hab hbc ⊢
    omega

/-- One key, inserted twice. -/
theorem repeated_behaves : ∃ map, Behaves difference
    ([.insert 1 10, .find 1, .insert 1 20] : List (Op Int Nat)) map := by
  refine (run_behaves_iff difference orders_difference _).mpr ?_
  have hone : ∀ key, Inserted ([.insert 1 10, .find 1, .insert 1 20] : List (Op Int Nat)) key →
      key = 1 := by
    rintro key ⟨value, h⟩
    simp only [List.mem_cons, Op.insert.injEq, reduceCtorEq, List.not_mem_nil, or_false,
      false_or] at h
    omega
  exact fun key key' h h' => (hone key h).trans (hone key' h').symm

/-- A second key takes the place of the first. -/
theorem second_loses_first : ¬ ∃ map, Behaves difference
    ([.insert 1 10, .insert 2 20] : List (Op Int Nat)) map := by
  rintro ⟨map, hmap⟩
  obtain rfl := Except.ok.inj (hmap.ends.symm.trans (run_single difference _))
  obtain ⟨e, he, hkey⟩ := (hmap.visits 1).mpr ⟨10, List.mem_cons_self⟩
  obtain rfl := List.mem_singleton.mp he
  exact absurd hkey (by decide)

end Libtrace.SplayTree
