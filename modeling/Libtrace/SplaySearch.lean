import Libtrace.SplayTree

/-! `splay_search_tree` keeps all nodes of a search tree in their order. -/

namespace Libtrace.SplayTree

variable {κ ν σ : Type}

structure Orders (cmp : κ → κ → Int) : Prop where
  zero_iff : ∀ a b, cmp a b = 0 ↔ a = b
  swap : ∀ a b, cmp a b < 0 ↔ 0 < cmp b a
  trans : ∀ a b c, cmp a b < 0 → cmp b c < 0 → cmp a c < 0

def Splay.inorder : Splay κ ν → List (Entry κ ν)
  | .null => []
  | .node left e right => left.inorder ++ e :: right.inorder

def Sorted (cmp : κ → κ → Int) (tree : Splay κ ν) : Prop :=
  tree.inorder.Pairwise fun a b => cmp a.key b.key < 0

section

variable (cmp : κ → κ → Int) (key : κ)

theorem search_inorder (tree : Splay κ ν) : (search cmp key tree).inorder = tree.inorder := by
  fun_induction search cmp key tree with
  | case1 => rfl
  | case2 => rfl
  | case3 => simp only [Splay.inorder, List.append_assoc, List.cons_append]
  | case4 e right _ a y b _ ih =>
    rw [ih]
    simp only [Splay.inorder, List.append_assoc, List.cons_append]
  | case5 => rfl
  | case6 => simp only [Splay.inorder, List.append_assoc, List.cons_append]
  | case7 left e _ _ a y b _ ih =>
    rw [ih]
    simp only [Splay.inorder, List.append_assoc, List.cons_append]
  | case8 => rfl

variable {cmp key} {a b left right : Splay κ ν} {e y : Entry κ ν}

theorem search_here (h : cmp key e.key = 0) :
    search cmp key (.node left e right) = .node left e right := by
  rw [search.eq_def]
  dsimp only
  rw [if_neg (by omega), if_neg (by omega)]

theorem search_leftmost (h : cmp key e.key < 0) :
    search cmp key (.node .null e right) = .node .null e right := by
  rw [search.eq_def]
  exact if_pos h

theorem search_rightmost (h : cmp key e.key > 0) :
    search cmp key (.node left e .null) = .node left e .null := by
  rw [search.eq_def]
  dsimp only
  rw [if_neg (by omega), if_pos h]

end

section

variable {cmp : κ → κ → Int}

theorem mem_of_root {tree : Splay κ ν} {x : Entry κ ν} (h : tree.root = some x) :
    x ∈ tree.inorder := by
  cases tree with
  | null => cases h
  | node left e right =>
    obtain rfl := Option.some.inj h
    exact List.mem_append.mpr (.inr List.mem_cons_self)

theorem less_iff {a b : Option (Entry κ ν)} :
    less cmp a b = true ↔ ∀ x y, a = some x → b = some y → cmp x.key y.key < 0 := by
  constructor
  · rintro h x y rfl rfl
    exact of_decide_eq_true h
  · intro h
    cases a with
    | none => rfl
    | some a =>
      cases b with
      | none => rfl
      | some b => exact decide_eq_true (h a b rfl rfl)

theorem ordered_of_sorted {tree : Splay κ ν} (h : Sorted cmp tree) : ordered cmp tree = true := by
  induction tree with
  | null => rfl
  | node left e right ihl ihr =>
    obtain ⟨hleft, hright, hacross⟩ := List.pairwise_append.mp h
    obtain ⟨hbehind, hright⟩ := List.pairwise_cons.mp hright
    simp only [ordered, Bool.and_eq_true, less_iff]
    refine ⟨⟨⟨⟨?_, ?_⟩, ?_⟩, ihl hleft⟩, ihr hright⟩
    · intro x y hx hy
      obtain rfl := Option.some.inj hy
      exact hacross x (mem_of_root hx) e List.mem_cons_self
    · intro x y hx hy
      obtain rfl := Option.some.inj hx
      exact hbehind y (mem_of_root hy)
    · intro x y hx hy
      exact hacross x (mem_of_root hx) y (List.mem_cons_of_mem e (mem_of_root hy))

theorem assertTree_of_sorted {tree : Splay κ ν} (h : Sorted cmp tree) :
    assertTree cmp tree = .ok () := if_pos (ordered_of_sorted h)

/-- A lookup returns a search tree with the same nodes in the same order. -/
theorem splaySearchTree_rotates (cmp : κ → κ → Int) (tree : Splay κ ν) (h : Sorted cmp tree)
    (key : κ) : ∃ tree', splaySearchTree cmp key tree = .ok tree' ∧
      tree'.inorder = tree.inorder ∧ Sorted cmp tree' := by
  have hinorder := search_inorder cmp key tree
  have hsorted : Sorted cmp (search cmp key tree) := by rwa [Sorted, hinorder]
  refine ⟨search cmp key tree, ?_, hinorder, hsorted⟩
  rw [splaySearchTree, assertTree_of_sorted h, assertTree_of_sorted hsorted]
  rfl

def difference (a b : Int) : Int := a - b

def zigzag : Splay Int Unit :=
  .node (.node .null ⟨1, ()⟩ (.node .null ⟨2, ()⟩ .null)) ⟨3, ()⟩ .null

theorem zigzag_rotates : ∃ tree', splaySearchTree difference 2 zigzag = .ok tree' ∧
    tree'.inorder = [⟨1, ()⟩, ⟨2, ()⟩, ⟨3, ()⟩] ∧ Sorted difference tree' :=
  splaySearchTree_rotates difference zigzag (by unfold Sorted; decide) 2

end

end Libtrace.SplayTree
