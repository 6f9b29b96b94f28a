import Mathlib.Data.List.Basic

/-! `contain.c` and the macros of `contain.h`: a splay tree, and the map that is built on it. -/

namespace Libtrace.SplayTree

variable {κ ν σ : Type}

structure Entry (κ ν : Type) where
  key : κ
  value : ν
  deriving DecidableEq, Repr

inductive Splay (κ ν : Type) where
  | null
  | node (left : Splay κ ν) (entry : Entry κ ν) (right : Splay κ ν)
  deriving DecidableEq, Repr

inductive Fault where
  | assertion
  deriving DecidableEq, Repr

def Splay.root : Splay κ ν → Option (Entry κ ν)
  | .null => none
  | .node _ e _ => some e

def Splay.size : Splay κ ν → Nat
  | .null => 0
  | .node left _ right => left.size + right.size + 1

section

variable (cmp : κ → κ → Int)

def less (a b : Option (Entry κ ν)) : Bool :=
  match a, b with
  | some a, some b => cmp a.key b.key < 0
  | _, _ => true

def ordered : Splay κ ν → Bool
  | .null => true
  | .node left e right =>
    less cmp left.root (some e) && less cmp (some e) right.root && less cmp left.root right.root &&
      ordered left && ordered right

def assertTree (tree : Splay κ ν) : Except Fault Unit :=
  if ordered cmp tree then .ok () else .error .assertion

def remaining (key : κ) : Splay κ ν → Nat
  | .null => 0
  | .node left e right =>
    if cmp key e.key < 0 then left.size + 1
    else if cmp key e.key > 0 then right.size + 1
    else 0

def search (key : κ) : Splay κ ν → Splay κ ν
  | .null => .null
  | .node left e right =>
    if cmp key e.key < 0 then
      match left with
      | .null => .node .null e right
      | .node a y b =>
        -- rotate right
        if cmp key y.key > 0 then .node a y (.node b e right)
        else search key (.node a y (.node b e right))
    else if cmp key e.key > 0 then
      match right with
      | .null => .node left e .null
      | .node a y b =>
        -- rotate left
        if cmp key y.key < 0 then .node (.node left e a) y b
        else search key (.node (.node left e a) y b)
    else .node left e right
termination_by tree => remaining cmp key tree
decreasing_by
  all_goals
    simp only [remaining, Splay.size]
    split_ifs <;> omega

def splaySearchTree (key : κ) (tree : Splay κ ν) : Except Fault (Splay κ ν) := do
  assertTree cmp tree
  assertTree cmp (search cmp key tree)
  return search cmp key tree

/-- What comes back from a child takes the place of the whole tree. -/
def splayInsert (new : Entry κ ν) : Splay κ ν → Except Fault (Splay κ ν)
  | .null => .ok (.node .null new .null)
  | .node left e right => do
    assertTree cmp (.node left e right)
    let tree ← (if cmp new.key e.key < 0 then splayInsert new left
      else if cmp new.key e.key > 0 then splayInsert new right
      else .ok (.node left new right) : Except Fault (Splay κ ν))
    assertTree cmp tree
    return tree

end

def splayVisit (pre inorder post : Option (Entry κ ν → σ → σ)) : Splay κ ν → σ → σ
  | .null, s => s
  | .node left e right, s =>
    let call (visitor : Option (Entry κ ν → σ → σ)) (s : σ) : σ := visitor.elim s (· e s)
    let s := splayVisit pre inorder post left (call pre s)
    let s := splayVisit pre inorder post right (call inorder s)
    call post s

section

variable (cmp : κ → κ → Int)

def mapInsert (key : κ) (value : ν) (map : Splay κ ν) : Except Fault (Splay κ ν) :=
  splayInsert cmp ⟨key, value⟩ map

def mapFind (key : κ) (map : Splay κ ν) : Except Fault (Option (Entry κ ν) × Splay κ ν) := do
  let map ← splaySearchTree cmp key map
  return (map.root.filter fun e => cmp e.key key = 0, map)

inductive Op (κ ν : Type) where
  | insert (key : κ) (value : ν)
  | find (key : κ)

def step (map : Splay κ ν) : Op κ ν → Except Fault (Splay κ ν)
  | .insert key value => mapInsert cmp key value map
  | .find key => Prod.snd <$> mapFind cmp key map

def run (ops : List (Op κ ν)) : Except Fault (Splay κ ν) := ops.foldlM (step cmp) .null

end

end Libtrace.SplayTree
