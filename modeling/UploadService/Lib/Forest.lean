import Mathlib.Data.List.Basic

/-!
# Forests

A forest is a list of trees, as first child and next sibling: a node, the forest of its children
and the forest of the trees after it. A depth-first search looks at a node, then below it, then at
what stands after it.

Main results:

- `search_eq_find?`: the depth-first search is the first hit of the preorder list;
- `roots_sublist`: the roots stand in the preorder list, in their order;
- `preorder_addRoot`, `roots_addRoot`: a tree of one node put at the end comes last in both.
-/

inductive Forest (α : Type) where
  | nil
  | cons (node : α) (children rest : Forest α)
  deriving DecidableEq, Repr

namespace Forest

variable {α : Type}

/-- The nodes at the top. -/
def roots : Forest α → List α
  | nil => []
  | cons node _ rest => node :: rest.roots

/-- Every node, a node before what is below it. -/
def preorder : Forest α → List α
  | nil => []
  | cons node children rest => node :: (children.preorder ++ rest.preorder)

/-- The node that a depth-first search meets first. -/
def search (p : α → Bool) : Forest α → Option α
  | nil => none
  | cons node children rest =>
      if p node then some node else (children.search p).or (rest.search p)

/-- A tree of one node after the trees that are there. -/
def addRoot : Forest α → α → Forest α
  | nil, new => cons new nil nil
  | cons node children rest, new => cons node children (rest.addRoot new)

def addRoots (f : Forest α) (new : List α) : Forest α := new.foldl addRoot f

/-- **Main result.** Searching depth first is looking through the preorder list. -/
theorem search_eq_find? (p : α → Bool) (f : Forest α) : f.search p = f.preorder.find? p := by
  induction f with
  | nil => rfl
  | cons node children rest ihc ihr =>
      unfold search preorder
      rw [List.find?_cons, List.find?_append, ihc, ihr]
      cases p node <;> rfl

theorem roots_sublist (f : Forest α) : f.roots.Sublist f.preorder := by
  induction f with
  | nil => exact List.Sublist.refl []
  | cons node children rest _ ihr =>
      apply List.Sublist.cons_cons
      exact ihr.trans (List.sublist_append_right children.preorder rest.preorder)

theorem mem_preorder_of_root {f : Forest α} {a : α} (h : a ∈ f.roots) : a ∈ f.preorder :=
  f.roots_sublist.subset h

theorem preorder_addRoot (f : Forest α) (new : α) :
    (f.addRoot new).preorder = f.preorder ++ [new] := by
  induction f with
  | nil => rfl
  | cons node children rest _ ihr =>
      unfold addRoot preorder
      rw [ihr, List.cons_append, List.append_assoc]

theorem roots_addRoot (f : Forest α) (new : α) : (f.addRoot new).roots = f.roots ++ [new] := by
  induction f with
  | nil => rfl
  | cons node children rest _ ihr =>
      unfold addRoot roots
      rw [ihr, List.cons_append]

end Forest
