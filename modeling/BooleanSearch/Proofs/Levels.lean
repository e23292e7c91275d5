import BooleanSearch.Proofs.Subtrees
import Mathlib.Data.List.Basic

/-!
# The levels of a tree

The subtrees of a tree in preorder, each with the level of its root.  A fold over a tree that keeps
a list of the nodes still to visit is a fold over this list.

## Main definitions

* `Query.levelled` — the subtrees in preorder with their levels.

## Main results

* `Query.map_snd_levelled` — without the levels these are the subtrees.
* `Query.visit_eq_foldl` — `Query.visit` is a fold over the list.
-/

namespace BooleanSearch

namespace Query

mutual

/-- The subtrees of a tree in preorder, each with its level, where the tree itself has the given
one. -/
def levelled (level : Nat) : Query → List (Nat × Query)
  | ⟨o, terms, subs⟩ => (level, ⟨o, terms, subs⟩) :: levelledAll (level + 1) subs

/-- The subtrees of neighbouring trees with their levels. -/
def levelledAll (level : Nat) : List Query → List (Nat × Query)
  | [] => []
  | q :: qs => q.levelled level ++ levelledAll level qs

end

theorem levelledAll_eq_flatMap (level : Nat) (qs : List Query) :
    levelledAll level qs = qs.flatMap (levelled level) := by
  induction qs with
  | nil => rfl
  | cons q qs ih => rw [levelledAll, List.flatMap_cons, ih]

theorem levelled_eq (level : Nat) (q : Query) :
    q.levelled level = (level, q) :: q.subqueries.flatMap (levelled (level + 1)) := by
  rw [← levelledAll_eq_flatMap]
  cases q
  rfl

theorem subtreesAll_eq_flatMap (qs : List Query) : subtreesAll qs = qs.flatMap subtrees := by
  induction qs with
  | nil => rfl
  | cons q qs ih => rw [subtreesAll_cons, List.flatMap_cons, ih]

/-- Without the levels these are the subtrees. -/
theorem map_snd_levelled (q : Query) : ∀ level, (q.levelled level).map Prod.snd = q.subtrees := by
  induction q using Query.induction with
  | node q ih =>
    intro level
    rw [levelled_eq, List.map_cons, List.map_flatMap, subtrees_eq, subtreesAll_eq_flatMap]
    congr 1
    exact List.flatMap_congr fun sub hsub => ih sub hsub (level + 1)

section Visit

variable {β : Type} (f : β → Nat → Query → β)

/-- The fold over pending trees takes their subtrees in order. -/
theorem visitAll_eq_foldl (acc : β) (work : List (Nat × Query)) :
    visitAll f acc work
      = (work.flatMap fun p => p.2.levelled p.1).foldl (fun acc p => f acc p.1 p.2) acc := by
  fun_induction visitAll f acc work with
  | case1 acc => rfl
  | case2 acc level q rest ih =>
    -- the recursion is on the subqueries with the fact that they are such
    have hattach : (q.subqueries.attach.map fun sub => (level + 1, sub.1))
        = q.subqueries.map fun sub => (level + 1, sub) := List.attach_map_val
    have hstep : visitAll f (f acc level q) (q.subqueries.map (fun sub => (level + 1, sub)) ++ rest)
        = ((q.subqueries.map (fun sub => (level + 1, sub)) ++ rest).flatMap
            fun p => p.2.levelled p.1).foldl (fun acc p => f acc p.1 p.2) (f acc level q) := by
      rw [← hattach]
      exact ih
    rw [hstep, List.flatMap_append, List.flatMap_map, List.flatMap_cons, levelled_eq,
      List.cons_append, List.foldl_cons]

/-- The fold over a tree takes the subtrees in order. -/
theorem visit_eq_foldl (init : β) (q : Query) :
    q.visit f init = (q.levelled 0).foldl (fun acc p => f acc p.1 p.2) init := by
  rw [visit, visitAll_eq_foldl, List.flatMap_singleton]

end Visit

end Query

end BooleanSearch
