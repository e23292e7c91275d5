/-!
# Query trees

A search string is read as a tree.  Each node says how its parts combine and holds two
kinds of part: terms, which are words or whole phrases, and further nodes.

Trees grow as deep as the input has open parentheses, so the functions that run over a whole
tree keep a list of the nodes still to visit instead of calling themselves on each child.

## Main definitions

* `Occur` — how the parts of a node combine.
* `Query` — the tree; `Query.isEmpty` for a node without parts.
* `Query.size`, `Query.height` — the number of nodes and of levels, by recursion on the tree.
* `Query.visit` — a fold over the nodes in preorder, each with its level.
* `Query.depth` — the number of levels, by a loop that visits the last subquery of a node first.
* `Query.pushTerm`, `Query.pushSubquery`, `Query.wrap`, `Query.detachLast?` — building and
  taking apart.
-/

namespace BooleanSearch

/-- How the parts of a node combine. -/
inductive Occur
  /-- Every term and every subquery has to match. -/
  | must
  /-- One matching term or subquery is enough. -/
  | should
  deriving DecidableEq, Repr, Inhabited

/-- The word that stands for the requirement in every rendering. -/
def Occur.text : Occur → String
  | .must => "MUST"
  | .should => "SHOULD"

/-- The requirement that a word stands for. -/
def Occur.ofText? : String → Option Occur
  | "MUST" => some .must
  | "SHOULD" => some .should
  | _ => none

@[simp] theorem Occur.ofText?_text (o : Occur) : Occur.ofText? o.text = some o := by
  cases o <;> rfl

/-- A node of a query tree, with everything below it. -/
structure Query where
  /-- How the parts of the node combine. -/
  occur : Occur := .must
  /-- The words and phrases of the node, in input order. -/
  terms : List String := []
  /-- The nodes below this one, in input order. -/
  subqueries : List Query := []
  deriving Inhabited

namespace Query

/-- A node is empty when it has neither terms nor subqueries. -/
def isEmpty (q : Query) : Bool :=
  q.terms.isEmpty && q.subqueries.isEmpty

mutual

/-- The number of nodes of a tree. -/
def size : Query → Nat
  | ⟨_, _, subs⟩ => 1 + sizeAll subs

/-- The number of nodes of a list of trees. -/
def sizeAll : List Query → Nat
  | [] => 0
  | q :: qs => q.size + sizeAll qs

end

theorem size_eq (q : Query) : q.size = 1 + sizeAll q.subqueries := by
  cases q; rfl

@[simp] theorem sizeAll_nil : sizeAll [] = 0 := rfl

@[simp] theorem sizeAll_cons (q : Query) (qs : List Query) :
    sizeAll (q :: qs) = q.size + sizeAll qs := rfl

@[simp] theorem sizeAll_append (qs rs : List Query) :
    sizeAll (qs ++ rs) = sizeAll qs + sizeAll rs := by
  induction qs with
  | nil => simp
  | cons q qs ih => simp [ih, Nat.add_assoc]

@[simp] theorem sizeAll_reverse (qs : List Query) : sizeAll qs.reverse = sizeAll qs := by
  induction qs with
  | nil => rfl
  | cons q qs ih => simp [ih, Nat.add_comm]

mutual

/-- The number of levels of a tree: one for the node itself and those of its tallest
subquery. -/
def height : Query → Nat
  | ⟨_, _, subs⟩ => 1 + heightAll subs

/-- The number of levels of the tallest tree of a list. -/
def heightAll : List Query → Nat
  | [] => 0
  | q :: qs => max q.height (heightAll qs)

end

/-- Folds over the nodes of all pending trees in preorder.  A pending tree carries the level of
its root. -/
def visitAll {β : Type} (f : β → Nat → Query → β) (acc : β) : List (Nat × Query) → β
  | [] => acc
  | (level, q) :: rest =>
    visitAll f (f acc level q) (q.subqueries.map (fun sub => (level + 1, sub)) ++ rest)
termination_by work => sizeAll (work.map Prod.snd)
decreasing_by
  simp [size_eq, Function.comp_def]

/-- Folds over the nodes of a tree in preorder.  The root has level zero. -/
def visit {β : Type} (f : β → Nat → Query → β) (init : β) (q : Query) : β :=
  visitAll f init [(0, q)]

/-- The greatest of the levels seen so far and those of all nodes of the pending trees.  A pending
tree carries the level of its root, and the last subquery of a node is visited first. -/
def depthAll (deepest : Nat) : List (Nat × Query) → Nat
  | [] => deepest
  | (level, q) :: rest =>
    depthAll (max deepest level)
      (q.subqueries.reverse.map (fun sub => (level + 1, sub)) ++ rest)
termination_by work => sizeAll (work.map Prod.snd)
decreasing_by
  simp [size_eq, Function.comp_def]

/-- The number of levels of a tree, where the root is on the first. -/
def depth (q : Query) : Nat :=
  depthAll 0 [(1, q)]

/-- Adds a term after the others. -/
def pushTerm (q : Query) (term : String) : Query :=
  { q with terms := q.terms ++ [term] }

/-- Adds a subquery after the others. -/
def pushSubquery (q sub : Query) : Query :=
  { q with subqueries := q.subqueries ++ [sub] }

/-- A tree of `n` more levels: each new node has the requirement `o` and the tree so far as its
only subquery. -/
def wrap (o : Occur) : Nat → Query → Query
  | 0, q => q
  | n + 1, q => wrap o n { occur := o, subqueries := [q] }

/-- The tree without its last subquery, and that subquery. -/
def detachLast? (q : Query) : Option (Query × Query) :=
  q.subqueries.getLast?.map fun last =>
    ({ q with subqueries := q.subqueries.dropLast }, last)

end Query

end BooleanSearch
