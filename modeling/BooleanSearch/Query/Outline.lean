import BooleanSearch.Query.Basic
import BooleanSearch.Text.Quoted

/-!
# Outline form

The form of a tree on several lines: one line for the requirement of a node, then one for each of
its terms, then its subqueries.  A line is indented by two spaces for each level, the terms of a
node one level deeper than the node itself, and the terms are quoted.

## Main definitions

* `Query.outline` — the outline form.
-/

namespace BooleanSearch

namespace Query

/-- The blanks before a line of the given level. -/
def indent (level : Nat) : String :=
  String.ofList (List.replicate (2 * level) ' ')

/-- The lines of a node by itself, without those of its subqueries. -/
def nodeLines (level : Nat) (q : Query) : List String :=
  (indent level ++ q.occur.text) :: q.terms.map fun term => indent (level + 1) ++ quoted term

/-- The outline form of a tree.  Every line ends in a line break. -/
def outline (q : Query) : String :=
  q.visit (fun out level node =>
    (nodeLines level node).foldl (fun out line => out ++ line ++ "\n") out) ""

end Query

end BooleanSearch
