import BooleanSearch.Proofs.CompactForm
import BooleanSearch.Proofs.OutlineForm

/-!
# The forms of a tree by recursion

Both forms of a tree are written from a list of what is still to be written, so that deep trees do
no harm.  What such a list stands for is the text of its entries, one after the other, and the text
of an entry is told by recursion on its tree.  To write an entry replaces it by others that stand
for the rest of its text, so a list is written as the text that it stands for.

## Main definitions

* `Query.outlineText` — the outline form by recursion on the tree, from a given level on.

## Main results

* `Query.visitAll_writeNode` — what a list of pending trees is written as.
* `renderings_by_recursion` — **both forms are those that recursion on the tree gives.**
-/

namespace BooleanSearch

namespace Query

mutual

/-- The outline form of a tree whose root has the given level, by recursion.  There are two spaces
for each level in front of a line. -/
def outlineText (level : Nat) : Query → String
  | ⟨o, terms, subs⟩ =>
    String.ofList (List.replicate (2 * level) ' ') ++ o.text ++ "\n"
      ++ String.join (terms.map fun term =>
        String.ofList (List.replicate (2 * (level + 1)) ' ') ++ quoted term ++ "\n")
      ++ String.join (outlineTexts (level + 1) subs)

/-- The outline forms of some trees whose roots have the given level. -/
def outlineTexts (level : Nat) : List Query → List String
  | [] => []
  | q :: qs => q.outlineText level :: outlineTexts level qs

end

theorem outlineTexts_eq_map (level : Nat) (qs : List Query) :
    outlineTexts level qs = qs.map (outlineText level) := by
  induction qs with
  | nil => rfl
  | cons q qs ih => rw [outlineTexts, List.map_cons, ih]

/-- The spaces in front of a line are those of `Query.indent`. -/
theorem outlineText_eq (level : Nat) (q : Query) :
    q.outlineText level = indent level ++ q.occur.text ++ "\n"
      ++ String.join (q.terms.map fun term => indent (level + 1) ++ quoted term ++ "\n")
      ++ String.join (q.subqueries.map (outlineText (level + 1))) := by
  rw [← outlineTexts_eq_map]
  cases q
  rfl

/-- Writes the lines of a node by itself. -/
def writeNode (out : String) (level : Nat) (q : Query) : String :=
  (nodeLines level q).foldl (fun out line => out ++ line ++ "\n") out

theorem writeNode_eq (out : String) (level : Nat) (q : Query) :
    q.writeNode out level = out ++ (indent level ++ q.occur.text ++ "\n"
      ++ String.join (q.terms.map fun term => indent (level + 1) ++ quoted term ++ "\n")) := by
  have hline : ∀ line ∈ nodeLines level q, ∀ out : String,
      out ++ line ++ "\n" = out ++ (line ++ "\n") :=
    fun line _ out => String.append_assoc
  rw [writeNode, foldl_eq_append_join hline, nodeLines, List.map_cons, String.join_cons,
    List.map_map]
  rfl

/-- The subtrees of a tree, written in preorder, make the recursive form. -/
theorem foldl_levelled_writeNode (q : Query) : ∀ (level : Nat) (out : String),
    (q.levelled level).foldl (fun out p => p.2.writeNode out p.1) out
      = out ++ q.outlineText level := by
  induction q using Query.induction with
  | node q ih =>
    intro level out
    rw [levelled_eq, List.foldl_cons, List.foldl_flatMap,
      foldl_eq_append_join (fun sub hsub => ih sub hsub (level + 1)), writeNode_eq,
      outlineText_eq, String.append_assoc]

/-- A list of pending trees is written as the forms of the trees, each at its level. -/
theorem visitAll_writeNode (out : String) (work : List (Nat × Query)) :
    visitAll (fun out level q => q.writeNode out level) out work
      = out ++ String.join (work.map fun p => p.2.outlineText p.1) := by
  rw [visitAll_eq_foldl, List.foldl_flatMap]
  exact foldl_eq_append_join (fun p _ => p.2.foldl_levelled_writeNode p.1) out

/-- The work list writes the recursive form. -/
theorem outline_eq (q : Query) : q.outline = q.outlineText 0 := by
  have hvisit : q.outline = visitAll (fun out level q => q.writeNode out level) "" [(0, q)] := rfl
  rw [hvisit, visitAll_writeNode, List.map_singleton, String.join_cons, String.join_nil,
    String.append_empty, String.empty_append]

end Query

/-- **Both forms of a tree are those that recursion on the tree gives.**  The compact form of a node
holds those of its subqueries, separated by commas.  The outline of a node is a line for its
requirement, a line for each term, one level deeper, and the outlines of its subqueries, also one
level deeper. -/
theorem renderings_by_recursion (q : Query) :
    q.compact = q.compactText ∧ q.outline = q.outlineText 0 :=
  ⟨q.compact_eq, q.outline_eq⟩

/-- Neighbours of a nested node are separated by commas, and a node may have terms and subqueries
both. -/
example :
    Query.compact ⟨.must, ["a", "b"], [⟨.should, ["c"], [{}]⟩, {}]⟩
      = "\x7bOccur:MUST, Terms:[\"a\",\"b\"], SubQueries:[\x7bOccur:SHOULD, Terms:[\"c\"], " ++
          "SubQueries:[\x7bOccur:MUST\x7d]\x7d,\x7bOccur:MUST\x7d]\x7d" ∧
      Query.outline ⟨.must, ["a", "b"], [⟨.should, ["c"], [{}]⟩, {}]⟩
      = "MUST\n  \"a\"\n  \"b\"\n  SHOULD\n    \"c\"\n    MUST\n  MUST\n" := by
  decide +kernel

end BooleanSearch
