import BooleanSearch.Proofs.Reading

/-!
# Where terms go

A term is completed by a single token, which is a word outside phrases or the quote mark that ends
a phrase.  It becomes the last term of the node under the cursor at that moment and stays there, so
the terms of a node are those completed while the cursor was on it, in the order of the tokens.

## Main definitions

* `Query.termLists` — the terms of a tree, node by node.
* `Draft.completedAt` — the terms that tokens complete for one node.
* `Spine.AddsTerm` — what a token may do to the terms of all nodes.

## Main results

* `Spine.addsTerm_step` — a token adds the term that it completes under the cursor.
* `Spine.termsAt_foldl` — the terms of each node, after some tokens.
* `parse_terms` — **the terms of a node are in the order in which they were completed.**
-/

namespace BooleanSearch

/-! ### The terms of a tree -/

namespace Query

/-- The terms of the nodes of a tree, in the order of the nodes. -/
def termLists (q : Query) : List (List String) :=
  q.subtrees.map terms

theorem termLists_eq (q : Query) :
    q.termLists = q.terms :: (subtreesAll q.subqueries).map terms := by
  rw [termLists, subtrees_eq, List.map_cons]

theorem termLists_pushSubquery (q sub : Query) :
    (q.pushSubquery sub).termLists = q.termLists ++ sub.termLists := by
  rw [termLists_eq, termLists_eq q, pushSubquery, subtreesAll_append, List.map_append]
  simp [termLists]

/-- The terms of the nodes before the one under a cursor. -/
def termListsAbove : List Query → List (List String)
  | [] => []
  | parent :: above => termListsAbove above ++ parent.termLists

theorem length_termListsAbove (above : List Query) :
    (termListsAbove above).length = sizeAll above := by
  induction above with
  | nil => rfl
  | cons parent above ih =>
    rw [termListsAbove, List.length_append, ih, termLists, List.length_map, length_subtrees,
      sizeAll_cons, Nat.add_comm]

theorem termLists_closeInto (above : List Query) :
    ∀ q : Query, (q.closeInto above).termLists = termListsAbove above ++ q.termLists := by
  induction above with
  | nil =>
    intro q
    rfl
  | cons parent above ih =>
    intro q
    rw [closeInto_cons, ih, termLists_pushSubquery, termListsAbove, List.append_assoc]

end Query

/-! ### Completed terms -/

namespace Draft

/-- The terms that tokens complete while the cursor is on the node at a place, in their order. -/
def completedAt (place : Nat) (d : Draft) : List Token → List String
  | [] => []
  | t :: ts =>
    (if d.cursor = place then (d.completed? t).toList else []) ++ completedAt place (d.step t) ts

end Draft

namespace Spine

open Query

/-- The terms of the nodes of a spine: those before the cursor, that under it, and those behind. -/
theorem termLists_tree (z : Spine) :
    z.tree.termLists
      = termListsAbove z.above ++
          z.current.terms :: (subtreesAll z.current.subqueries).map terms := by
  rw [tree, termLists_closeInto, termLists_eq]

theorem cursor_lt_length_termLists (z : Spine) : z.draft.cursor < z.tree.termLists.length := by
  rw [cursor_draft, termLists_tree, List.length_append, length_termListsAbove, List.length_cons]
  omega

/-- What a token does to the terms of all nodes: it may add one under the cursor, and it may open
nodes behind all others, which have none. -/
def AddsTerm (z z' : Spine) (term? : Option String) : Prop :=
  ∃ opened : Nat, z'.tree.termLists
    = z.tree.termLists.modify z.draft.cursor (· ++ term?.toList) ++ List.replicate opened []

theorem AddsTerm.of_opened {z z' : Spine} (opened : Nat)
    (h : z'.tree.termLists = z.tree.termLists ++ List.replicate opened []) :
    z.AddsTerm z' none := by
  have hnil : (fun terms : List String => terms ++ (none : Option String).toList) = id := by
    funext terms
    exact List.append_nil terms
  refine ⟨opened, ?_⟩
  rw [h, hnil, List.modify_id]

theorem AddsTerm.of_eq {z z' : Spine} (h : z'.tree.termLists = z.tree.termLists) :
    z.AddsTerm z' none := by
  apply AddsTerm.of_opened 0
  rw [h, List.replicate_zero, List.append_nil]

theorem addsTerm_pushTerm (z : Spine) (term : String) :
    z.AddsTerm (z.modify (·.pushTerm term)) (some term) := by
  refine ⟨0, ?_⟩
  rw [cursor_draft, ← length_termListsAbove, termLists_tree, termLists_tree, modify_append_cons,
    List.replicate_zero, List.append_nil]
  rfl

theorem addsTerm_setOccur (z : Spine) (o : Occur) : z.AddsTerm (z.modify (·.setOccur o)) none := by
  apply AddsTerm.of_eq
  rw [termLists_tree, termLists_tree]
  rfl

theorem addsTerm_descend (z : Spine) (o : Occur) : z.AddsTerm (z.descend o) none := by
  apply AddsTerm.of_opened 1
  rw [tree, tree, descend, closeInto_cons, termLists_closeInto, termLists_pushSubquery,
    termLists_closeInto, List.append_assoc]
  rfl

theorem Effect.addsTerm {z z' : Spine} {term? : Option String} (h : z.Effect term? z') :
    z.AddsTerm z' term? := by
  cases h with
  | phrase words => exact AddsTerm.of_eq rfl
  | term term words => exact z.addsTerm_pushTerm term
  | occur o => exact z.addsTerm_setOccur o
  | descend o => exact z.addsTerm_descend o
  | ascend => exact AddsTerm.of_eq (congrArg termLists z.tree_ascend)

/-- A token adds the term that it completes under the cursor. -/
theorem addsTerm_step (z : Spine) (t : Token) : z.AddsTerm (z.step t) (z.draft.completed? t) :=
  (z.effect_step t).addsTerm

/-! ### The terms of one node -/

/-- The terms of the node at a place, and none if there is no such node yet. -/
def termsAt (z : Spine) (place : Nat) : List String :=
  z.tree.termLists[place]?.getD []

/-- A term is added to the node under the cursor and to no other. -/
theorem AddsTerm.termsAt {z z' : Spine} {term? : Option String} (h : z.AddsTerm z' term?)
    (place : Nat) :
    z'.termsAt place
      = z.termsAt place ++ if z.draft.cursor = place then term?.toList else [] := by
  obtain ⟨opened, h⟩ := h
  have hlt := z.cursor_lt_length_termLists
  have hlength : (z.tree.termLists.modify z.draft.cursor (· ++ term?.toList)).length
      = z.tree.termLists.length := List.length_modify ..
  unfold Spine.termsAt
  rw [h]
  by_cases hplace : place < z.tree.termLists.length
  · rw [List.getElem?_append_left (hlength ▸ hplace), List.getElem?_modify,
      List.getElem?_eq_getElem hplace, Option.map_eq_map, Option.map_some, Option.getD_some,
      Option.getD_some]
    split
    · rfl
    · exact (List.append_nil _).symm
  · -- a node that is opened has no terms
    have hne : z.draft.cursor ≠ place := by omega
    have hnew (i : Nat) : ((List.replicate opened ([] : List String))[i]?).getD [] = [] := by
      rw [List.getElem?_replicate]
      split <;> rfl
    rw [List.getElem?_append_right (by omega), hnew, List.getElem?_eq_none (by omega), if_neg hne]
    rfl

/-- The terms of each node, after some tokens. -/
theorem termsAt_foldl (place : Nat) (ts : List Token) :
    ∀ z : Spine, (ts.foldl step z).termsAt place
      = z.termsAt place ++ z.draft.completedAt place ts := by
  induction ts with
  | nil =>
    intro z
    exact (List.append_nil _).symm
  | cons t ts ih =>
    intro z
    rw [List.foldl_cons, ih, (z.addsTerm_step t).termsAt place, Draft.completedAt, step_draft,
      List.append_assoc]

/-! ### All terms -/

/-- Wherever a term is added, it is one more of all terms. -/
theorem AddsTerm.perm_flatten {z z' : Spine} {term? : Option String} (h : z.AddsTerm z' term?) :
    z'.tree.termLists.flatten.Perm (z.tree.termLists.flatten ++ term?.toList) := by
  obtain ⟨opened, h⟩ := h
  have hcursor : z.draft.cursor = (termListsAbove z.above).length := by
    rw [cursor_draft, length_termListsAbove]
  have hnew : (List.replicate opened ([] : List String)).flatten = [] :=
    List.flatten_replicate_nil
  rw [h, hcursor, termLists_tree, modify_append_cons]
  simp only [List.flatten_append, List.flatten_cons, hnew, List.append_nil, List.append_assoc]
  exact (List.perm_append_comm.append_left _).append_left _

end Spine

/-- **The terms of a node are in the order in which they were completed**, and they are those which
were completed while the cursor was on it. -/
theorem parse_terms (s : String) :
    (parse s).subtrees.map Query.terms
      = (List.range (parse s).size).map fun place =>
          Draft.completedAt place {} (tokenize s) := by
  have hempty (place : Nat) : ({} : Spine).termsAt place = [] := by
    cases place <;> rfl
  apply List.ext_getElem
  · rw [List.length_map, Query.length_subtrees, List.length_map, List.length_range]
  · intro place hplace _
    have hterms := Spine.termsAt_foldl place (tokenize s) {}
    rw [hempty, List.nil_append, Spine.draft_empty, Spine.termsAt, ← parse_eq_tree,
      Query.termLists, List.getElem?_eq_getElem hplace, Option.getD_some] at hterms
    rw [hterms, List.getElem_map, List.getElem_range]

end BooleanSearch
