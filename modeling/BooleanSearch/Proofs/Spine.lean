import BooleanSearch.Proofs.Layout
import BooleanSearch.Proofs.Lists

/-!
# The spine of a draft

A token changes a draft only where the cursor is.  What it can reach are the open nodes, which
form a path from the cursor up to the root; everything else is closed and hangs below one of them.
The spine of a draft is this path, each node with what has been closed below it.

On a spine the effect of a token is local: it rewrites the node under the cursor, puts a new node
in front, or closes the node under the cursor into the one above it.  A spine stands for a draft,
and a step on the one is a step on the other.

## Main definitions

* `Query.applyAnd`, `Query.setOccur`, `Query.requiresSeveral` — what keywords do to a node, and
  what `OR` asks of the root.
* `Spine` — the open nodes and the open phrase.
* `Spine.tree` — the tree, once everything is closed.
* `Spine.step` — the effect of a token.
* `Spine.draft` — the draft that a spine stands for.
* `Spine.Effect` — what a token may do to a spine.

## Main results

* `Spine.step_draft` — a step on a spine is a step on its draft.
* `Spine.query_draft` — the draft of a spine stands for its tree.
* `Spine.effect_step` — what a token does is one of the effects.
-/

namespace BooleanSearch

namespace Query

/-- Makes the requirement of a node `must`, once it has a term. -/
def applyAnd (q : Query) : Query :=
  if q.terms.isEmpty then q else { q with occur := .must }

/-- Sets the requirement of a node. -/
def setOccur (q : Query) (o : Occur) : Query :=
  { q with occur := o }

/-- Whether two terms or more are required at a node. -/
def requiresSeveral (q : Query) : Bool :=
  q.occur == .must && 1 < q.terms.length

/-- The tree of a node and the open nodes above it, innermost first, once all of them are
closed. -/
def closeInto : Query → List Query → Query
  | q, [] => q
  | q, parent :: above => closeInto (parent.pushSubquery q) above

@[simp] theorem closeInto_nil (q : Query) : q.closeInto [] = q := rfl

@[simp] theorem closeInto_cons (q parent : Query) (above : List Query) :
    q.closeInto (parent :: above) = (parent.pushSubquery q).closeInto above := rfl

/-- The places of the open nodes above a cursor and of the node under it, but for the root,
innermost first. -/
def openPlaces : List Query → List Nat
  | [] => []
  | parent :: above => sizeAll (parent :: above) :: openPlaces above

theorem headD_openPlaces (above : List Query) : (openPlaces above).headD 0 = sizeAll above := by
  cases above <;> rfl

end Query

/-- The word that a token stands for inside a phrase. -/
def Token.phraseWord? : Token → Option String
  | .literal word => some word
  | .and => some Token.and.text
  | .or => some Token.or.text
  | _ => none

/-- The term that a token completes: a word outside phrases is one, and a quote mark makes one of
the words of the phrase that it ends. -/
def Draft.completed? (d : Draft) : Token → Option String
  | .literal word => if d.phrase.isSome then none else some word
  | .quoteMark => d.phrase.map fun words => " ".intercalate words.toList
  | _ => none

/-- The open nodes of a draft, and its open phrase. -/
structure Spine where
  /-- The node under the cursor, with what has been closed below it. -/
  current : Query := {}
  /-- The open nodes above it, innermost first, each with what has been closed below it. -/
  above : List Query := []
  /-- The words of the phrase that is open, if one is. -/
  phrase : Option (List String) := none

namespace Spine

/-- The tree, once all open nodes are closed. -/
def tree (z : Spine) : Query :=
  z.current.closeInto z.above

/-- Changes the node under the cursor. -/
def modify (z : Spine) (f : Query → Query) : Spine :=
  { z with current := f z.current }

/-- Opens a new subquery of the node under the cursor. -/
def descend (z : Spine) (o : Occur) : Spine :=
  { z with current := { occur := o }, above := z.current :: z.above }

/-- Closes the node under the cursor, unless it is the root. -/
def ascend (z : Spine) : Spine :=
  match z.above with
  | [] => z
  | parent :: above => { z with current := parent.pushSubquery z.current, above }

/-- Closing the node under the cursor changes nothing in the tree. -/
theorem tree_ascend (z : Spine) : z.ascend.tree = z.tree := by
  obtain ⟨q, above, phrase⟩ := z
  cases above <;> rfl

/-- The effect of `OR`. -/
def applyOr (z : Spine) : Spine :=
  if z.above.isEmpty && z.current.requiresSeveral then z.descend .should
  else z.modify (·.setOccur .should)

/-- The effect of a token inside a phrase with the given words. -/
def stepInPhrase (z : Spine) (words : List String) : Token → Spine
  | .quoteMark => { z.modify (·.pushTerm (" ".intercalate words)) with phrase := none }
  | t => { z with phrase := some (words ++ t.phraseWord?.toList) }

/-- Inside a phrase words are collected until the next quote mark. -/
theorem stepInPhrase_of_ne_quoteMark (z : Spine) (words : List String) {t : Token}
    (ht : t ≠ .quoteMark) :
    z.stepInPhrase words t = { z with phrase := some (words ++ t.phraseWord?.toList) } := by
  cases t with
  | quoteMark => exact absurd rfl ht
  | _ => rfl

/-- The effect of a token outside a phrase. -/
def stepOutside (z : Spine) : Token → Spine
  | .literal word => z.modify (·.pushTerm word)
  | .and => z.modify Query.applyAnd
  | .or => z.applyOr
  | .quoteMark => { z with phrase := some [] }
  | .leftParen => z.descend .must
  | .rightParen => z.ascend
  | .whitespace _ | .illegal _ | .endOfInput => z

/-- The effect of a token. -/
def step (z : Spine) (t : Token) : Spine :=
  match z.phrase with
  | some words => z.stepInPhrase words t
  | none => z.stepOutside t

/-- The draft that a spine stands for. -/
def draft (z : Spine) : Draft where
  nodes := (z.tree.layout 0).toArray
  path := Query.openPlaces z.above
  phrase := z.phrase.map List.toArray

/-- The draft of a spine stands for its tree. -/
@[simp] theorem query_draft (z : Spine) : z.draft.query = z.tree :=
  Draft.query_of_layout rfl

end Spine

/-! ### The layout of an open tree -/

namespace Query

/-- The nodes of an open node and of what has been closed below it.  The subquery that is open
comes right after them. -/
def openLayout (place : Nat) (q : Query) : List Node :=
  { q.root place with children := (q.root place).children.push (place + q.size) } ::
    layoutAll (place + 1) q.subqueries

/-- The nodes before the one under a cursor. -/
def layoutAbove : List Query → List Node
  | [] => []
  | parent :: above => layoutAbove above ++ parent.openLayout (sizeAll above)

@[simp] theorem length_openLayout (place : Nat) (q : Query) :
    (q.openLayout place).length = q.size := by
  rw [openLayout, List.length_cons, length_layoutAll, size_eq, Nat.add_comm]

@[simp] theorem length_layoutAbove (above : List Query) :
    (layoutAbove above).length = sizeAll above := by
  induction above with
  | nil => rfl
  | cons parent above ih => simp [layoutAbove, ih, Nat.add_comm]

theorem layout_pushSubquery (place : Nat) (q sub : Query) :
    (q.pushSubquery sub).layout place = q.openLayout place ++ sub.layout (place + q.size) := by
  have hplace : place + 1 + sizeAll q.subqueries = place + q.size := by
    rw [size_eq]; omega
  rw [layout_eq]
  simp [pushSubquery, openLayout, root, layoutAll_append, places_append, hplace]

/-- The nodes above a cursor come before the node under it. -/
theorem layout_closeInto (q : Query) (above : List Query) :
    (q.closeInto above).layout 0 = layoutAbove above ++ q.layout (sizeAll above) := by
  induction above generalizing q with
  | nil => rfl
  | cons parent above ih =>
    rw [closeInto_cons, ih, layout_pushSubquery, layoutAbove, sizeAll_cons,
      Nat.add_comm parent.size, List.append_assoc]

end Query

namespace Spine

open Query

theorem layout_tree (z : Spine) :
    z.tree.layout 0 = layoutAbove z.above ++ z.current.root (sizeAll z.above) ::
      layoutAll (sizeAll z.above + 1) z.current.subqueries := by
  rw [tree, layout_closeInto, layout_eq]

@[simp] theorem cursor_draft (z : Spine) : z.draft.cursor = sizeAll z.above :=
  headD_openPlaces z.above

theorem size_nodes_draft (z : Spine) :
    z.draft.nodes.size = sizeAll z.above + z.current.size := by
  rw [draft, List.size_toArray, tree, layout_closeInto, List.length_append, length_layoutAbove,
    length_layout]

/-! ### Steps on a spine and steps on its draft -/

/-- Changing the node under the cursor changes one node of the layout. -/
theorem nodes_modifyCurrent_draft (z : Spine) (f : Node → Node) :
    (z.draft.modifyCurrent f).nodes
      = (layoutAbove z.above ++ f (z.current.root (sizeAll z.above)) ::
          layoutAll (sizeAll z.above + 1) z.current.subqueries).toArray := by
  -- the cursor stands behind the nodes above it
  have hcursor : sizeAll z.above = (layoutAbove z.above).length := by simp
  rw [Draft.modifyCurrent, cursor_draft]
  simp only [draft, List.modify_toArray, layout_tree]
  rw [hcursor, modify_append_cons, ← hcursor]

/-- A change of the node under the cursor that leaves its subqueries as they are. -/
theorem modifyCurrent_draft (z : Spine) {f : Node → Node} {g : Query → Query}
    (hroot : ∀ place, f (z.current.root place) = (g z.current).root place)
    (hsubs : (g z.current).subqueries = z.current.subqueries) :
    z.draft.modifyCurrent f = (z.modify g).draft := by
  have hnodes : (z.draft.modifyCurrent f).nodes = (z.modify g).draft.nodes := by
    rw [nodes_modifyCurrent_draft, hroot, draft, layout_tree]
    simp only [modify, hsubs]
  calc z.draft.modifyCurrent f
      = { z.draft with nodes := (z.draft.modifyCurrent f).nodes } := rfl
    _ = (z.modify g).draft := by rw [hnodes]; rfl

theorem pushTerm_draft (z : Spine) (term : String) :
    z.draft.pushTerm term = (z.modify (·.pushTerm term)).draft :=
  z.modifyCurrent_draft (fun _ => by simp [root, Query.pushTerm]) rfl

theorem setOccur_draft (z : Spine) (o : Occur) :
    z.draft.setOccur o = (z.modify (·.setOccur o)).draft :=
  z.modifyCurrent_draft (fun _ => rfl) rfl

theorem applyAnd_draft (z : Spine) : z.draft.applyAnd = (z.modify Query.applyAnd).draft := by
  refine z.modifyCurrent_draft (fun place => ?_) ?_
  · cases hterms : z.current.terms <;> simp [root, Query.applyAnd, hterms]
  · rw [Query.applyAnd]; split <;> rfl

theorem descend_draft (z : Spine) (o : Occur) : z.draft.descend o = (z.descend o).draft := by
  have hleaf (place : Nat) : ({ occur := o } : Query).layout place = [{ occur := o }] := rfl
  -- the node under the cursor gains a child, and the child stands behind all nodes
  have hnodes : (z.draft.descend o).nodes = (z.descend o).draft.nodes := by
    simp only [Draft.descend, nodes_modifyCurrent_draft, size_nodes_draft]
    simp only [draft, descend, tree, closeInto_cons]
    rw [layout_closeInto, layout_pushSubquery, hleaf]
    simp [openLayout]
  calc z.draft.descend o
      = { z.draft with
          nodes := (z.draft.descend o).nodes
          path := z.draft.nodes.size :: z.draft.path } := rfl
    _ = (z.descend o).draft := by
        rw [hnodes, size_nodes_draft, Nat.add_comm]; rfl

theorem ascend_draft (z : Spine) : z.draft.ascend = z.ascend.draft := by
  obtain ⟨q, above, phrase⟩ := z
  cases above <;> rfl

theorem splitsAtOr_draft (z : Spine) :
    z.draft.splitsAtOr = (z.above.isEmpty && z.current.requiresSeveral) := by
  obtain ⟨q, above, phrase⟩ := z
  cases above with
  | nil => simp [Draft.splitsAtOr, draft, openPlaces, tree, layout_eq, root, requiresSeveral]
  | cons parent above => simp [Draft.splitsAtOr, draft, openPlaces]

theorem applyOr_draft (z : Spine) : z.draft.applyOr = z.applyOr.draft := by
  rw [Draft.applyOr, applyOr, splitsAtOr_draft]
  split
  · exact z.descend_draft .should
  · exact z.setOccur_draft .should

/-- The closing quote mark ends the phrase before it adds the term. -/
theorem toggleQuote_draft (z : Spine) {words : List String} (hphrase : z.phrase = some words) :
    z.draft.toggleQuote
      = { z.modify (·.pushTerm (" ".intercalate words)) with phrase := none : Spine }.draft := by
  obtain ⟨q, above, phrase⟩ := z
  obtain rfl : phrase = some words := hphrase
  exact pushTerm_draft ⟨q, above, none⟩ (" ".intercalate words)

theorem stepInPhrase_draft (z : Spine) {words : List String} (hphrase : z.phrase = some words)
    (t : Token) : z.draft.stepInPhrase t = (z.stepInPhrase words t).draft := by
  obtain ⟨q, above, phrase⟩ := z
  obtain rfl : phrase = some words := hphrase
  cases t with
  | quoteMark => exact toggleQuote_draft ⟨q, above, some words⟩ rfl
  | literal _ | and | or =>
    simp [Draft.stepInPhrase, Draft.pushPhraseWord, stepInPhrase, draft, Token.phraseWord?, tree]
  | leftParen | rightParen | whitespace _ | illegal _ | endOfInput =>
    simp [Draft.stepInPhrase, stepInPhrase, draft, Token.phraseWord?, tree]

theorem stepOutside_draft (z : Spine) (hphrase : z.phrase = none) (t : Token) :
    z.draft.stepOutside t = (z.stepOutside t).draft := by
  cases t with
  | literal word => exact z.pushTerm_draft word
  | and => exact z.applyAnd_draft
  | or => exact z.applyOr_draft
  | quoteMark => simp [Draft.stepOutside, Draft.toggleQuote, stepOutside, draft, hphrase, tree]
  | leftParen => exact z.descend_draft .must
  | rightParen => exact z.ascend_draft
  | whitespace _ | illegal _ | endOfInput => rfl

/-- A step on a spine is a step on its draft. -/
theorem step_draft (z : Spine) (t : Token) : z.draft.step t = (z.step t).draft := by
  cases hphrase : z.phrase with
  | some words =>
    have h := z.stepInPhrase_draft hphrase t
    simpa [Draft.step, step, draft, hphrase] using h
  | none =>
    have h := z.stepOutside_draft hphrase t
    simpa [Draft.step, step, draft, hphrase] using h

theorem foldl_step_draft (z : Spine) (ts : List Token) :
    ts.foldl Draft.step z.draft = (ts.foldl step z).draft := by
  induction ts generalizing z with
  | nil => rfl
  | cons t ts ih => rw [List.foldl_cons, List.foldl_cons, step_draft, ih]

/-- Reading begins with the draft of the empty spine. -/
theorem draft_empty : ({} : Spine).draft = {} := by
  simp [draft, tree, layout_eq, root, openPlaces]

/-! ### What a token can do -/

/-- What a token may do to a spine, if it completes the term `term?`.  Only the node under the
cursor is changed, and the other open nodes stay as they are until they are under it. -/
inductive Effect (z : Spine) : Option String → Spine → Prop
  /-- The phrase changes, or nothing does. -/
  | phrase (words : Option (List String)) : Effect z none { z with phrase := words }
  /-- The term that is completed is added under the cursor. -/
  | term (term : String) (words : Option (List String)) :
    Effect z (some term) { z.modify (·.pushTerm term) with phrase := words }
  /-- The requirement of the node under the cursor is set. -/
  | occur (o : Occur) : Effect z none (z.modify (·.setOccur o))
  /-- A subquery is opened. -/
  | descend (o : Occur) : Effect z none (z.descend o)
  /-- The node under the cursor is closed. -/
  | ascend : Effect z none z.ascend

theorem effect_applyAnd (z : Spine) : z.Effect none (z.modify Query.applyAnd) := by
  unfold modify Query.applyAnd
  split
  · exact .phrase z.phrase
  · exact .occur .must

theorem effect_applyOr (z : Spine) : z.Effect none z.applyOr := by
  unfold applyOr
  split
  · exact .descend .should
  · exact .occur .should

theorem effect_stepInPhrase (z : Spine) {words : List String} (hphrase : z.phrase = some words)
    (t : Token) : z.Effect (z.draft.completed? t) (z.stepInPhrase words t) := by
  obtain ⟨q, above, phrase⟩ := z
  obtain rfl : phrase = some words := hphrase
  cases t with
  | quoteMark => exact .term (" ".intercalate words) none
  | _ => exact .phrase _

theorem effect_stepOutside (z : Spine) (hphrase : z.phrase = none) (t : Token) :
    z.Effect (z.draft.completed? t) (z.stepOutside t) := by
  obtain ⟨q, above, phrase⟩ := z
  obtain rfl : phrase = none := hphrase
  cases t with
  | literal word => exact .term word none
  | and => exact effect_applyAnd _
  | or => exact effect_applyOr _
  | quoteMark => exact .phrase (some [])
  | leftParen => exact .descend .must
  | rightParen => exact .ascend
  | whitespace _ | illegal _ | endOfInput => exact .phrase none

/-- What a token does is one of the effects. -/
theorem effect_step (z : Spine) (t : Token) : z.Effect (z.draft.completed? t) (z.step t) := by
  rw [step]
  split
  · next words hphrase => exact z.effect_stepInPhrase hphrase t
  · next hphrase => exact z.effect_stepOutside hphrase t

end Spine

end BooleanSearch
