import BooleanSearch.Query.Basic
import BooleanSearch.Token.Basic

/-!
# Drafts

A draft is a query tree that is being written down from the tokens of a search string.  There are
no wrong search strings: every token changes the draft in some way or is passed over.

The nodes are kept in the order in which they were opened, and a node knows its subqueries by their
places in that order, so that the place of a subquery is always greater than that of the node above
it.  The root has place zero.  A cursor stands on the node that the next token belongs to.

Outside a phrase the tokens have these effects.

* An opening parenthesis gives the node under the cursor a new `must` subquery, and the cursor
  moves there; a closing parenthesis moves the cursor back up.
* A word becomes a term of the node under the cursor.
* `AND` makes that node a `must` node, once it has a term.
* `OR` makes that node a `should` node.  But where two terms or more are already required at the
  root, these bind tighter: then the root gets a `should` subquery instead, which takes what comes
  next.

Inside a phrase words and keywords are collected, and parentheses are passed over.  The quote mark
that ends the phrase makes one term of them.

## Main definitions

* `Node`, `Draft` — a node by itself, and the draft.
* `Draft.step` — the effect of a token.
* `Draft.query` — the tree that a draft stands for.
-/

namespace BooleanSearch

/-- A node by itself. -/
structure Node where
  /-- How the parts of the node combine. -/
  occur : Occur := .must
  /-- The words and phrases of the node, in input order. -/
  terms : Array String := #[]
  /-- The places of the subqueries, in input order. -/
  children : Array Nat := #[]
  deriving DecidableEq, Repr, Inhabited

/-- A query tree that is being written down. -/
structure Draft where
  /-- The nodes, in the order in which they were opened. -/
  nodes : Array Node := #[{}]
  /-- The places of the open nodes below the root, innermost first. -/
  path : List Nat := []
  /-- The words of the phrase that is open, if one is. -/
  phrase : Option (Array String) := none
  deriving DecidableEq, Repr

namespace Draft

/-- The place of the node under the cursor. -/
def cursor (d : Draft) : Nat :=
  d.path.headD 0

/-- Changes the node under the cursor. -/
def modifyCurrent (d : Draft) (f : Node → Node) : Draft :=
  { d with nodes := d.nodes.modify d.cursor f }

/-- Adds a term to the node under the cursor. -/
def pushTerm (d : Draft) (term : String) : Draft :=
  d.modifyCurrent fun node => { node with terms := node.terms.push term }

/-- Sets the requirement of the node under the cursor. -/
def setOccur (d : Draft) (o : Occur) : Draft :=
  d.modifyCurrent fun node => { node with occur := o }

/-- Opens a new subquery of the node under the cursor, and moves the cursor there. -/
def descend (d : Draft) (o : Occur) : Draft :=
  let child := d.nodes.size
  let d := d.modifyCurrent fun node => { node with children := node.children.push child }
  { d with nodes := d.nodes.push { occur := o }, path := child :: d.path }

/-- Moves the cursor up, unless it is at the root. -/
def ascend (d : Draft) : Draft :=
  { d with path := d.path.tail }

/-- A quote mark begins a phrase, or ends the one that is open. -/
def toggleQuote (d : Draft) : Draft :=
  match d.phrase with
  | none => { d with phrase := some #[] }
  | some words => { d with phrase := none }.pushTerm (" ".intercalate words.toList)

/-- Adds a word to the phrase that is open. -/
def pushPhraseWord (d : Draft) (word : String) : Draft :=
  { d with phrase := d.phrase.map (·.push word) }

/-- Whether `OR` opens a subquery: the cursor is at the root, and two terms or more are required
there. -/
def splitsAtOr (d : Draft) : Bool :=
  d.path.isEmpty && d.nodes[0]?.any fun root => root.occur == .must && 1 < root.terms.size

/-- The effect of `AND`.  It has none on a node without terms. -/
def applyAnd (d : Draft) : Draft :=
  d.modifyCurrent fun node => if node.terms.isEmpty then node else { node with occur := .must }

/-- The effect of `OR`: a new subquery where terms bind tighter, and else a change of the node
under the cursor. -/
def applyOr (d : Draft) : Draft :=
  if d.splitsAtOr then d.descend .should else d.setOccur .should

/-- The effect of a token inside a phrase. -/
def stepInPhrase (d : Draft) : Token → Draft
  | .literal word => d.pushPhraseWord word
  | .and => d.pushPhraseWord Token.and.text
  | .or => d.pushPhraseWord Token.or.text
  | .quoteMark => d.toggleQuote
  | .leftParen | .rightParen | .whitespace _ | .illegal _ | .endOfInput => d

/-- The effect of a token outside a phrase. -/
def stepOutside (d : Draft) : Token → Draft
  | .literal word => d.pushTerm word
  | .and => d.applyAnd
  | .or => d.applyOr
  | .quoteMark => d.toggleQuote
  | .leftParen => d.descend .must
  | .rightParen => d.ascend
  | .whitespace _ | .illegal _ | .endOfInput => d

/-- The effect of a token. -/
def step (d : Draft) (t : Token) : Draft :=
  if d.phrase.isSome then d.stepInPhrase t else d.stepOutside t

theorem step_eq_stepInPhrase {d : Draft} {words : Array String} (h : d.phrase = some words)
    (t : Token) : d.step t = d.stepInPhrase t := by
  rw [step, h]
  rfl

theorem step_eq_stepOutside {d : Draft} (h : d.phrase = none) (t : Token) :
    d.step t = d.stepOutside t := by
  rw [step, h]
  rfl

/-- Adds the tree of a node to the trees of the nodes opened after it, the last of which comes
first.  There are `count` nodes in all.  The trees of the subqueries are looked up and stay among
those that have been built.  To take them out instead comes to the same, as each is asked for once
only. -/
def assembleNode (count : Nat) (node : Node) (built : Array Query) : Array Query :=
  let child? (place : Nat) : Option Query :=
    if place < count then built[count - 1 - place]? else none
  built.push {
    occur := node.occur
    terms := node.terms.toList
    subqueries := node.children.toList.filterMap child? }

/-- The trees of all nodes, that of the last node first. -/
def assemble (nodes : Array Node) : Array Query :=
  nodes.foldr (assembleNode nodes.size) #[]

/-- The tree that a draft stands for.  A phrase that is still open is left out. -/
def query (d : Draft) : Query :=
  (assemble d.nodes).back?.getD {}

end Draft

end BooleanSearch
