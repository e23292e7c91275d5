import BooleanSearch.Proofs.Canonical
import BooleanSearch.Proofs.Written

/-!
# The meaning of trees

What a tree asks for is settled by which terms hold: a `must` node holds if all its parts do, and a
`should` node if one of them does.  The order of the parts makes no difference, so it is no loss
that a node keeps its terms and its subqueries apart.

Search strings are written with words and operators.  A word that is no keyword adds a term to the
node under the cursor, and an operator sets the requirement of that node, but where `OR` opens a
subquery.

## Main definitions

* `Occur.combine` — what a requirement makes of the truth values of the parts.
* `Query.holds`, `Query.values` — the truth value of a tree, and those of the parts of a node.
* `PlainWord` — the words that are no keywords.
* `Occur.connective`, `Occur.keyword` — the operator of a requirement, as it is written and as a
  token.

## Main results

* `Query.values_pushTerm`, `Query.values_pushSubquery` — a part that is added counts like the
  others.
* `Spine.read_plainWord`, `Spine.read_connective` — reading words and operators.
* `Spine.step_and`, `Spine.step_or` — where an operator sets the requirement of a node.
-/

namespace BooleanSearch

/-- The truth value of a node with the given requirement, from those of its parts. -/
def Occur.combine : Occur → List Bool → Bool
  | .must, values => values.all id
  | .should, values => values.any id

/-- The order of the parts makes no difference. -/
theorem Occur.combine_perm (o : Occur) {values values' : List Bool} (h : values.Perm values') :
    o.combine values = o.combine values' := by
  cases o with
  | must => exact h.all_eq
  | should => exact h.any_eq

@[simp] theorem Occur.combine_singleton (o : Occur) (value : Bool) : o.combine [value] = value := by
  cases o <;> simp [combine]

namespace Query

section Holds

variable (v : String → Bool)

mutual

/-- The truth value of a tree, where `v` gives those of the terms. -/
def holds : Query → Bool
  | ⟨o, ts, subs⟩ => o.combine (ts.map v ++ holdsAll subs)

/-- The truth values of some trees. -/
def holdsAll : List Query → List Bool
  | [] => []
  | q :: qs => q.holds :: holdsAll qs

end

/-- The truth values of the parts of a node. -/
def values (q : Query) : List Bool :=
  q.terms.map v ++ q.subqueries.map (holds v)

end Holds

variable {v : String → Bool}

theorem holdsAll_eq_map (qs : List Query) : holdsAll v qs = qs.map (holds v) := by
  induction qs with
  | nil => rfl
  | cons q qs ih => rw [holdsAll, ih, List.map_cons]

theorem holds_eq (q : Query) : q.holds v = q.occur.combine (q.values v) := by
  obtain ⟨o, ts, subs⟩ := q
  show o.combine (ts.map v ++ holdsAll v subs) = _
  rw [holdsAll_eq_map]
  rfl

theorem setOccur_of_eq {q : Query} {o : Occur} (h : q.occur = o) : q.setOccur o = q := by
  cases q
  cases h
  rfl

theorem values_pushTerm (q : Query) (term : String) :
    ((q.pushTerm term).values v).Perm (q.values v ++ [v term]) := by
  simp only [values, pushTerm, List.map_append, List.map_singleton, List.append_assoc]
  exact List.perm_append_comm.append_left _

theorem values_pushSubquery (q sub : Query) :
    (q.pushSubquery sub).values v = q.values v ++ [sub.holds v] := by
  simp [values, pushSubquery]

end Query

/-! ### Words and operators -/

/-- Whether a text is a word but no keyword. -/
def isPlainWord (w : String) : Bool :=
  isWord w && w != "AND" && w != "OR"

/-- A word that is no keyword. -/
@[ext] structure PlainWord where
  /-- The word. -/
  text : String
  /-- It is a word but no keyword. -/
  isPlainWord_text : isPlainWord text = true
  deriving DecidableEq

namespace PlainWord

theorem isWord_text (w : PlainWord) : isWord w.text = true := by
  have h := w.isPlainWord_text
  rw [isPlainWord, Bool.and_assoc, Bool.and_eq_true] at h
  exact h.1

theorem ofWord_text (w : PlainWord) : Token.ofWord w.text = .literal w.text := by
  have h := w.isPlainWord_text
  simp only [isPlainWord, Bool.and_eq_true, bne_iff_ne] at h
  exact ofWord_eq_literal h.1.2 h.2

end PlainWord

/-- The operator of a requirement. -/
def Occur.keyword : Occur → Token
  | .must => .and
  | .should => .or

theorem Occur.isWord_text_keyword (o : Occur) : isWord o.keyword.text = true := by
  cases o <;> rfl

theorem Occur.ofWord_text_keyword (o : Occur) : Token.ofWord o.keyword.text = o.keyword := by
  cases o <;> rfl

/-- The operator of a requirement, as it is written between words. -/
def Occur.connective (o : Occur) : String :=
  " " ++ o.keyword.text ++ " "

@[simp] theorem Occur.takeWhile_connective (o : Occur) (rest : List Char) :
    (o.connective.toList ++ rest).takeWhile isWordChar = [] := by
  cases o <;> rfl

namespace Spine

variable {q : Query} {above : List Query}

/-- A word that is no keyword becomes a term of the node under the cursor. -/
theorem read_plainWord (w : PlainWord) {rest : List Char}
    (hrest : rest.takeWhile isWordChar = []) :
    read ⟨q, above, none⟩ (w.text.toList ++ rest)
      = read ⟨q.pushTerm w.text, above, none⟩ rest := by
  have hstep : step ⟨q, above, none⟩ (.literal w.text) = ⟨q.pushTerm w.text, above, none⟩ := rfl
  rw [read_ofWord _ w.isWord_text hrest, w.ofWord_text, hstep]

/-- An operator between blanks is read as its keyword. -/
theorem read_connective (z : Spine) (o : Occur) (rest : List Char) :
    z.read (o.connective.toList ++ rest) = (z.step o.keyword).read rest := by
  have htext : o.connective.toList ++ rest = ' ' :: (o.keyword.text.toList ++ ' ' :: rest) := by
    simp [Occur.connective]
  rw [htext, read_blank _ rfl, read_ofWord _ o.isWord_text_keyword rfl, o.ofWord_text_keyword,
    read_blank _ rfl]

/-- `AND` requires all parts of a node, unless the node has no terms and one part is enough. -/
theorem step_and (h : q.terms ≠ [] ∨ q.occur = .must) :
    step ⟨q, above, none⟩ .and = ⟨q.setOccur .must, above, none⟩ := by
  have hand : q.applyAnd = q.setOccur .must := by
    unfold Query.applyAnd
    split
    · next hterms =>
      have hoccur : q.occur = .must := h.resolve_left fun hne => hne (List.isEmpty_iff.1 hterms)
      exact (Query.setOccur_of_eq hoccur).symm
    · rfl
  show (⟨q.applyAnd, above, none⟩ : Spine) = _
  rw [hand]

/-- `OR` makes one part of a node enough, unless it is a root that requires several terms. -/
theorem step_or (h : above ≠ [] ∨ q.requiresSeveral = false) :
    step ⟨q, above, none⟩ .or = ⟨q.setOccur .should, above, none⟩ := by
  have hsplit : (above.isEmpty && q.requiresSeveral) = false := by
    rcases h with h | h
    · rw [List.isEmpty_eq_false_iff.2 h, Bool.false_and]
    · rw [h, Bool.and_false]
  show applyOr ⟨q, above, none⟩ = _
  rw [applyOr, hsplit]
  rfl

end Spine

end BooleanSearch
