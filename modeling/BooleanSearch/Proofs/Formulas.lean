import BooleanSearch.Proofs.Meaning

/-!
# Formulas

A formula is a term, or the conjunction or disjunction of two formulas or more.  It is written with
the operator between its operands, where every operand but a term stands in parentheses.  Then the
tree of the written formula is the formula itself: a node for every conjunction and disjunction,
with the operands as its parts.  So the tree holds whenever the formula does.

Within a formula an operator never comes between operands that another operator has joined, so at
the root as in a group all it does is to set the requirement of the node, and after the first time
it finds it set already.

## Main definitions

* `WrittenTerm` — words that are no keywords, and phrases.
* `Formula` — the formulas; `Formula.written`, their text; `Formula.value`, their truth value.
* `Formula.addTo` — a formula as a part of a node.
* `Formula.tree` — the tree of a formula.

## Main results

* `Spine.read_written_formula` — reading a formula in a new node.
* `Formula.holds_tree` — the tree of a formula has the truth value of the formula.
* `holds_parse_formula` — **a search string that is a formula means what it says.**
-/

namespace BooleanSearch

/-- A quote mark, straight or curved. -/
abbrev QuoteMark :=
  { c : Char // isQuote c = true }

/-- A term as it is written. -/
inductive WrittenTerm
  /-- A word that is no keyword. -/
  | word (w : PlainWord)
  /-- Words between quote marks, keywords or not. -/
  | phrase (opening closing : QuoteMark) (words : List { w : String // isWord w = true })

namespace WrittenTerm

/-- The term that is meant. -/
def term : WrittenTerm → String
  | .word w => w.text
  | .phrase _ _ words => " ".intercalate (words.map Subtype.val)

/-- The text of a term. -/
def written : WrittenTerm → String
  | .word w => w.text
  | .phrase opening closing words =>
    String.singleton opening.1 ++ (WrittenTerm.phrase opening closing words).term
      ++ String.singleton closing.1

end WrittenTerm

/-- A formula.  A conjunction requires all of its operands and a disjunction one of them, and
either has at least two. -/
inductive Formula
  /-- A term by itself. -/
  | term (t : WrittenTerm)
  /-- Operands that are joined by the operator of a requirement. -/
  | join (o : Occur) (first second : Formula) (rest : List Formula)

namespace Formula

/-- The text of an operand, made of that of the formula: all but terms stand in parentheses. -/
def enclose : Formula → String → String
  | .term _, text => text
  | .join .., text => "(" ++ text ++ ")"

mutual

/-- The text of a formula. -/
def written : Formula → String
  | .term t => t.written
  | .join o first second rest =>
    first.enclose first.written ++ o.connective ++ second.enclose second.written
      ++ writtenRest o rest

/-- The text of further operands, each behind the operator. -/
def writtenRest (o : Occur) : List Formula → String
  | [] => ""
  | f :: fs => o.connective ++ f.enclose f.written ++ writtenRest o fs

end

section Value

variable (v : String → Bool)

mutual

/-- The truth value of a formula, where `v` gives those of the terms. -/
def value : Formula → Bool
  | .term t => v t.term
  | .join o first second rest => o.combine (first.value :: second.value :: valueAll rest)

/-- The truth values of some formulas. -/
def valueAll : List Formula → List Bool
  | [] => []
  | f :: fs => f.value :: valueAll fs

end

end Value

/-! ### The tree of a formula -/

/-- Adds an operand with the given tree to a node.  A term is a part by itself. -/
def addTo (q : Query) : Formula → Query → Query
  | .term t, _ => q.pushTerm t.term
  | .join .., tree => q.pushSubquery tree

mutual

/-- The tree of a formula. -/
def tree : Formula → Query
  | .term t => { terms := [t.term] }
  | .join o first second rest =>
    addRest (addTo (addTo { occur := o } first first.tree) second second.tree) rest

/-- Adds further operands to a node. -/
def addRest (q : Query) : List Formula → Query
  | [] => q
  | f :: fs => addRest (addTo q f f.tree) fs

end

@[simp] theorem occur_addTo (q : Query) (f : Formula) (tree : Query) :
    (addTo q f tree).occur = q.occur := by
  cases f <;> rfl

@[simp] theorem occur_addRest (fs : List Formula) :
    ∀ q : Query, (addRest q fs).occur = q.occur := by
  induction fs with
  | nil =>
    intro q
    rfl
  | cons f fs ih =>
    intro q
    rw [addRest, ih, occur_addTo]

theorem setOccur_addTo (q : Query) (f : Formula) (tree : Query) (o : Occur) :
    (addTo q f tree).setOccur o = addTo (q.setOccur o) f tree := by
  cases f <;> rfl

/-- An operand adds at most one term. -/
theorem length_terms_addTo_le (q : Query) (f : Formula) (tree : Query) :
    (addTo q f tree).terms.length ≤ q.terms.length + 1 := by
  cases f with
  | term t => simp [addTo, Query.pushTerm]
  | join o first second rest => simp [addTo, Query.pushSubquery]

end Formula

/-! ### Reading a formula -/

namespace Spine

open Formula

variable {q : Query} {above : List Query}

/-- A term is read as what is meant. -/
theorem read_writtenTerm (t : WrittenTerm) {rest : List Char}
    (hrest : rest.takeWhile isWordChar = []) :
    read ⟨q, above, none⟩ (t.written.toList ++ rest)
      = read ⟨q.pushTerm t.term, above, none⟩ rest := by
  cases t with
  | word w => exact read_plainWord w hrest
  | phrase opening closing words =>
    have hterm : IsTerm (WrittenTerm.phrase opening closing words).term := by
      refine ⟨words.map Subtype.val, ?_, rfl⟩
      intro w hw
      obtain ⟨w, -, rfl⟩ := List.mem_map.1 hw
      exact w.2
    have htext : (WrittenTerm.phrase opening closing words).written.toList ++ rest
        = opening.1 :: ((WrittenTerm.phrase opening closing words).term.toList
            ++ closing.1 :: rest) := by
      simp [WrittenTerm.written]
    rw [htext, read_phrase opening.2 closing.2 hterm]

/-- The operator between operands sets the requirement of the node, which has one term at most
before that. -/
theorem step_keyword {o : Occur} (h : q.occur = o ∨ (q.occur = .must ∧ q.terms.length ≤ 1)) :
    step ⟨q, above, none⟩ o.keyword = ⟨q.setOccur o, above, none⟩ := by
  cases o with
  | must =>
    have hoccur : q.occur = .must := h.elim id And.left
    exact step_and (Or.inr hoccur)
  | should =>
    have hseveral : q.requiresSeveral = false := by
      rcases h with hoccur | ⟨hoccur, hterms⟩
      · simp [Query.requiresSeveral, hoccur]
      · simp [Query.requiresSeveral, hoccur, hterms]
    exact step_or (Or.inr hseveral)

/-- An operand is read as a part of the node under the cursor, if the formula is read as its tree
in a new node. -/
theorem read_operand (f : Formula) {rest : List Char}
    (hrest : rest.takeWhile isWordChar = [])
    (hread : ∀ (above : List Query) (rest : List Char), rest.takeWhile isWordChar = [] →
      read ⟨{}, above, none⟩ (f.written.toList ++ rest) = read ⟨f.tree, above, none⟩ rest) :
    read ⟨q, above, none⟩ ((f.enclose f.written).toList ++ rest)
      = read ⟨addTo q f f.tree, above, none⟩ rest := by
  cases f with
  | term t => exact read_writtenTerm t hrest
  | join o first second others =>
    have htext : ((join o first second others).enclose (join o first second others).written).toList
          ++ rest
        = '(' :: ((join o first second others).written.toList ++ ')' :: rest) := by
      simp [enclose]
    have hopen : step ⟨q, above, none⟩ (.ofMark '(') = ⟨{}, q :: above, none⟩ := rfl
    have hclose (sub : Query) : step ⟨sub, q :: above, none⟩ (.ofMark ')')
        = ⟨q.pushSubquery sub, above, none⟩ := rfl
    rw [htext, read_mark _ rfl, hopen, hread _ _ rfl, read_mark _ rfl, hclose]
    rfl

theorem takeWhile_writtenRest (o : Occur) (fs : List Formula) {rest : List Char}
    (hrest : rest.takeWhile isWordChar = []) :
    ((writtenRest o fs).toList ++ rest).takeWhile isWordChar = [] := by
  cases fs with
  | nil => simpa [writtenRest] using hrest
  | cons f fs =>
    rw [writtenRest, String.append_assoc, String.toList_append, List.append_assoc]
    exact o.takeWhile_connective _

mutual

/-- A formula that is read in a new node makes the node its tree. -/
theorem read_written_formula : ∀ (f : Formula) (above : List Query) (rest : List Char),
    rest.takeWhile isWordChar = [] →
      read ⟨{}, above, none⟩ (f.written.toList ++ rest) = read ⟨f.tree, above, none⟩ rest
  | .term t, above, rest, hrest => read_writtenTerm t hrest
  | .join o first second others, above, rest, hrest => by
    have htext : (join o first second others).written.toList ++ rest
        = (first.enclose first.written).toList ++ (o.connective.toList
            ++ ((second.enclose second.written).toList
              ++ ((writtenRest o others).toList ++ rest))) := by
      simp [written]
    have hfirst : (addTo {} first first.tree).terms.length ≤ 1 :=
      length_terms_addTo_le {} first first.tree
    have hnew : Query.setOccur {} o = { occur := o } := rfl
    rw [htext, read_operand first (o.takeWhile_connective _) (read_written_formula first),
      read_connective, step_keyword (Or.inr ⟨occur_addTo {} first first.tree, hfirst⟩),
      setOccur_addTo, hnew,
      read_operand second (takeWhile_writtenRest o others hrest) (read_written_formula second),
      read_writtenRest others o _ above rest (by simp) hrest]
    rfl

/-- Further operands are parts of the node like the others. -/
theorem read_writtenRest : ∀ (fs : List Formula) (o : Occur) (q : Query) (above : List Query)
    (rest : List Char), q.occur = o → rest.takeWhile isWordChar = [] →
      read ⟨q, above, none⟩ ((writtenRest o fs).toList ++ rest)
        = read ⟨addRest q fs, above, none⟩ rest
  | [], o, q, above, rest, _, _ => rfl
  | f :: fs, o, q, above, rest, hoccur, hrest => by
    have htext : (writtenRest o (f :: fs)).toList ++ rest
        = o.connective.toList ++ ((f.enclose f.written).toList
            ++ ((writtenRest o fs).toList ++ rest)) := by
      simp [writtenRest]
    rw [htext, read_connective, step_keyword (Or.inl hoccur), Query.setOccur_of_eq hoccur,
      read_operand f (takeWhile_writtenRest o fs hrest) (read_written_formula f),
      read_writtenRest fs o _ above rest (by rw [occur_addTo, hoccur]) hrest]
    rfl

end

end Spine

/-- The tree of a written formula is that of the formula. -/
theorem parse_written_formula (f : Formula) : parse f.written = f.tree := by
  have h := Spine.read_written_formula f [] [] rfl
  rw [List.append_nil, Spine.read_nil] at h
  rw [parse_eq_read, h]
  rfl

/-! ### The truth value of a formula -/

namespace Formula

variable {v : String → Bool}

/-- An operand counts like the other parts of a node. -/
theorem values_addTo (q : Query) (f : Formula) (h : f.tree.holds v = f.value v) :
    ((addTo q f f.tree).values v).Perm (q.values v ++ [f.value v]) := by
  cases f with
  | term t => exact Query.values_pushTerm q t.term
  | join o first second rest =>
    rw [← h]
    exact List.Perm.of_eq (Query.values_pushSubquery q _)

mutual

/-- The tree of a formula has the truth value of the formula. -/
theorem holds_tree : ∀ f : Formula, f.tree.holds v = f.value v
  | .term t => by
    rw [Query.holds_eq]
    exact Occur.combine_singleton _ _
  | .join o first second rest => by
    have hfirst := values_addTo { occur := o } first (holds_tree first)
    have hsecond := (values_addTo (addTo { occur := o } first first.tree) second
      (holds_tree second)).trans (hfirst.append_right _)
    have hvalues : ((join o first second rest).tree.values v).Perm
        (first.value v :: second.value v :: valueAll v rest) :=
      (values_addRest rest _).trans (hsecond.append_right _)
    have hoccur : (join o first second rest).tree.occur = o := by
      simp [tree]
    rw [Query.holds_eq, hoccur, o.combine_perm hvalues]
    rfl

/-- Further operands count likewise. -/
theorem values_addRest : ∀ (fs : List Formula) (q : Query),
    ((addRest q fs).values v).Perm (q.values v ++ valueAll v fs)
  | [], q => List.Perm.of_eq (List.append_nil _).symm
  | f :: fs, q => by
    have hf := (values_addTo q f (holds_tree f)).append_right (valueAll v fs)
    rw [List.append_assoc] at hf
    exact (values_addRest fs (addTo q f f.tree)).trans hf

end

end Formula

/-- **A search string that is a formula means what it says**: its tree holds whenever the formula
does, for any truth values of the terms. -/
theorem holds_parse_formula (f : Formula) (v : String → Bool) :
    (parse f.written).holds v = f.value v := by
  rw [parse_written_formula, Formula.holds_tree]

-- The text of a conjunction of a disjunction and a phrase.
example :
    (Formula.join .must
      (.join .should (.term (.word ⟨"apples", rfl⟩)) (.term (.word ⟨"pears", rfl⟩)) [])
      (.term (.phrase ⟨'"', rfl⟩ ⟨'"', rfl⟩ [⟨"plum", rfl⟩, ⟨"jam", rfl⟩])) []).written
      = "(apples OR pears) AND \"plum jam\"" := by
  decide +kernel

end BooleanSearch
