import BooleanSearch.Proofs.Nodes
import BooleanSearch.Proofs.Replace
import BooleanSearch.Query.Equality

/-!
# Phrases

Whatever stands between two quote marks, it becomes one term and has no other effect.  Parentheses
and keywords in a phrase are neither groups nor operators, and the quote marks part the phrase from
the words around it.  So a phrase may be written in the place of another one: the tree stays the
same but for the one term.

No token looks at a term that is there.  A draft in which one term is exchanged goes through the
same steps, and the term is exchanged in the tree at the end.

## Main definitions

* `WrittenPhrase` — a text without quote marks between two of these, and the term that it becomes.
* `Draft.setTerm` — another term in the place of one.
* `Draft.HasTerm` — where a term stands.

## Main results

* `Spine.read_written_phrase`, `Spine.read_append_written` — a phrase becomes a term.
* `Draft.foldl_step_setTerm` — **tokens see nothing of a term that is there.**
* `Query.layout_replace_terms` — other terms in a layout and in its tree.
* `parse_phrase_exchange` — **one phrase may be exchanged for another.**
-/

namespace BooleanSearch

/-- A phrase as it is written, which is a text without quote marks between two quote marks. -/
structure WrittenPhrase where
  /-- The quote mark before the text. -/
  opening : Char
  /-- The text. -/
  text : String
  /-- The quote mark behind the text. -/
  closing : Char
  /-- The phrase begins with a quote mark of any shape. -/
  isQuote_opening : isQuote opening = true
  /-- It ends with one, which may have another shape. -/
  isQuote_closing : isQuote closing = true
  /-- It does not end before. -/
  isQuote_text : ∀ c ∈ text.toList, isQuote c = false

namespace WrittenPhrase

/-- The phrase with its quote marks. -/
def written (x : WrittenPhrase) : String :=
  String.singleton x.opening ++ x.text ++ String.singleton x.closing

/-- The words and keywords of the phrase, joined by single spaces. -/
def term (x : WrittenPhrase) : String :=
  " ".intercalate ((tokenize x.text).filterMap Token.phraseWord?)

theorem toList_written_append (x : WrittenPhrase) (rest : List Char) :
    x.written.toList ++ rest = x.opening :: (x.text.toList ++ x.closing :: rest) := by
  simp [written]

end WrittenPhrase

/-! ### Reading a phrase -/

theorem quoteMark_not_mem_lexemes {cs : List Char} (h : ∀ c ∈ cs, isQuote c = false) :
    .quoteMark ∉ lexemes cs := by
  have hnone := countP_isQuote_eq_zero h
  rw [← countP_quoteMark_lexemes, List.countP_eq_zero] at hnone
  intro hmem
  exact hnone _ hmem rfl

namespace Spine

/-- Inside a phrase only words and keywords are collected. -/
theorem foldl_in_phrase (q : Query) (above : List Query) (ts : List Token) :
    .quoteMark ∉ ts → ∀ words : List String,
      ts.foldl step ⟨q, above, some words⟩
        = ⟨q, above, some (words ++ ts.filterMap Token.phraseWord?)⟩ := by
  induction ts with
  | nil =>
    intro _ words
    rw [List.filterMap_nil, List.append_nil]
    rfl
  | cons t ts ih =>
    intro hmem words
    rw [List.mem_cons, not_or] at hmem
    have hstep : step ⟨q, above, some words⟩ t
        = ⟨q, above, some (words ++ t.phraseWord?.toList)⟩ :=
      stepInPhrase_of_ne_quoteMark ⟨q, above, some words⟩ words (Ne.symm hmem.1)
    rw [List.foldl_cons, hstep, ih hmem.2, List.append_assoc, filterMap_cons_eq]

/-- A text without quote marks adds its words and keywords to the open phrase. -/
theorem read_in_phrase (q : Query) (above : List Query) (words : List String) {cs : List Char}
    (h : ∀ c ∈ cs, isQuote c = false) :
    read ⟨q, above, some words⟩ cs
      = ⟨q, above, some (words ++ (lexemes cs).filterMap Token.phraseWord?)⟩ :=
  foldl_in_phrase q above (lexemes cs) (quoteMark_not_mem_lexemes h) words

/-- A phrase becomes a term of the node under the cursor. -/
theorem read_written_phrase (q : Query) (above : List Query) (x : WrittenPhrase)
    (rest : List Char) :
    read ⟨q, above, none⟩ (x.written.toList ++ rest)
      = read ⟨q.pushTerm x.term, above, none⟩ rest := by
  have hopen : step ⟨q, above, none⟩ (.ofMark x.opening) = ⟨q, above, some []⟩ := by
    rw [Token.ofMark_eq_quoteMark_iff.2 x.isQuote_opening]
    rfl
  have hclose (words : List String) : step ⟨q, above, some words⟩ (.ofMark x.closing)
      = ⟨q.pushTerm (" ".intercalate words), above, none⟩ := by
    rw [Token.ofMark_eq_quoteMark_iff.2 x.isQuote_closing]
    rfl
  rw [x.toList_written_append, read_mark _ (isMark_of_isQuote x.isQuote_opening), hopen,
    read_append_mark _ _ (isMark_of_isQuote x.isQuote_closing),
    read_in_phrase q above [] x.isQuote_text, hclose, List.nil_append, ← tokenize_eq,
    WrittenPhrase.term]

/-- A phrase becomes a term of the node under the cursor, also behind a string in which every phrase
is closed. -/
theorem read_append_written {p : String} (hp : HasEvenQuotes p) (x : WrittenPhrase)
    (rest : List Char) :
    ({} : Spine).read (p.toList ++ (x.written.toList ++ rest))
      = ((({} : Spine).read p.toList).modify (·.pushTerm x.term)).read rest := by
  have hphrase := phrase_read_of_hasEvenQuotes hp
  have hmark := isMark_of_isQuote x.isQuote_opening
  rw [x.toList_written_append, read_append_mark _ _ hmark, ← read_mark _ hmark,
    ← x.toList_written_append]
  rcases hz : ({} : Spine).read p.toList with ⟨q, above, phrase⟩
  rw [hz] at hphrase
  obtain rfl : phrase = none := hphrase
  exact read_written_phrase q above x rest

end Spine

/-! ### Another term in a draft -/

/-- A node with another term at a position. -/
def Node.setTerm (node : Node) (k : Nat) (term : String) : Node :=
  { node with terms := node.terms.setIfInBounds k term }

namespace Node

@[simp] theorem size_terms_setTerm (node : Node) (k : Nat) (term : String) :
    (node.setTerm k term).terms.size = node.terms.size :=
  Array.size_setIfInBounds

/-- A new term comes behind the one that is exchanged. -/
theorem setTerm_push_of_lt {node : Node} {k : Nat} (h : k < node.terms.size)
    (term other : String) :
    ({ node with terms := node.terms.push other } : Node).setTerm k term
      = { node.setTerm k term with terms := (node.setTerm k term).terms.push other } := by
  have hset : (node.terms.push other).setIfInBounds k term
      = (node.terms.setIfInBounds k term).push other := by
    apply Array.ext'
    rw [Array.toList_push, Array.toList_setIfInBounds, Array.toList_setIfInBounds,
      Array.toList_push, List.set_append_left k term (by simpa using h)]
  simp only [setTerm, hset]

/-- The last term is exchanged. -/
theorem setTerm_push_size (node : Node) (old term : String) :
    ({ node with terms := node.terms.push old } : Node).setTerm node.terms.size term
      = { node with terms := node.terms.push term } := by
  have hset : (node.terms.push old).setIfInBounds node.terms.size term
      = node.terms.push term := by
    apply Array.ext'
    rw [Array.toList_setIfInBounds, Array.toList_push, Array.toList_push,
      List.set_append_right _ _ (by simp)]
    simp
  simp only [setTerm, hset]

end Node

namespace Draft

/-- A draft with another term at a position of the node at a place. -/
def setTerm (d : Draft) (place k : Nat) (term : String) : Draft :=
  { d with nodes := d.nodes.modify place (·.setTerm k term) }

/-- Whether a term stands at a position of the node at a place. -/
def HasTerm (d : Draft) (place k : Nat) (term : String) : Prop :=
  ∃ node, d.nodes[place]? = some node ∧ node.terms[k]? = some term

variable {d : Draft} {place k : Nat} {old : String}

/-- A change of the node under the cursor that only adds terms. -/
theorem HasTerm.modifyCurrent (h : d.HasTerm place k old) {f : Node → Node}
    (hf : ∀ node : Node, node.terms[k]? = some old → (f node).terms[k]? = some old) :
    (d.modifyCurrent f).HasTerm place k old := by
  obtain ⟨node, hnode, hterm⟩ := h
  unfold HasTerm
  rw [getElem?_modifyCurrent, hnode]
  split
  · exact ⟨f node, rfl, hf node hterm⟩
  · exact ⟨node, rfl, hterm⟩

theorem HasTerm.descend (h : d.HasTerm place k old) (o : Occur) :
    (d.descend o).HasTerm place k old := by
  have hne : place ≠ d.nodes.size := by
    obtain ⟨node, hnode, -⟩ := h
    exact Nat.ne_of_lt (Array.getElem?_eq_some_iff.1 hnode).1
  unfold HasTerm
  rw [getElem?_descend, if_neg hne]
  exact h.modifyCurrent fun _ hterm => hterm

theorem HasTerm.pushTerm (h : d.HasTerm place k old) (term : String) :
    (d.pushTerm term).HasTerm place k old := by
  apply h.modifyCurrent
  intro node hterm
  have hlt := (Array.getElem?_eq_some_iff.1 hterm).1
  show (node.terms.push term)[k]? = some old
  rw [Array.getElem?_push, if_neg (Nat.ne_of_lt hlt)]
  exact hterm

/-- A change of the node under the cursor that has nothing to do with the term. -/
theorem modifyCurrent_setTerm (h : d.HasTerm place k old) (term : String) {f : Node → Node}
    (hf : ∀ node : Node, k < node.terms.size →
      f (node.setTerm k term) = (f node).setTerm k term) :
    (d.setTerm place k term).modifyCurrent f = (d.modifyCurrent f).setTerm place k term := by
  obtain ⟨node, hnode, hterm⟩ := h
  have hlt := (Array.getElem?_eq_some_iff.1 hterm).1
  have hnodes : ((d.setTerm place k term).modifyCurrent f).nodes
      = ((d.modifyCurrent f).setTerm place k term).nodes := by
    apply Array.ext_getElem?
    intro i
    show ((d.nodes.modify place (·.setTerm k term)).modify d.cursor f)[i]?
      = ((d.nodes.modify d.cursor f).modify place (·.setTerm k term))[i]?
    simp only [Array.getElem?_modify]
    by_cases hplace : place = i
    · subst hplace
      by_cases hcursor : d.cursor = place
      · -- both changes are made to the node
        rw [if_pos hcursor, if_pos rfl, if_pos rfl, if_pos hcursor, hnode, Option.map_some,
          Option.map_some, Option.map_some, Option.map_some, hf node hlt]
      · simp only [if_neg hcursor]
    · simp only [if_neg hplace]
  calc (d.setTerm place k term).modifyCurrent f
      = { d with nodes := ((d.setTerm place k term).modifyCurrent f).nodes } := rfl
    _ = (d.modifyCurrent f).setTerm place k term := by rw [hnodes]; rfl

theorem pushTerm_setTerm (h : d.HasTerm place k old) (term other : String) :
    (d.setTerm place k term).pushTerm other = (d.pushTerm other).setTerm place k term := by
  apply modifyCurrent_setTerm h term
  intro node hlt
  exact (Node.setTerm_push_of_lt hlt term other).symm

theorem setOccur_setTerm (h : d.HasTerm place k old) (term : String) (o : Occur) :
    (d.setTerm place k term).setOccur o = (d.setOccur o).setTerm place k term :=
  modifyCurrent_setTerm h term fun _ _ => rfl

/-- `AND` sees whether there are terms, but not which. -/
theorem applyAnd_setTerm (h : d.HasTerm place k old) (term : String) :
    (d.setTerm place k term).applyAnd = d.applyAnd.setTerm place k term := by
  apply modifyCurrent_setTerm h term
  intro node _
  have hempty : (node.setTerm k term).terms.isEmpty = node.terms.isEmpty := by
    rw [Array.isEmpty, Array.isEmpty, Node.size_terms_setTerm]
  rw [hempty]
  split <;> rfl

theorem descend_setTerm (h : d.HasTerm place k old) (term : String) (o : Occur) :
    (d.setTerm place k term).descend o = (d.descend o).setTerm place k term := by
  have hlt : place < d.nodes.size := by
    obtain ⟨node, hnode, -⟩ := h
    exact (Array.getElem?_eq_some_iff.1 hnode).1
  have hsize : (d.setTerm place k term).nodes.size = d.nodes.size := Array.size_modify
  have hchild := modifyCurrent_setTerm h term
    (f := fun node => { node with children := node.children.push d.nodes.size }) fun _ _ => rfl
  have hpush (nodes : Array Node) (hnodes : place < nodes.size) (new : Node) :
      (nodes.modify place (·.setTerm k term)).push new
        = (nodes.push new).modify place (·.setTerm k term) := by
    apply Array.ext_getElem?
    intro i
    simp only [Array.getElem?_push, Array.getElem?_modify, Array.size_modify]
    by_cases hi : i = nodes.size
    · -- the new node is not the one at the place
      rw [if_pos hi, if_pos hi, if_neg (by omega)]
    · rw [if_neg hi, if_neg hi]
  rw [descend, descend, hsize, hchild]
  simp only [setTerm]
  rw [hpush _ (by rwa [size_nodes_modifyCurrent])]

/-- `OR` sees how many terms there are, but not which. -/
theorem splitsAtOr_setTerm (d : Draft) (place k : Nat) (term : String) :
    (d.setTerm place k term).splitsAtOr = d.splitsAtOr := by
  have hroot : (d.setTerm place k term).nodes[0]?
      = if place = 0 then d.nodes[0]?.map (·.setTerm k term) else d.nodes[0]? :=
    Array.getElem?_modify
  rw [splitsAtOr, splitsAtOr, hroot]
  split
  · cases d.nodes[0]? with
    | none => rfl
    | some node =>
      rw [Option.map_some, Option.any_some, Option.any_some, Node.size_terms_setTerm]
      rfl
  · rfl

/-- A token keeps every term that is there. -/
theorem HasTerm.step (h : d.HasTerm place k old) (t : Token) :
    (d.step t).HasTerm place k old := by
  cases hphrase : d.phrase with
  | some words =>
    rw [step_eq_stepInPhrase hphrase]
    cases t with
    | quoteMark =>
      rw [stepInPhrase, toggleQuote, hphrase]
      exact HasTerm.pushTerm (d := { d with phrase := none }) h _
    | _ => exact h
  | none =>
    rw [step_eq_stepOutside hphrase]
    cases t with
    | literal word => exact h.pushTerm word
    | and =>
      apply h.modifyCurrent
      intro node hterm
      split
      · exact hterm
      · exact hterm
    | or =>
      show d.applyOr.HasTerm place k old
      rw [applyOr]
      split
      · exact h.descend .should
      · exact h.modifyCurrent fun _ hterm => hterm
    | leftParen => exact h.descend .must
    | quoteMark =>
      rw [stepOutside, toggleQuote, hphrase]
      exact h
    | rightParen | whitespace _ | illegal _ | endOfInput => exact h

/-- A token sees nothing of a term that is there. -/
theorem step_setTerm (h : d.HasTerm place k old) (term : String) (t : Token) :
    (d.setTerm place k term).step t = (d.step t).setTerm place k term := by
  have hsame : (d.setTerm place k term).phrase = d.phrase := rfl
  cases hphrase : d.phrase with
  | some words =>
    rw [step_eq_stepInPhrase hphrase, step_eq_stepInPhrase (hsame.trans hphrase)]
    cases t with
    | quoteMark =>
      simp only [stepInPhrase, toggleQuote, hsame, hphrase]
      exact pushTerm_setTerm (d := { d with phrase := none }) h term _
    | _ => rfl
  | none =>
    rw [step_eq_stepOutside hphrase, step_eq_stepOutside (hsame.trans hphrase)]
    cases t with
    | literal word => exact pushTerm_setTerm h term word
    | and => exact applyAnd_setTerm h term
    | or =>
      show (d.setTerm place k term).applyOr = d.applyOr.setTerm place k term
      rw [applyOr, applyOr, splitsAtOr_setTerm]
      split
      · exact descend_setTerm h term .should
      · exact setOccur_setTerm h term .should
    | leftParen => exact descend_setTerm h term .must
    | quoteMark =>
      simp only [stepOutside, toggleQuote, hsame, hphrase]
      rfl
    | rightParen | whitespace _ | illegal _ | endOfInput => rfl

/-- **Tokens see nothing of a term that is there.** -/
theorem foldl_step_setTerm (ts : List Token) : ∀ {d : Draft}, d.HasTerm place k old →
    ∀ term : String,
      ts.foldl step (d.setTerm place k term) = (ts.foldl step d).setTerm place k term ∧
        (ts.foldl step d).HasTerm place k old := by
  induction ts with
  | nil =>
    intro d h term
    exact ⟨rfl, h⟩
  | cons t ts ih =>
    intro d h term
    rw [List.foldl_cons, List.foldl_cons, step_setTerm h]
    exact ih (h.step t) term

/-- Another term may be exchanged for the last one of the node under the cursor. -/
theorem pushTerm_eq_setTerm (d : Draft) (h : d.cursor < d.nodes.size) (old term : String) :
    d.pushTerm term = (d.pushTerm old).setTerm d.cursor d.termCount term ∧
      (d.pushTerm old).HasTerm d.cursor d.termCount old := by
  have hnode : d.nodes[d.cursor]? = some d.nodes[d.cursor] := Array.getElem?_eq_getElem h
  have hcount := termCount_eq hnode
  constructor
  · have hnodes : (d.pushTerm term).nodes
        = ((d.pushTerm old).setTerm d.cursor d.termCount term).nodes := by
      apply Array.ext_getElem?
      intro i
      show (d.nodes.modify d.cursor _)[i]?
        = ((d.nodes.modify d.cursor _).modify d.cursor (·.setTerm d.termCount term))[i]?
      simp only [Array.getElem?_modify]
      by_cases hi : d.cursor = i
      · subst hi
        rw [if_pos rfl, if_pos rfl, if_pos rfl, hnode, Option.map_some, Option.map_some,
          Option.map_some, hcount, Node.setTerm_push_size]
      · rw [if_neg hi, if_neg hi, if_neg hi]
    calc d.pushTerm term
        = { d with nodes := (d.pushTerm term).nodes } := rfl
      _ = (d.pushTerm old).setTerm d.cursor d.termCount term := by rw [hnodes]; rfl
  · refine ⟨{ d.nodes[d.cursor] with terms := d.nodes[d.cursor].terms.push old }, ?_, ?_⟩
    · rw [pushTerm, getElem?_modifyCurrent, if_pos rfl, hnode, Option.map_some]
    · rw [hcount]
      exact Array.getElem?_push_size

end Draft

/-! ### Other terms in a tree -/

namespace Query

mutual

theorem size_replace : ∀ (q : Query) {n : Nat} {sub x : Query}, q.subtrees[n]? = some sub →
    x.size = sub.size → (q.replace n x).size = q.size
  | q, 0, sub, x, h, hx => by
    rw [subtrees_eq, List.getElem?_cons_zero, Option.some_inj] at h
    rw [replace_zero, hx, h]
  | ⟨o, ts, subs⟩, n + 1, sub, x, h, hx => by
    rw [subtrees_eq, List.getElem?_cons_succ] at h
    rw [replace_succ, size_eq, size_eq, sizeAll_replaceAll subs h hx]

theorem sizeAll_replaceAll : ∀ (qs : List Query) {n : Nat} {sub x : Query},
    (subtreesAll qs)[n]? = some sub → x.size = sub.size →
      sizeAll (replaceAll qs n x) = sizeAll qs
  | [], n, sub, x, h, hx => by cases h
  | q :: qs, n, sub, x, h, hx => by
    rw [subtreesAll_cons] at h
    rw [replaceAll]
    by_cases hn : n < q.size
    · rw [List.getElem?_append_left (by simpa using hn)] at h
      rw [if_pos hn, sizeAll_cons, sizeAll_cons, size_replace q h hx]
    · rw [List.getElem?_append_right (by simpa using hn), length_subtrees] at h
      rw [if_neg hn, sizeAll_cons, sizeAll_cons, sizeAll_replaceAll qs h hx]

end

/-- A tree of the same size in the place of a node leaves all places as they are. -/
theorem places_replaceAll (qs : List Query) : ∀ {n : Nat} {sub x : Query},
    (subtreesAll qs)[n]? = some sub → x.size = sub.size →
      ∀ place, places place (replaceAll qs n x) = places place qs := by
  induction qs with
  | nil =>
    intro n sub x h
    cases h
  | cons q qs ih =>
    intro n sub x h hx place
    rw [subtreesAll_cons] at h
    rw [replaceAll]
    by_cases hn : n < q.size
    · rw [List.getElem?_append_left (by simpa using hn)] at h
      rw [if_pos hn, places_cons, places_cons, size_replace q h hx]
    · rw [List.getElem?_append_right (by simpa using hn), length_subtrees] at h
      rw [if_neg hn, places_cons, places_cons, ih h hx]

mutual

/-- Other terms of a node change one node of the layout. -/
theorem layout_replace_terms : ∀ (q : Query) (place : Nat) {n : Nat} {sub : Query},
    q.subtrees[n]? = some sub → ∀ terms : List String,
      (q.replace n { sub with terms }).layout place
        = (q.layout place).modify n fun node => { node with terms := terms.toArray }
  | q, place, 0, sub, h, terms => by
    rw [subtrees_eq, List.getElem?_cons_zero, Option.some_inj] at h
    subst h
    rw [replace_zero, layout_eq, layout_eq, List.modify_zero_cons]
    rfl
  | ⟨o, ts, subs⟩, place, n + 1, sub, h, terms => by
    rw [subtrees_eq, List.getElem?_cons_succ] at h
    have hsize : Query.size { sub with terms } = sub.size := by rw [size_eq, size_eq]
    have hplaces := places_replaceAll subs h hsize (place + 1)
    rw [replace_succ, layout_eq, layout_eq, List.modify_succ_cons,
      layoutAll_replaceAll_terms subs (place + 1) h terms]
    simp only [root, hplaces]

theorem layoutAll_replaceAll_terms : ∀ (qs : List Query) (place : Nat) {n : Nat} {sub : Query},
    (subtreesAll qs)[n]? = some sub → ∀ terms : List String,
      layoutAll place (replaceAll qs n { sub with terms })
        = (layoutAll place qs).modify n fun node => { node with terms := terms.toArray }
  | [], place, n, sub, h, terms => by cases h
  | q :: qs, place, n, sub, h, terms => by
    rw [subtreesAll_cons] at h
    have hsize : Query.size { sub with terms } = sub.size := by rw [size_eq, size_eq]
    rw [replaceAll, layoutAll_cons]
    by_cases hn : n < q.size
    · rw [List.getElem?_append_left (by simpa using hn)] at h
      rw [if_pos hn, layoutAll_cons, layout_replace_terms q place h terms, size_replace q h hsize,
        modify_append_left _ _ (by simpa using hn)]
    · rw [List.getElem?_append_right (by simpa using hn), length_subtrees] at h
      -- the other trees begin behind the first one
      have hindex : n = (q.layout place).length + (n - q.size) := by
        rw [length_layout]
        omega
      rw [if_neg hn, layoutAll_cons, layoutAll_replaceAll_terms qs (place + q.size) h terms]
      conv => rhs; rw [hindex]
      rw [modify_append_right]

end

/-- A tree is determined by its layout. -/
theorem eq_of_layout_eq {q q' : Query} (h : q.layout 0 = q'.layout 0) : q = q' := by
  have hq : Draft.query { nodes := (q.layout 0).toArray } = q := Draft.query_of_layout rfl
  have hq' : Draft.query { nodes := (q.layout 0).toArray } = q' := by
    apply Draft.query_of_layout
    rw [h]
  rw [← hq, hq']

end Query

namespace Spine

/-- A term that stands in a draft stands in its tree, and another one may be exchanged for it in
both. -/
theorem tree_of_draft_setTerm {z z' : Spine} {place k : Nat} {old term : String}
    (hdraft : z'.draft = z.draft.setTerm place k term) (hterm : z.draft.HasTerm place k old) :
    ∃ node, z.tree.subtrees[place]? = some node ∧ node.terms[k]? = some old ∧
      z'.tree = z.tree.replace place { node with terms := node.terms.set k term } := by
  obtain ⟨node, hnode, hold⟩ := hterm
  rw [getElem?_nodes, Option.map_eq_some_iff] at hnode
  obtain ⟨sub, hsub, rfl⟩ := hnode
  refine ⟨sub, hsub, ?_, ?_⟩
  · rw [Query.root, List.getElem?_toArray] at hold
    exact hold
  · have hlayout : z'.tree.layout 0 = (z.tree.layout 0).modify place (·.setTerm k term) := by
      have hnodes := congrArg (fun d => d.nodes.toList) hdraft
      simpa [draft, Draft.setTerm] using hnodes
    have hroot : (z.tree.layout 0)[place]? = some (sub.root place) := by
      rw [Query.getElem?_layout, hsub, Option.map_some, Nat.zero_add]
    apply Query.eq_of_layout_eq
    rw [hlayout, Query.layout_replace_terms _ 0 hsub]
    -- the two changes of the node are the same, as the node is the root of the subtree
    apply List.ext_getElem?
    intro i
    rw [List.getElem?_modify, List.getElem?_modify]
    by_cases hi : place = i
    · subst hi
      rw [hroot]
      simp [Node.setTerm, Query.root]
    · simp [hi]

end Spine

/-! ### Strings -/

/-- **One phrase may be exchanged for another**, which exchanges one term of the tree.  That is the
term behind those of the node under the cursor where the phrase begins. -/
theorem parse_phrase_exchange {p : String} (hp : HasEvenQuotes p) (r : String)
    (x y : WrittenPhrase) :
    ∃ node,
      (parse (p ++ x.written ++ r)).subtrees[(Draft.ofTokens (tokenize p)).cursor]? = some node ∧
      node.terms[(Draft.ofTokens (tokenize p)).termCount]? = some x.term ∧
      parse (p ++ y.written ++ r)
        = (parse (p ++ x.written ++ r)).replace (Draft.ofTokens (tokenize p)).cursor
            { node with
              terms := node.terms.set (Draft.ofTokens (tokenize p)).termCount y.term } := by
  -- after the phrase, the rest is taken into the one draft or the other
  have hdraft (x : WrittenPhrase) : (({} : Spine).read (p ++ x.written ++ r).toList).draft
      = (lexemes r.toList).foldl Draft.step ((Draft.ofTokens (tokenize p)).pushTerm x.term) := by
    rw [String.toList_append, String.toList_append, List.append_assoc,
      Spine.read_append_written hp, Spine.read, ← Spine.foldl_step_draft, ← Spine.pushTerm_draft,
      Draft.ofTokens_tokenize]
  have hcursor : (Draft.ofTokens (tokenize p)).cursor
      < (Draft.ofTokens (tokenize p)).nodes.size := by
    rw [Draft.ofTokens_eq]
    exact Spine.cursor_lt_size_nodes _
  obtain ⟨hpush, hterm⟩ := (Draft.ofTokens (tokenize p)).pushTerm_eq_setTerm hcursor x.term y.term
  obtain ⟨hset, hkept⟩ := Draft.foldl_step_setTerm (lexemes r.toList) hterm y.term
  rw [parse_eq_read, parse_eq_read]
  apply Spine.tree_of_draft_setTerm
  · rw [hdraft, hdraft, hpush, hset]
  · rw [hdraft]
    exact hkept

/-- A phrase with an operator and a parenthesis, exchanged for an empty one inside a group. -/
theorem parse_phrase_exchange_plums :
    HasEvenQuotes "ripe (figs AND " ∧
      ∃ node,
        (parse ("ripe (figs AND " ++ "\"OR (plums”" ++ " OR pears")).subtrees[1]? = some node ∧
        node.terms[1]? = some "OR plums" ∧
        parse ("ripe (figs AND " ++ "“\"" ++ " OR pears")
          = (parse ("ripe (figs AND " ++ "\"OR (plums”" ++ " OR pears")).replace 1
              { node with terms := node.terms.set 1 "" } := by
  have heven : HasEvenQuotes "ripe (figs AND " := by decide
  let x : WrittenPhrase := ⟨'"', "OR (plums", '”', rfl, rfl, by simp [isQuote]⟩
  let y : WrittenPhrase := ⟨'“', "", '"', rfl, rfl, by simp⟩
  have hcursor : (Draft.ofTokens (tokenize "ripe (figs AND ")).cursor = 1 := by
    rw [tokenize_eq]
    decide +kernel
  have hcount : (Draft.ofTokens (tokenize "ripe (figs AND ")).termCount = 1 := by
    rw [tokenize_eq]
    decide +kernel
  have hx : x.term = "OR plums" := by
    rw [WrittenPhrase.term, tokenize_eq]
    decide +kernel
  have hy : y.term = "" := by
    rw [WrittenPhrase.term, tokenize_eq]
    decide +kernel
  have h := parse_phrase_exchange heven " OR pears" x y
  rw [hcursor, hcount, hx, hy] at h
  exact ⟨heven, h⟩

end BooleanSearch
