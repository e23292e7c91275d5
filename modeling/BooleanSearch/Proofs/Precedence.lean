import BooleanSearch.Proofs.Meaning

/-!
# Precedence

Without parentheses `AND` is meant to bind tighter than `OR`, but a draft is written down from left
to right and a word is never moved to another node.  The words of a chain stay at the root up to
the first `OR` that comes after an `AND`.  There the root is closed for good: it requires all it
has, and the subquery that is opened takes all that comes next, however many operators follow.
Either node follows the last of its operators.

So a tree may require more than the chain asks for, but never less.  Where all operators are the
same there is no difference, and in any other chain there is one: the first word is required.

## Main definitions

* `Chain` — words with operators between them; `Chain.written`, their text.
* `Chain.value` — the truth value of a chain in which `AND` binds tighter.
* `Chain.rootLinks`, `Chain.splitLinks` — the operators and words up to the place where the root
  is closed, and those from there.
* `Chain.tree` — the tree of a chain.

## Main results

* `Spine.read_links` — operators and words that stay in a node.
* `parse_written_chain` — the tree of a written chain.
* `holds_parse_chain` — **what a chain is read as, and where `AND` binds tighter.**
* `first_word_required` — a chain where it does not.
-/

namespace BooleanSearch

/-- An operator and the word behind it. -/
structure Link where
  /-- The operator. -/
  operator : Occur
  /-- The word. -/
  word : PlainWord

/-- A word, and more words with an operator before each. -/
structure Chain where
  /-- The first word. -/
  first : PlainWord
  /-- The operators and the words behind them. -/
  rest : List Link

namespace Link

/-- The text of some links. -/
def written : List Link → String
  | [] => ""
  | l :: ls => l.operator.connective ++ l.word.text ++ written ls

theorem written_append (ls ms : List Link) : written (ls ++ ms) = written ls ++ written ms := by
  induction ls with
  | nil => simp [written]
  | cons l ls ih => simp [written, ih, String.append_assoc]

/-- The words of some links. -/
def words (ls : List Link) : List String :=
  ls.map fun l => l.word.text

/-- The last operator of some links, or `o` if there are none. -/
def lastOperator (o : Occur) : List Link → Occur
  | [] => o
  | l :: ls => lastOperator l.operator ls

/-- The truth value of some links behind a conjunction with the value `acc`. -/
def valueFrom (v : String → Bool) (acc : Bool) : List Link → Bool
  | [] => acc
  | ⟨.must, w⟩ :: ls => valueFrom v (acc && v w.text) ls
  | ⟨.should, w⟩ :: ls => acc || valueFrom v (v w.text) ls

/-- Whether a link has the given operator. -/
def hasOperator (o : Occur) (l : Link) : Bool :=
  l.operator == o

theorem hasOperator_iff {o : Occur} {l : Link} : l.hasOperator o = true ↔ l.operator = o :=
  beq_iff_eq

theorem lastOperator_append (o : Occur) (ls ms : List Link) :
    lastOperator o (ls ++ ms) = lastOperator (lastOperator o ls) ms := by
  induction ls generalizing o with
  | nil => rfl
  | cons l ls ih => exact ih l.operator

/-- Where all operators are the same, so is the last one. -/
theorem lastOperator_eq {o o' : Occur} {ls : List Link} (h : ∀ l ∈ ls, l.operator = o')
    (hne : o = o' ∨ ls ≠ []) : lastOperator o ls = o' := by
  induction ls generalizing o with
  | nil => exact hne.resolve_right fun h => h rfl
  | cons l ls ih =>
    rw [List.forall_mem_cons] at h
    exact ih h.2 (Or.inl h.1)

/-- Adds the words of some links to a node, which follows the last operator. -/
def addLinks (q : Query) (ls : List Link) : Query :=
  { q with occur := lastOperator q.occur ls, terms := q.terms ++ words ls }

@[simp] theorem addLinks_nil (q : Query) : addLinks q [] = q := by
  cases q
  simp [addLinks, lastOperator, words]

theorem addLinks_cons (q : Query) (l : Link) (ls : List Link) :
    addLinks q (l :: ls) = addLinks ((q.setOccur l.operator).pushTerm l.word.text) ls := by
  simp [addLinks, lastOperator, words, Query.setOccur, Query.pushTerm]

theorem addLinks_append (q : Query) (ls ms : List Link) :
    addLinks q (ls ++ ms) = addLinks (addLinks q ls) ms := by
  simp [addLinks, lastOperator_append, words]

/-! ### Truth values of links -/

variable {v : String → Bool}

/-- Where all operators are the same, they combine all words alike. -/
theorem valueFrom_eq_combine {o : Occur} {ls : List Link} (h : ∀ l ∈ ls, l.operator = o) :
    ∀ acc, valueFrom v acc ls = o.combine (acc :: (words ls).map v) := by
  induction ls with
  | nil =>
    intro acc
    exact (o.combine_singleton acc).symm
  | cons l ls ih =>
    intro acc
    obtain ⟨o', w⟩ := l
    rw [List.forall_mem_cons] at h
    obtain rfl : o' = o := h.1
    cases o' with
    | must =>
      rw [valueFrom, ih h.2]
      simp [Occur.combine, words, Bool.and_assoc]
    | should =>
      rw [valueFrom, ih h.2]
      simp [Occur.combine, words]

/-- It is enough that the words up to some `OR` hold. -/
theorem valueFrom_append {ls ms : List Link} (hls : ∀ l ∈ ls, v l.word.text = true)
    (hms : ∀ m ∈ ms.head?, m.operator = .should) : valueFrom v true (ls ++ ms) = true := by
  induction ls with
  | nil =>
    cases ms with
    | nil => rfl
    | cons m ms =>
      obtain ⟨o, w⟩ := m
      obtain rfl : o = .should := hms _ rfl
      rfl
  | cons l ls ih =>
    obtain ⟨o, w⟩ := l
    rw [List.forall_mem_cons] at hls
    have hw : v w.text = true := hls.1
    cases o with
    | must => rw [List.cons_append, valueFrom, hw]; exact ih hls.2
    | should => rfl

/-- It is enough that all words but the first hold, if there is an `OR`. -/
theorem valueFrom_of_exists_or {ls : List Link} (hls : ∀ l ∈ ls, v l.word.text = true)
    (hor : ∃ l ∈ ls, l.operator = .should) : ∀ acc, valueFrom v acc ls = true := by
  induction ls with
  | nil =>
    obtain ⟨l, hl, -⟩ := hor
    cases hl
  | cons l ls ih =>
    intro acc
    obtain ⟨o, w⟩ := l
    rw [List.forall_mem_cons] at hls
    have hw : v w.text = true := hls.1
    cases o with
    | must =>
      have hrest : ∃ l ∈ ls, l.operator = .should := by
        obtain ⟨l, hl, ho⟩ := hor
        rcases List.mem_cons.1 hl with rfl | hl
        · cases ho
        · exact ⟨l, hl, ho⟩
      exact ih hls.2 hrest _
    | should =>
      -- what comes next is a disjunct whose words hold, up to its end
      have hnext : valueFrom v true (ls ++ []) = true :=
        valueFrom_append hls.2 fun m hm => by cases hm
      rw [valueFrom, hw, ← List.append_nil ls, hnext, Bool.or_true]

end Link

namespace Chain

open Link

/-- The text of a chain. -/
def written (c : Chain) : String :=
  c.first.text ++ Link.written c.rest

/-- The truth value of a chain, where `v` gives those of the words: `AND` binds tighter than
`OR`. -/
def value (c : Chain) (v : String → Bool) : Bool :=
  valueFrom v (v c.first.text) c.rest

/-- All operators of a chain are the same. -/
def IsUniform (c : Chain) : Prop :=
  ∃ o, ∀ l ∈ c.rest, l.operator = o

/-- The links up to the first `AND`. -/
def orLinks (c : Chain) : List Link :=
  c.rest.takeWhile (hasOperator .should)

/-- The links from there up to the next `OR`. -/
def andLinks (c : Chain) : List Link :=
  (c.rest.dropWhile (hasOperator .should)).takeWhile (hasOperator .must)

/-- The links up to the first `OR` that comes after an `AND`. -/
def rootLinks (c : Chain) : List Link :=
  c.orLinks ++ c.andLinks

/-- The links from the first `OR` that comes after an `AND`. -/
def splitLinks (c : Chain) : List Link :=
  (c.rest.dropWhile (hasOperator .should)).dropWhile (hasOperator .must)

/-- The node of the words up to the place where the root is closed. -/
def root (c : Chain) : Query :=
  addLinks { terms := [c.first.text] } c.rootLinks

/-- The node of the words from there. -/
def split (c : Chain) : Query :=
  addLinks { occur := .should } c.splitLinks

/-- The tree of a chain. -/
def tree (c : Chain) : Query :=
  if c.splitLinks.isEmpty then c.root else c.root.pushSubquery c.split

theorem rootLinks_append_splitLinks (c : Chain) : c.rootLinks ++ c.splitLinks = c.rest := by
  rw [rootLinks, orLinks, andLinks, splitLinks, List.append_assoc,
    List.takeWhile_append_dropWhile, List.takeWhile_append_dropWhile]

theorem operator_of_mem_orLinks {c : Chain} {l : Link} (hl : l ∈ c.orLinks) :
    l.operator = .should :=
  hasOperator_iff.1 (List.mem_takeWhile_imp hl)

theorem operator_of_mem_andLinks {c : Chain} {l : Link} (hl : l ∈ c.andLinks) :
    l.operator = .must :=
  hasOperator_iff.1 (List.mem_takeWhile_imp hl)

/-- The root is closed by an `OR`. -/
theorem operator_head_splitLinks (c : Chain) :
    ∀ l ∈ c.splitLinks.head?, l.operator = .should := by
  intro l hl
  have hstop := List.head?_dropWhile_not (hasOperator .must)
    (c.rest.dropWhile (hasOperator .should))
  rw [← splitLinks, Option.mem_def.1 hl] at hstop
  obtain ⟨o, w⟩ := l
  cases o with
  | must => cases hstop
  | should => rfl

/-- Unless all operators are `OR`, the last one at the root is `AND`. -/
theorem lastOperator_rootLinks {c : Chain} (h : ¬∀ l ∈ c.rest, l.operator = .should)
    (o : Occur) : lastOperator o c.rootLinks = .must := by
  have hne : c.andLinks ≠ [] := by
    intro hnil
    rw [andLinks] at hnil
    cases hdrop : c.rest.dropWhile (hasOperator .should) with
    | nil => exact h fun l hl => hasOperator_iff.1 (List.dropWhile_eq_nil_iff.1 hdrop l hl)
    | cons l ls =>
      have hstop := List.head?_dropWhile_not (hasOperator .should) c.rest
      rw [hdrop] at hnil hstop
      obtain ⟨o, w⟩ := l
      cases o with
      | must => cases hnil
      | should => cases hstop
  rw [rootLinks, lastOperator_append]
  exact lastOperator_eq (fun l hl => operator_of_mem_andLinks hl) (Or.inr hne)

/-- The root is closed only behind an `AND`. -/
theorem requiresSeveral_root {c : Chain} (h : c.splitLinks ≠ []) :
    c.root.requiresSeveral = true := by
  have hand : ¬∀ l ∈ c.rest, l.operator = .should := by
    intro hor
    have hdrop : c.rest.dropWhile (hasOperator .should) = [] :=
      List.dropWhile_eq_nil_iff.2 fun l hl => hasOperator_iff.2 (hor l hl)
    exact h (by rw [splitLinks, hdrop]; rfl)
  have hoccur : c.root.occur = .must := lastOperator_rootLinks hand .must
  have hterms : c.root.terms = c.first.text :: words c.rootLinks := rfl
  cases hlinks : c.rootLinks with
  | nil =>
    -- without links the last operator could be any
    have hlast := lastOperator_rootLinks hand .should
    rw [hlinks] at hlast
    cases hlast
  | cons l ls =>
    rw [hlinks] at hterms
    simp [Query.requiresSeveral, hoccur, hterms, words]

end Chain

/-! ### Reading a chain -/

namespace Spine

open Link

variable {q : Query} {above : List Query}

/-- Some links can be read in a node without an `OR` that opens a subquery: the node is not the
root, or there is no `OR`, or nothing else and not yet several terms are required. -/
def Stays (q : Query) (above : List Query) (ls : List Link) : Prop :=
  above ≠ [] ∨ (∀ l ∈ ls, l.operator = .must)
    ∨ (q.requiresSeveral = false ∧ ∀ l ∈ ls, l.operator = .should)

theorem Stays.step {l : Link} {ls : List Link} (h : Stays q above (l :: ls))
    (hq : q.terms ≠ []) :
    step ⟨q, above, none⟩ l.operator.keyword = ⟨q.setOccur l.operator, above, none⟩ := by
  obtain ⟨o, w⟩ := l
  cases o with
  | must => exact step_and (Or.inl hq)
  | should =>
    refine step_or ?_
    rcases h with h | h | h
    · exact Or.inl h
    · cases h _ List.mem_cons_self
    · exact Or.inr h.1

theorem Stays.tail {l : Link} {ls : List Link} (h : Stays q above (l :: ls)) :
    Stays ((q.setOccur l.operator).pushTerm l.word.text) above ls := by
  simp only [Stays, List.forall_mem_cons] at h ⊢
  rcases h with h | h | h
  · exact Or.inl h
  · exact Or.inr (Or.inl h.2)
  · have hseveral : ((q.setOccur l.operator).pushTerm l.word.text).requiresSeveral = false := by
      rw [h.2.1]
      rfl
    exact Or.inr (Or.inr ⟨hseveral, h.2.2⟩)

theorem takeWhile_written (ls : List Link) {rest : List Char}
    (hrest : rest.takeWhile isWordChar = []) :
    ((Link.written ls).toList ++ rest).takeWhile isWordChar = [] := by
  cases ls with
  | nil => simpa [Link.written] using hrest
  | cons l ls =>
    rw [Link.written, String.append_assoc, String.toList_append, List.append_assoc]
    exact l.operator.takeWhile_connective _

/-- Operators and words that stay in a node. -/
theorem read_links (ls : List Link) {rest : List Char} (hrest : rest.takeWhile isWordChar = []) :
    ∀ q : Query, q.terms ≠ [] → Stays q above ls →
      read ⟨q, above, none⟩ ((Link.written ls).toList ++ rest)
        = read ⟨addLinks q ls, above, none⟩ rest := by
  induction ls with
  | nil =>
    intro q _ _
    rw [addLinks_nil]
    rfl
  | cons l ls ih =>
    intro q hq hstays
    have htext : (Link.written (l :: ls)).toList ++ rest
        = l.operator.connective.toList ++ (l.word.text.toList
            ++ ((Link.written ls).toList ++ rest)) := by
      simp [Link.written]
    have hterms : ((q.setOccur l.operator).pushTerm l.word.text).terms ≠ [] := by
      simp [Query.pushTerm]
    rw [htext, read_connective, hstays.step hq, read_plainWord _ (takeWhile_written ls hrest),
      ih _ hterms hstays.tail, addLinks_cons]

/-- The links at the root. -/
theorem read_rootLinks (c : Chain) {rest : List Char} (hrest : rest.takeWhile isWordChar = []) :
    ({} : Spine).read (c.first.text.toList ++ ((Link.written c.rootLinks).toList ++ rest))
      = read ⟨c.root, [], none⟩ rest := by
  have htext : (Link.written c.rootLinks).toList ++ rest
      = (Link.written c.orLinks).toList ++ ((Link.written c.andLinks).toList ++ rest) := by
    simp [Chain.rootLinks, written_append]
  have hfirst : Query.pushTerm {} c.first.text = { terms := [c.first.text] } := rfl
  have hor : Stays { terms := [c.first.text] } [] c.orLinks :=
    Or.inr (Or.inr ⟨rfl, fun l hl => Chain.operator_of_mem_orLinks hl⟩)
  have hand (q : Query) : Stays q [] c.andLinks :=
    Or.inr (Or.inl fun l hl => Chain.operator_of_mem_andLinks hl)
  have hterms : (addLinks { terms := [c.first.text] } c.orLinks).terms ≠ [] := by
    simp [addLinks]
  have hnext := takeWhile_written c.andLinks hrest
  rw [htext, read_plainWord _ (takeWhile_written c.orLinks hnext), hfirst,
    read_links _ hnext _ (List.cons_ne_nil _ _) hor, read_links _ hrest _ hterms (hand _),
    ← addLinks_append]
  rfl

/-- The `OR` that closes the root. -/
theorem read_split (hq : q.requiresSeveral = true) {l : Link} (hl : l.operator = .should)
    (ls : List Link) :
    read ⟨q, [], none⟩ (Link.written (l :: ls)).toList
      = ⟨addLinks { occur := .should } (l :: ls), [q], none⟩ := by
  have htext : (Link.written (l :: ls)).toList
      = l.operator.connective.toList ++ (l.word.text.toList
          ++ ((Link.written ls).toList ++ [])) := by
    simp [Link.written]
  have hstep : step ⟨q, [], none⟩ Occur.should.keyword = ⟨{ occur := .should }, [q], none⟩ := by
    show applyOr ⟨q, [], none⟩ = _
    rw [applyOr, hq]
    rfl
  have hterms : (({ occur := .should } : Query).pushTerm l.word.text).terms ≠ [] := by
    simp [Query.pushTerm]
  rw [htext, read_connective, hl, hstep, read_plainWord _ (takeWhile_written ls rfl),
    read_links ls rfl _ hterms (Or.inl (List.cons_ne_nil q [])), read_nil, addLinks_cons, hl]
  rfl

end Spine

/-- The tree of a written chain is that of the chain. -/
theorem parse_written_chain (c : Chain) : parse c.written = c.tree := by
  have htext : c.written.toList
      = c.first.text.toList ++ ((Link.written c.rootLinks).toList
          ++ (Link.written c.splitLinks).toList) := by
    rw [Chain.written, ← c.rootLinks_append_splitLinks, Link.written_append]
    simp
  rw [parse_eq_read, Chain.tree]
  cases hsplit : c.splitLinks with
  | nil =>
    rw [htext, hsplit, Spine.read_rootLinks c rfl]
    exact congrArg Spine.tree (Spine.read_nil _)
  | cons l ls =>
    have hclosed : c.root.requiresSeveral = true :=
      Chain.requiresSeveral_root (by rw [hsplit]; exact List.cons_ne_nil l ls)
    have hl : l.operator = .should := c.operator_head_splitLinks l (by rw [hsplit]; rfl)
    have hrest : (Link.written (l :: ls)).toList.takeWhile isWordChar = [] := by
      have h := Spine.takeWhile_written (l :: ls) List.takeWhile_nil
      rwa [List.append_nil] at h
    have hclosing : Link.addLinks { occur := .should } (l :: ls) = c.split := by
      rw [← hsplit, Chain.split]
    rw [htext, hsplit, Spine.read_rootLinks c hrest, Spine.read_split hclosed hl, hclosing]
    rfl

/-! ### The truth value of a chain -/

namespace Chain

open Link

variable {v : String → Bool}

theorem holds_addLinks {q : Query} (hq : q.subqueries = []) (ls : List Link) :
    (addLinks q ls).holds v
      = (lastOperator q.occur ls).combine (q.terms.map v ++ (words ls).map v) := by
  rw [Query.holds_eq]
  simp [addLinks, Query.values, hq]

/-- The truth value of a chain's tree. -/
theorem holds_tree (c : Chain) (v : String → Bool) :
    c.tree.holds v
      = ((lastOperator .must c.rootLinks).combine (v c.first.text :: (words c.rootLinks).map v)
        && (c.splitLinks.isEmpty
          || (lastOperator .should c.splitLinks).combine ((words c.splitLinks).map v))) := by
  have hroot : c.root.holds v
      = (lastOperator .must c.rootLinks).combine (v c.first.text :: (words c.rootLinks).map v) :=
    holds_addLinks rfl c.rootLinks
  have hsplit : c.split.holds v
      = (lastOperator .should c.splitLinks).combine ((words c.splitLinks).map v) :=
    holds_addLinks rfl c.splitLinks
  rw [← hroot, ← hsplit, tree]
  split
  · next hnil => rw [hnil, Bool.true_or, Bool.and_true]
  · next hne =>
    -- a closed root requires its subquery like its terms
    have hseveral := requiresSeveral_root fun h => hne (List.isEmpty_iff.2 h)
    have hoccur : c.root.occur = .must := by
      simp only [Query.requiresSeveral, Bool.and_eq_true, beq_iff_eq] at hseveral
      exact hseveral.1
    have hpush : (c.root.pushSubquery c.split).occur = .must := hoccur
    rw [Bool.eq_false_iff.2 hne, Bool.false_or, Query.holds_eq, hpush, Query.values_pushSubquery,
      Query.holds_eq c.root, hoccur]
    simp [Occur.combine]

theorem splitLinks_eq_nil {c : Chain} (h : c.IsUniform) : c.splitLinks = [] := by
  obtain ⟨o, ho⟩ := h
  rw [splitLinks, List.dropWhile_eq_nil_iff]
  intro l hl
  cases o with
  | must => exact hasOperator_iff.2 (ho l ((List.dropWhile_sublist _).mem hl))
  | should =>
    have hdrop : c.rest.dropWhile (hasOperator .should) = [] :=
      List.dropWhile_eq_nil_iff.2 fun l hl => hasOperator_iff.2 (ho l hl)
    rw [hdrop] at hl
    cases hl

/-- Where all operators are the same, the tree has the truth value of the chain. -/
theorem holds_tree_of_isUniform {c : Chain} (h : c.IsUniform) (v : String → Bool) :
    c.tree.holds v = c.value v := by
  have hsplit := splitLinks_eq_nil h
  have hroot : c.rootLinks = c.rest := by
    have happend := c.rootLinks_append_splitLinks
    rwa [hsplit, List.append_nil] at happend
  rw [holds_tree, hsplit, hroot, List.isEmpty_nil, Bool.true_or, Bool.and_true, value]
  cases hrest : c.rest with
  | nil => exact Occur.combine_singleton _ _
  | cons l ls =>
    obtain ⟨o, ho⟩ := h
    have hne : c.rest ≠ [] := by
      rw [hrest]
      exact List.cons_ne_nil l ls
    rw [← hrest, lastOperator_eq ho (Or.inr hne), valueFrom_eq_combine ho]

/-- In any other chain the root requires all its words. -/
theorem lastOperator_of_not_isUniform {c : Chain} (h : ¬c.IsUniform) :
    lastOperator .must c.rootLinks = .must :=
  lastOperator_rootLinks (fun hor => h ⟨.should, hor⟩) .must

/-- A tree requires what the chain asks for. -/
theorem value_of_holds_tree {c : Chain} (h : c.tree.holds v = true) : c.value v = true := by
  by_cases huniform : c.IsUniform
  · rwa [holds_tree_of_isUniform huniform] at h
  · rw [holds_tree, lastOperator_of_not_isUniform huniform, Bool.and_eq_true] at h
    obtain ⟨hroot, -⟩ := h
    simp only [Occur.combine, words, List.all_cons, List.all_map, List.all_eq_true, id,
      Bool.and_eq_true, Function.comp_apply] at hroot
    rw [value, hroot.1, ← c.rootLinks_append_splitLinks]
    exact valueFrom_append hroot.2 c.operator_head_splitLinks

/-- In any other chain the first word is required, unless it comes again. -/
theorem exists_holds_tree_ne_value {c : Chain} (h : ¬c.IsUniform)
    (hfirst : ∀ l ∈ c.rest, l.word ≠ c.first) :
    ∃ v, c.tree.holds v = false ∧ c.value v = true := by
  refine ⟨fun word => word != c.first.text, ?_, ?_⟩
  · rw [holds_tree, lastOperator_of_not_isUniform h]
    simp [Occur.combine]
  · refine valueFrom_of_exists_or ?_ ?_ _
    · intro l hl
      rw [bne_iff_ne]
      intro htext
      exact hfirst l hl (PlainWord.ext htext)
    · by_contra hor
      refine h ⟨.must, fun l hl => ?_⟩
      cases hl' : l.operator with
      | must => rfl
      | should => exact absurd ⟨l, hl, hl'⟩ hor

end Chain

/-- **What a chain is read as, and where `AND` binds tighter.**  The words up to the first `OR` that
comes after an `AND` are at the root, and those behind it in the only subquery of the root, which
begins as a `should` node.  Either node follows its last operator, and a root that has a subquery
requires it.  So whenever the tree holds, the chain does if `AND` binds tighter; the converse holds
if all operators are the same, and unless the first word comes again, only then. -/
theorem holds_parse_chain :
    (∀ c : Chain, parse c.written = c.tree) ∧
      (∀ (c : Chain) (v : String → Bool),
        (parse c.written).holds v
          = ((Link.lastOperator .must c.rootLinks).combine
              (v c.first.text :: (Link.words c.rootLinks).map v)
            && (c.splitLinks.isEmpty
              || (Link.lastOperator .should c.splitLinks).combine
                ((Link.words c.splitLinks).map v)))) ∧
        (∀ (c : Chain) (v : String → Bool),
          (parse c.written).holds v = true → c.value v = true) ∧
          (∀ c : Chain, c.IsUniform → ∀ v, (parse c.written).holds v = c.value v) ∧
            ∀ c : Chain, (∀ l ∈ c.rest, l.word ≠ c.first) →
              (∀ v, (parse c.written).holds v = c.value v) → c.IsUniform := by
  refine ⟨parse_written_chain, ?_, ?_, ?_, ?_⟩
  · intro c v
    rw [parse_written_chain, Chain.holds_tree]
  · intro c v h
    rw [parse_written_chain] at h
    exact Chain.value_of_holds_tree h
  · intro c h v
    rw [parse_written_chain, Chain.holds_tree_of_isUniform h]
  · intro c hfirst h
    by_contra huniform
    obtain ⟨v, htree, hvalue⟩ := Chain.exists_holds_tree_ne_value huniform hfirst
    rw [← parse_written_chain, h, hvalue] at htree
    cases htree

/-- A chain that one word settles if `AND` binds tighter.  Its tree requires all words. -/
theorem first_word_required :
    let c : Chain := ⟨⟨"apples", rfl⟩, [⟨.should, ⟨"pears", rfl⟩⟩, ⟨.must, ⟨"plums", rfl⟩⟩]⟩
    c.written = "apples OR pears AND plums" ∧
      (parse c.written).holds (· == "apples") = false ∧ c.value (· == "apples") = true := by
  intro c
  refine ⟨rfl, ?_, rfl⟩
  rw [parse_written_chain]
  decide +kernel

/-- A chain that is cut before its only `OR`, and the part of it before the cut, where there is no
difference. -/
theorem holds_parse_chain_dates :
    let figs : PlainWord := ⟨"figs", rfl⟩
    let cut : Chain := ⟨figs, [⟨.must, ⟨"dates", rfl⟩⟩, ⟨.should, ⟨"nuts", rfl⟩⟩]⟩
    let part : Chain := ⟨figs, [⟨.must, ⟨"dates", rfl⟩⟩]⟩
    cut.written = "figs AND dates OR nuts" ∧
      parse cut.written = ⟨.must, ["figs", "dates"], [⟨.should, ["nuts"], []⟩]⟩ ∧
      (∀ v, (parse cut.written).holds v = ((v "figs" && v "dates") && v "nuts")) ∧
      (parse cut.written).holds (fun _ => true) = true ∧ cut.value (fun _ => true) = true ∧
      ((∀ l ∈ cut.rest, l.word ≠ cut.first) ∧
        ¬∀ v, (parse cut.written).holds v = cut.value v) ∧
      (∀ l ∈ part.rest, l.word ≠ part.first) ∧
        (∀ v, (parse part.written).holds v = part.value v) ∧ part.IsUniform := by
  intro figs cut part
  obtain ⟨htree, hholds, hasks, huniform, honly⟩ := holds_parse_chain
  have hcut : parse cut.written = ⟨.must, ["figs", "dates"], [⟨.should, ["nuts"], []⟩]⟩ :=
    htree cut
  have htrue : (parse cut.written).holds (fun _ => true) = true := by
    rw [hcut]
    decide +kernel
  have hfirst : ∀ l ∈ cut.rest, l.word ≠ cut.first := by decide
  have hmixed : ¬cut.IsUniform := by
    rintro ⟨o, ho⟩
    rw [List.forall_mem_cons, List.forall_mem_singleton] at ho
    cases ho.1.trans ho.2.symm
  have hpart : part.IsUniform := ⟨.must, List.forall_mem_singleton.2 rfl⟩
  have hfirst' : ∀ l ∈ part.rest, l.word ≠ part.first := by decide
  have hsame := huniform part hpart
  refine ⟨rfl, hcut, ?_, htrue, hasks cut _ htrue, ⟨hfirst, fun h => hmixed (honly cut hfirst h)⟩,
    hfirst', hsame, honly part hfirst' hsame⟩
  intro v
  rw [hholds]
  simp [cut, Chain.rootLinks, Chain.orLinks, Chain.andLinks, Chain.splitLinks, Link.hasOperator,
    Link.lastOperator, Link.words, Occur.combine, figs]

end BooleanSearch
