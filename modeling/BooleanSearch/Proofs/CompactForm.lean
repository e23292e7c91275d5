import BooleanSearch.Proofs.PrefixFree
import BooleanSearch.Proofs.WellFormed
import BooleanSearch.Query.Compact

/-!
# The compact form identifies the tree

The compact form writes terms as they are, brackets, commas and all, and leaves out sections without
entries.  Still a tree can be told from it, as long as no term has a straight quote mark: a term
ends at the next quote mark, a section at the first bracket behind an entry, and whether a section
is there shows by its name.

The form is defined by recursion here, and the work list of `Query.compact` is shown to write the
same.  Of every node we then compare its form, followed by some text, with that of another node,
followed by another text.

## Main definitions

* `Query.compactText` — the compact form by recursion on the tree.
* `Query.WithoutQuotes` — no term of a tree has a straight quote mark.

## Main results

* `Query.compact_eq` — the work list writes the recursive form.
* `Query.compactText_prefixFree` — a form tells where it ends.
* `compact_identifies` — **trees with the same compact form are the same.**
-/

namespace BooleanSearch

namespace Query

/-! ### The compact form by recursion -/

/-- A named section of a node.  It is left out if there are no items. -/
def itemSection (name : String) : List String → String
  | [] => ""
  | items => ", " ++ name ++ ":[" ++ ",".intercalate items ++ "]"

theorem itemSection_eq {name : String} {items : List String} (h : items ≠ []) :
    itemSection name items = ", " ++ name ++ ":[" ++ ",".intercalate items ++ "]" := by
  obtain ⟨item, items, rfl⟩ := List.exists_cons_of_ne_nil h
  rfl

/-- A term between straight quote marks, as it is. -/
def straightQuoted (term : String) : String :=
  "\"" ++ term ++ "\""

mutual

/-- The compact form of a tree, by recursion. -/
def compactText : Query → String
  | ⟨o, terms, subs⟩ =>
    "\x7bOccur:" ++ o.text ++ itemSection "Terms" (terms.map straightQuoted)
      ++ itemSection "SubQueries" (compactTexts subs) ++ "\x7d"

/-- The compact forms of some trees. -/
def compactTexts : List Query → List String
  | [] => []
  | q :: qs => q.compactText :: compactTexts qs

end

theorem compactTexts_eq_map (qs : List Query) : compactTexts qs = qs.map compactText := by
  induction qs with
  | nil => rfl
  | cons q qs ih => rw [compactTexts, List.map_cons, ih]

theorem compactText_eq (q : Query) :
    q.compactText = "\x7bOccur:" ++ q.occur.text ++ itemSection "Terms" (q.terms.map straightQuoted)
      ++ itemSection "SubQueries" (q.subqueries.map compactText) ++ "\x7d" := by
  rw [← compactTexts_eq_map]
  cases q
  rfl

theorem termSection_eq (terms : List String) :
    termSection terms = itemSection "Terms" (terms.map straightQuoted) := by
  cases terms with
  | nil => rfl
  | cons term terms => rfl

namespace Piece

/-- The text that a piece stands for. -/
def text : Piece → String
  | first q => q.compactText
  | later q => "," ++ q.compactText
  | close => "]\x7d"

theorem join_ofList : ∀ qs : List Query,
    String.join ((ofList qs).map text) = ",".intercalate (qs.map compactText) := by
  intro qs
  cases qs with
  | nil => rfl
  | cons q qs =>
    induction qs generalizing q with
    | nil => simp [ofList, text, String.join_cons]
    | cons r qs ih =>
      have hrest := ih r
      simp only [ofList, List.map_cons, String.join_cons, text] at hrest ⊢
      rw [String.intercalate_cons_cons, ← hrest, String.append_assoc, String.append_assoc]

end Piece

/-- The work list writes what its pieces stand for. -/
theorem compactAll_eq (out : String) (work : List Piece) :
    compactAll out work = out ++ String.join (work.map Piece.text) := by
  fun_induction compactAll out work with
  | case1 out => rw [List.map_nil, String.join_nil, String.append_empty]
  | case2 out rest ih =>
    rw [ih, List.map_cons, String.join_cons, Piece.text, String.append_assoc]
  | case3 out q rest ih =>
    rw [ih, List.map_cons, List.map_cons, String.join_cons, String.join_cons, Piece.text,
      Piece.text, String.append_assoc, String.append_assoc]
  | case4 out q rest out' h ih =>
    have hsubs : q.subqueries = [] := List.isEmpty_iff.1 h
    rw [ih, List.map_cons, String.join_cons, Piece.text, compactText_eq, hsubs]
    simp only [out', termSection_eq, itemSection, List.map_nil, String.append_assoc,
      String.append_empty]
  | case5 out q rest out' h ih =>
    have hsubs : q.subqueries ≠ [] := fun hnil => h (List.isEmpty_iff.2 hnil)
    have hsection : itemSection "SubQueries" (q.subqueries.map compactText)
        = ", SubQueries:[" ++ ",".intercalate (q.subqueries.map compactText) ++ "]" :=
      itemSection_eq (fun hnil => hsubs (List.map_eq_nil_iff.1 hnil))
    -- the bracket and the brace behind the subqueries are a piece of their own
    rw [ih, List.map_cons, String.join_cons, Piece.text, compactText_eq, hsection, List.map_append,
      String.join_append, Piece.join_ofList, List.map_cons, String.join_cons, Piece.text]
    simp only [out', termSection_eq, String.append_assoc]
    rfl

/-- The work list writes the recursive form. -/
theorem compact_eq (q : Query) : q.compact = q.compactText := by
  rw [compact, compactAll_eq, List.map_singleton, String.join_cons, String.join_nil, Piece.text,
    String.append_empty, String.empty_append]

/-! ### Telling trees from their forms -/

/-- No term of the tree has a straight quote mark. -/
def WithoutQuotes (q : Query) : Prop :=
  ∀ sub ∈ q.subtrees, ∀ term ∈ sub.terms, '"' ∉ term.toList

instance (q : Query) : Decidable q.WithoutQuotes :=
  inferInstanceAs (Decidable (∀ sub ∈ q.subtrees, ∀ term ∈ sub.terms, '"' ∉ term.toList))

theorem withoutQuotes_iff (q : Query) :
    q.WithoutQuotes ↔ (∀ term ∈ q.terms, '"' ∉ term.toList) ∧
      ∀ sub ∈ q.subqueries, sub.WithoutQuotes :=
  forall_mem_subtrees_iff

/-- Items of a section, whether there are any or not, if what comes behind the section does not
begin as a section of this name does. -/
theorem itemSection_append_inj {α : Type} {f : α → String} {name : String} {l m : List α}
    {r s : List Char} (hr : ∀ x, (", " ++ name ++ ":[").toList ++ x ≠ r)
    (hs : ∀ x, (", " ++ name ++ ":[").toList ++ x ≠ s)
    (hfree : ∀ a ∈ l, ∀ b ∈ m, PrefixFree (fun _ => True) (fun c => (f c).toList) a b)
    (h : (itemSection name (l.map f)).toList ++ r = (itemSection name (m.map f)).toList ++ s) :
    l = m ∧ r = s := by
  have hsection : ∀ {n : List α}, n ≠ [] → ∀ x,
      (itemSection name (n.map f)).toList ++ x
        = (", " ++ name ++ ":[").toList
          ++ ([','].intercalate (n.map fun c => (f c).toList) ++ ']' :: x) := by
    intro n hn x
    rw [itemSection_eq (fun hnil => hn (List.map_eq_nil_iff.1 hnil)), String.toList_append,
      String.toList_append, String.toList_intercalate, List.map_map, List.append_assoc,
      List.append_assoc]
    rfl
  by_cases hl : l = []
  · by_cases hm : m = []
    · subst hl hm
      exact ⟨rfl, h⟩
    · rw [hl, hsection hm] at h
      exact absurd h.symm (hr _)
  · by_cases hm : m = []
    · rw [hm, hsection hl] at h
      exact absurd h (hs _)
    · rw [hsection hl, hsection hm] at h
      exact intercalate_append_inj (by decide) hl hm hfree (List.append_cancel_left h)

/-- A term without quote marks ends at the next one. -/
theorem straightQuoted_prefixFree {t u : String} (ht : '"' ∉ t.toList) (hu : '"' ∉ u.toList) :
    PrefixFree (fun _ => True) (fun term => (straightQuoted term).toList) t u := by
  have htext : ∀ (term : String) (x : List Char),
      (straightQuoted term).toList ++ x = '"' :: (term.toList ++ '"' :: x) := by
    intro term x
    simp [straightQuoted]
  intro r s _ _ h
  rw [htext, htext] at h
  obtain ⟨htu, hrs⟩ := append_cons_inj ht hu (List.cons.inj h).2
  exact ⟨String.toList_inj.1 htu, hrs⟩

/-- One requirement is told from the other by its first character. -/
theorem occurText_prefixFree (o o' : Occur) :
    PrefixFree (fun _ => True) (fun o : Occur => o.text.toList) o o' := by
  intro r s _ _ h
  cases o <;> cases o' <;> simp_all [Occur.text]

/-- What comes behind the terms of a node is no section of terms. -/
theorem behindTerms_ne (items : List String) (r x : List Char) :
    (", " ++ "Terms" ++ ":[").toList ++ x
      ≠ (itemSection "SubQueries" items).toList ++ '\x7d' :: r := by
  cases items with
  | nil => simp [itemSection]
  | cons item items => simp [itemSection]

/-- What comes behind the subqueries of a node is no section of subqueries. -/
theorem behindSubqueries_ne (r x : List Char) :
    (", " ++ "SubQueries" ++ ":[").toList ++ x ≠ '\x7d' :: r := by
  simp

/-- **The form of a tree without quote marks tells where it ends.** -/
theorem compactText_prefixFree (q : Query) : q.WithoutQuotes → ∀ q' : Query, q'.WithoutQuotes →
    PrefixFree (fun _ => True) (fun q : Query => q.compactText.toList) q q' := by
  have htext : ∀ (q : Query) (x : List Char), q.compactText.toList ++ x
      = "\x7bOccur:".toList ++ (q.occur.text.toList
          ++ ((itemSection "Terms" (q.terms.map straightQuoted)).toList
            ++ ((itemSection "SubQueries" (q.subqueries.map compactText)).toList
              ++ '\x7d' :: x))) := by
    intro q x
    rw [compactText_eq]
    simp
  induction q using Query.induction with
  | node q ih =>
    intro hq q' hq' r s _ _ h
    rw [withoutQuotes_iff] at hq hq'
    rw [htext, htext] at h
    obtain ⟨hoccur, h⟩ := occurText_prefixFree q.occur q'.occur _ _ trivial trivial
      (List.append_cancel_left h)
    obtain ⟨hterms, h⟩ := itemSection_append_inj (behindTerms_ne _ r) (behindTerms_ne _ s)
      (fun t ht u hu => straightQuoted_prefixFree (hq.1 t ht) (hq'.1 u hu)) h
    obtain ⟨hsubs, h⟩ := itemSection_append_inj (behindSubqueries_ne r) (behindSubqueries_ne s)
      (fun sub hsub sub' hsub' => ih sub hsub (hq.2 sub hsub) sub' (hq'.2 sub' hsub')) h
    exact ⟨Query.ext hoccur hterms hsubs, (List.cons.inj h).2⟩

/-- Words and spaces make no quote mark. -/
theorem quote_not_mem_of_isTerm {term : String} (h : IsTerm term) : '"' ∉ term.toList := by
  obtain ⟨words, hwords, rfl⟩ := h
  have hword : ∀ w ∈ words, '"' ∉ w.toList := by
    intro w hw hmem
    have hquote : isWordChar '"' = true := isWordChar_of_mem (hwords w hw) hmem
    revert hquote
    decide
  rw [String.toList_intercalate]
  cases words with
  | nil => simp
  | cons w ws =>
    rw [List.forall_mem_cons] at hword
    rw [List.map_cons, intercalate_cons_eq, List.flatMap_map, List.mem_append, not_or,
      List.mem_flatMap]
    refine ⟨hword.1, ?_⟩
    rintro ⟨v, hv, hmem⟩
    rcases List.mem_append.1 hmem with hspace | hmem
    · revert hspace
      decide
    · exact hword.2 v hv hmem

theorem WellFormed.withoutQuotes {q : Query} (h : q.WellFormed) : q.WithoutQuotes := by
  intro sub hsub term hterm
  exact quote_not_mem_of_isTerm (h sub hsub term hterm)

end Query

/-- **Trees with the same compact form are the same**, if no term of them has a straight quote mark.
In a tree that was read no term has one. -/
theorem compact_identifies :
    (∀ q q' : Query, q.WithoutQuotes → q'.WithoutQuotes → q.compact = q'.compact → q = q') ∧
      ∀ s : String, (parse s).WithoutQuotes := by
  constructor
  · intro q q' hq hq' h
    rw [Query.compact_eq, Query.compact_eq] at h
    exact (Query.compactText_prefixFree q hq q' hq' [] [] trivial trivial
      (congrArg (fun text => text.toList ++ []) h)).1
  · intro s
    exact (wellFormed_parse s).withoutQuotes

/-- Terms that look like a section and like the end of one. -/
theorem compact_identifies_brackets :
    Query.WithoutQuotes ⟨.must, ["], SubQueries:[\n"], [⟨.should, ["MUST\x7d]\x7d", ""], []⟩]⟩ ∧
      Query.compact (Query.pushTerm ⟨.must, [], [⟨.should, ["MUST\x7d]\x7d", ""], []⟩]⟩
          "], SubQueries:[\n")
        = Query.compact ⟨.must, ["], SubQueries:[\n"], [⟨.should, ["MUST\x7d]\x7d", ""], []⟩]⟩ ∧
      Query.pushTerm ⟨.must, [], [⟨.should, ["MUST\x7d]\x7d", ""], []⟩]⟩ "], SubQueries:[\n"
        = ⟨.must, ["], SubQueries:[\n"], [⟨.should, ["MUST\x7d]\x7d", ""], []⟩]⟩ :=
  ⟨by decide, rfl, compact_identifies.1 _ _ (by decide) (by decide) rfl⟩

/-- With quote marks, one term may look like two. -/
example : Query.compact { terms := ["figs\",\"plums"] }
    = Query.compact { terms := ["figs", "plums"] } := by
  decide +kernel

end BooleanSearch
