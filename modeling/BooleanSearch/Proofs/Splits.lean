import BooleanSearch.Proofs.Growth
import BooleanSearch.Proofs.Requirements

/-!
# Where `OR` splits

An `OR` that is read at the root, while two terms or more are required there, does not set the
requirement of the root but opens a subquery: the terms so far are split from what follows.  Once
the root requires two terms it does so for good.  No `OR` can set its requirement any more, as it
splits instead, and no term is ever taken away.  So a tree in which `OR` split has a `must` node
for its root.

A split leaves the cursor below the root, and only a closing parenthesis takes it back.  And as
only opening parentheses and splits open nodes, the nodes of a tree can be counted from the text.

## Main definitions

* `Draft.IsLocked` — two terms or more are required at the root.
* `Node.Extends` — a node that has gained terms and subqueries.
* `outsidePhrases` — what stands outside phrases.

## Main results

* `Draft.extends_step` — no token takes anything away from a node.
* `Spine.isLocked_step`, `Spine.isLocked_foldl` — a root that is locked stays so.
* `parse_splits` — **where `OR` splits, and what follows from it for the tree.**
-/

namespace BooleanSearch

/-! ### What stands outside phrases -/

section Outside

variable {α β : Type} (isQuote : α → Bool)

/-- What stands outside phrases, if a phrase is open at the beginning or not.  Quote marks stand
neither inside nor outside. -/
def outsidePhrases (inPhrase : Bool) : List α → List α
  | [] => []
  | a :: as =>
    if isQuote a then outsidePhrases (!inPhrase) as
    else if inPhrase then outsidePhrases inPhrase as
    else a :: outsidePhrases inPhrase as

theorem outsidePhrases_cons (inPhrase : Bool) (a : α) (as : List α) :
    outsidePhrases isQuote inPhrase (a :: as)
      = (if isQuote a || inPhrase then [] else [a]) ++
        outsidePhrases isQuote (inPhrase ^^ isQuote a) as := by
  rw [outsidePhrases]
  cases isQuote a <;> cases inPhrase <;> rfl

/-- What is picked out of a text may be picked out before or after, if quote marks are. -/
theorem filter_outsidePhrases {p : α → Bool} (hp : ∀ a, isQuote a = true → p a = true)
    (as : List α) : ∀ inPhrase : Bool,
      (outsidePhrases isQuote inPhrase as).filter p
        = outsidePhrases isQuote inPhrase (as.filter p) := by
  induction as with
  | nil =>
    intro inPhrase
    rfl
  | cons a as ih =>
    intro inPhrase
    rw [outsidePhrases_cons, List.filter_append, ih]
    cases ha : p a with
    | true =>
      rw [List.filter_cons_of_pos ha, outsidePhrases_cons]
      congr 1
      split
      · rfl
      · exact List.filter_cons_of_pos ha
    | false =>
      have hquote : isQuote a = false := by
        rw [Bool.eq_false_iff]
        intro hquote
        rw [hp a hquote] at ha
        cases ha
      have hnone : List.filter p (if isQuote a || inPhrase then [] else [a]) = [] := by
        split <;> simp [ha]
      rw [hnone, List.filter_cons_of_neg (by simp [ha]), hquote, Bool.xor_false, List.nil_append]

theorem outsidePhrases_map (f : β → α) (bs : List β) : ∀ inPhrase : Bool,
    outsidePhrases isQuote inPhrase (bs.map f)
      = (outsidePhrases (fun b => isQuote (f b)) inPhrase bs).map f := by
  induction bs with
  | nil =>
    intro inPhrase
    rfl
  | cons b bs ih =>
    intro inPhrase
    rw [List.map_cons, outsidePhrases_cons, outsidePhrases_cons, List.map_append, ih]
    congr 1
    split <;> rfl

end Outside

/-- The tokens that stand outside phrases. -/
abbrev outsideTokens (inPhrase : Bool) : List Token → List Token :=
  outsidePhrases (· == .quoteMark) inPhrase

/-- The characters that stand outside phrases. -/
def outsideCharacters (s : String) : List Char :=
  outsidePhrases isQuote false s.toList

theorem Token.ofMark_eq_leftParen_iff {c : Char} : Token.ofMark c = .leftParen ↔ c = '(' := by
  unfold Token.ofMark
  split
  · next hc => exact iff_of_true rfl hc
  split
  · exact iff_of_false Token.noConfusion ‹_›
  split
  · exact iff_of_false Token.noConfusion ‹_›
  · exact iff_of_false Token.noConfusion ‹_›

/-- The opening parentheses outside phrases are the same for the tokens and for the characters. -/
theorem count_leftParen_outsideTokens (s : String) :
    (outsideTokens false (tokenize s)).count .leftParen = (outsideCharacters s).count '(' := by
  have hdelimiter : ∀ t : Token, (t == .quoteMark) = true → t.isDelimiter = true := by
    intro t ht
    rw [eq_of_beq ht]
    rfl
  have hquote : (fun c => Token.ofMark c == .quoteMark) = isQuote := by
    funext c
    rw [Bool.eq_iff_iff, beq_iff_eq]
    exact Token.ofMark_eq_quoteMark_iff
  have hfilter : (outsideTokens false (tokenize s)).filter Token.isDelimiter
      = ((outsideCharacters s).map Token.ofMark).filter Token.isDelimiter := by
    rw [outsideTokens, filter_outsidePhrases _ hdelimiter, tokenize_eq, filter_isDelimiter_lexemes,
      ← filter_outsidePhrases _ hdelimiter, outsidePhrases_map, hquote, outsideCharacters]
  have hcount (ts : List Token) :
      (ts.filter Token.isDelimiter).count .leftParen = ts.count .leftParen :=
    List.count_filter rfl
  rw [← hcount, hfilter, hcount, List.count, List.count, List.countP_map]
  refine List.countP_congr fun c _ => ?_
  simp [Token.ofMark_eq_leftParen_iff]

/-! ### Nodes gain only -/

/-- A node that has gained terms and subqueries behind those that it had. -/
structure Node.Extends (node node' : Node) : Prop where
  /-- The terms are there as they were. -/
  terms : node.terms.toList <+: node'.terms.toList
  /-- The subqueries are there as they were. -/
  children : node.children.toList <+: node'.children.toList

namespace Node.Extends

variable {node node' node'' : Node}

theorem refl (node : Node) : node.Extends node :=
  ⟨List.prefix_refl _, List.prefix_refl _⟩

theorem trans (h : node.Extends node') (h' : node'.Extends node'') : node.Extends node'' :=
  ⟨h.terms.trans h'.terms, h.children.trans h'.children⟩

theorem pushTerm (node : Node) (term : String) :
    node.Extends { node with terms := node.terms.push term } := by
  refine ⟨?_, List.prefix_refl _⟩
  rw [Array.toList_push]
  exact List.prefix_append _ _

theorem pushChild (node : Node) (place : Nat) :
    node.Extends { node with children := node.children.push place } := by
  refine ⟨List.prefix_refl _, ?_⟩
  rw [Array.toList_push]
  exact List.prefix_append _ _

end Node.Extends

namespace Draft

/-- Whether two terms or more are required at the root. -/
def IsLocked (d : Draft) : Prop :=
  ∃ root, d.nodes[0]? = some root ∧ root.occur = .must ∧ 2 ≤ root.terms.size

/-- Every node of a draft is there in another one, where it may have gained something. -/
def Extends (d d' : Draft) : Prop :=
  ∀ (place : Nat) (node : Node), d.nodes[place]? = some node →
    ∃ node', d'.nodes[place]? = some node' ∧ node.Extends node'

theorem Extends.of_nodes_eq {d d' : Draft} (h : d'.nodes = d.nodes) : d.Extends d' := by
  intro place node hnode
  rw [h]
  exact ⟨node, hnode, .refl node⟩

theorem Extends.trans {d d' d'' : Draft} (h : d.Extends d') (h' : d'.Extends d'') :
    d.Extends d'' := by
  intro place node hnode
  obtain ⟨node', hnode', hextends⟩ := h place node hnode
  obtain ⟨node'', hnode'', hextends'⟩ := h' place node' hnode'
  exact ⟨node'', hnode'', hextends.trans hextends'⟩

variable (d : Draft)

theorem extends_modifyCurrent {f : Node → Node} (hf : ∀ node : Node, node.Extends (f node)) :
    d.Extends (d.modifyCurrent f) := by
  intro place node hnode
  rw [getElem?_modifyCurrent, hnode]
  split
  · exact ⟨f node, rfl, hf node⟩
  · exact ⟨node, rfl, .refl node⟩

theorem extends_pushTerm (term : String) : d.Extends (d.pushTerm term) :=
  d.extends_modifyCurrent fun node => .pushTerm node term

theorem extends_setOccur (o : Occur) : d.Extends (d.setOccur o) :=
  d.extends_modifyCurrent fun _ => ⟨List.prefix_refl _, List.prefix_refl _⟩

theorem extends_applyAnd : d.Extends d.applyAnd := by
  apply d.extends_modifyCurrent
  intro node
  split
  · exact .refl node
  · exact ⟨List.prefix_refl _, List.prefix_refl _⟩

theorem extends_descend (o : Occur) : d.Extends (d.descend o) := by
  intro place node hnode
  have hne : place ≠ d.nodes.size := Nat.ne_of_lt (Array.getElem?_eq_some_iff.1 hnode).1
  rw [getElem?_descend, if_neg hne]
  exact d.extends_modifyCurrent (fun node => .pushChild node d.nodes.size) place node hnode

theorem extends_applyOr : d.Extends d.applyOr := by
  rw [applyOr]
  split
  · exact d.extends_descend .should
  · exact d.extends_setOccur .should

theorem extends_toggleQuote : d.Extends d.toggleQuote := by
  rw [toggleQuote]
  split
  · exact .of_nodes_eq rfl
  · exact Extends.trans (.of_nodes_eq rfl) (extends_pushTerm _ _)

/-- No token takes anything away from a node. -/
theorem extends_step (t : Token) : d.Extends (d.step t) := by
  rw [step]
  split
  · cases t with
    | quoteMark => exact d.extends_toggleQuote
    | _ => exact .of_nodes_eq rfl
  · cases t with
    | literal word => exact d.extends_pushTerm word
    | and => exact d.extends_applyAnd
    | or => exact d.extends_applyOr
    | quoteMark => exact d.extends_toggleQuote
    | leftParen => exact d.extends_descend .must
    | rightParen | whitespace _ | illegal _ | endOfInput => exact .of_nodes_eq rfl

theorem extends_foldl (ts : List Token) : ∀ d : Draft, d.Extends (ts.foldl step d) := by
  induction ts with
  | nil =>
    intro d
    exact .of_nodes_eq rfl
  | cons t ts ih =>
    intro d
    exact (d.extends_step t).trans (ih (d.step t))

/-! ### Counting the nodes -/

namespace Opening

variable {d d' : Draft} {t : Token}

/-- A quote mark, and nothing else, opens or closes a phrase. -/
theorem isSome_phrase (h : d.Opening t d') :
    d'.phrase.isSome = (d.phrase.isSome ^^ (t == .quoteMark)) := by
  cases h with
  | same t hsame houtside hsplit => exact hsame.phrase
  | group hphrase => exact (Bool.xor_false _).symm
  | close hphrase => exact (Bool.xor_false _).symm
  | split hphrase hsplits => exact (Bool.xor_false _).symm

/-- A parenthesis outside phrases opens one node, and so does an `OR` that splits. -/
theorem size_nodes (h : d.Opening t d') :
    d'.nodes.size = d.nodes.size + (outsideTokens d.phrase.isSome [t]).count .leftParen +
      (d.splitPlace? t).toList.length := by
  cases h with
  | same t hsame houtside hsplit =>
    have hnone : (outsideTokens d.phrase.isSome [t]).count .leftParen = 0 := by
      rw [List.count_eq_zero, outsideTokens, outsidePhrases_cons, outsidePhrases, List.append_nil]
      cases hphrase : d.phrase with
      | some words =>
        rw [Option.isSome_some, Bool.or_true, if_pos rfl]
        exact List.not_mem_nil
      | none =>
        split
        · exact List.not_mem_nil
        · exact fun hmem => (houtside hphrase).1 (List.mem_singleton.1 hmem).symm
    rw [hnone, hsplit, hsame.size]
    rfl
  | group hphrase =>
    rw [hphrase, size_nodes_descend]
    rfl
  | close hphrase =>
    rw [hphrase]
    rfl
  | split hphrase hsplits =>
    rw [size_nodes_descend, splitPlace?, if_pos ⟨rfl, hphrase, hsplits⟩, hphrase]
    rfl

/-- Only a closing parenthesis outside phrases takes the cursor up. -/
theorem path_suffix (h : d.Opening t d')
    (hclose : .rightParen ∉ outsideTokens d.phrase.isSome [t]) : d.path <:+ d'.path := by
  cases h with
  | same t hsame houtside hsplit => exact hsame.path ▸ List.suffix_refl d'.path
  | group hphrase => exact List.suffix_cons _ _
  | close hphrase =>
    rw [hphrase] at hclose
    exact absurd (List.mem_singleton_self _) hclose
  | split hphrase hsplits => exact List.suffix_cons _ _

end Opening

/-- What stands outside phrases, token by token. -/
theorem outsideTokens_cons (t : Token) (ts : List Token) :
    outsideTokens d.phrase.isSome (t :: ts)
      = outsideTokens d.phrase.isSome [t] ++ outsideTokens (d.step t).phrase.isSome ts := by
  rw [(d.opening_step t).isSome_phrase]
  unfold outsideTokens
  rw [outsidePhrases_cons, outsidePhrases_cons, List.append_assoc]
  rfl

theorem size_nodes_foldl (ts : List Token) : ∀ d : Draft,
    (ts.foldl step d).nodes.size
      = d.nodes.size + (outsideTokens d.phrase.isSome ts).count .leftParen +
        (d.splitPlaces ts).length := by
  induction ts with
  | nil =>
    intro d
    rfl
  | cons t ts ih =>
    intro d
    rw [List.foldl_cons, ih, (d.opening_step t).size_nodes, outsideTokens_cons d t ts,
      List.count_append, splitPlaces, List.length_append]
    omega

theorem path_suffix_foldl (ts : List Token) : ∀ d : Draft,
    .rightParen ∉ outsideTokens d.phrase.isSome ts → d.path <:+ (ts.foldl step d).path := by
  induction ts with
  | nil =>
    intro d _
    exact List.suffix_refl _
  | cons t ts ih =>
    intro d hclose
    rw [outsideTokens_cons, List.mem_append, not_or] at hclose
    exact ((d.opening_step t).path_suffix hclose.1).trans (ih (d.step t) hclose.2)

end Draft

/-! ### The root -/

namespace Spine

open Draft

/-- A root that is locked stays so: an `OR` that would set its requirement splits instead. -/
theorem isLocked_step {z : Spine} (h : z.draft.IsLocked) (t : Token) :
    (z.step t).draft.IsLocked := by
  obtain ⟨root, hroot, hmust, hterms⟩ := h
  obtain ⟨root', hroot', hextends⟩ := z.draft.extends_step t 0 root hroot
  have hoccur := z.occurAt?_step (Array.getElem?_eq_some_iff.1 hroot).1 t
  rw [step_draft] at hroot'
  rw [occurAt?, occurAt?, hroot', hroot, Option.map_some, Option.map_some, hmust] at hoccur
  have hmust' : root'.occur = .must := by
    by_cases hcounts : z.draft.Counts 0 t
    · rw [if_pos hcounts] at hoccur
      obtain ⟨⟨-, hcursor⟩, ⟨-, hfew⟩ | ⟨rfl, -⟩⟩ := hcounts
      · -- there are too many terms for an `OR` to count
        have hcount := termCount_eq (hcursor.symm ▸ hroot)
        have hle := hfew rfl
        omega
      · exact Option.some.inj hoccur
    · rw [if_neg hcounts] at hoccur
      exact Option.some.inj hoccur
  exact ⟨root', hroot', hmust', Nat.le_trans hterms hextends.terms.length_le⟩

theorem isLocked_foldl (ts : List Token) : ∀ z : Spine, z.draft.IsLocked →
    (ts.foldl step z).draft.IsLocked := by
  induction ts with
  | nil =>
    intro z h
    exact h
  | cons t ts ih =>
    intro z h
    exact ih (z.step t) (isLocked_step h t)

end Spine

namespace Draft

variable {d : Draft} {t : Token} {place : Nat}

/-- Where `OR` splits, the cursor is at the root, which is locked. -/
theorem isLocked_of_splitsAtOr (h : d.splitsAtOr = true) : d.path = [] ∧ d.IsLocked := by
  rw [splitsAtOr, Bool.and_eq_true, List.isEmpty_iff] at h
  obtain ⟨hpath, hroot⟩ := h
  refine ⟨hpath, ?_⟩
  cases hnode : d.nodes[0]? with
  | none =>
    rw [hnode] at hroot
    cases hroot
  | some root =>
    rw [hnode, Option.any_some, Bool.and_eq_true, beq_iff_eq, decide_eq_true_iff] at hroot
    exact ⟨root, hnode, hroot.1, hroot.2⟩

/-- A split is a subquery of the root. -/
theorem mem_children_of_splitPlace? (h : d.splitPlace? t = some place) :
    ∃ root, (d.step t).nodes[0]? = some root ∧ place ∈ root.children.toList := by
  obtain ⟨rfl, hphrase, hsplits, rfl⟩ := splitPlace?_eq_some_iff.1 h
  obtain ⟨hpath, root, hroot, -⟩ := isLocked_of_splitsAtOr hsplits
  have hstep := step_or_of_splitsAtOr hphrase hsplits
  have hcursor : d.cursor = 0 := by
    rw [cursor, hpath]
    rfl
  have hne : 0 ≠ d.nodes.size := Nat.ne_of_lt (Array.getElem?_eq_some_iff.1 hroot).1
  rw [hstep, getElem?_descend, if_neg hne, getElem?_modifyCurrent, if_pos hcursor, hroot]
  refine ⟨_, rfl, ?_⟩
  rw [Array.toList_push]
  exact List.mem_append_right _ (List.mem_singleton_self _)

/-- All splits are subqueries of the root in the end. -/
theorem mem_children_of_mem_splitPlaces (ts : List Token) : ∀ d : Draft,
    place ∈ d.splitPlaces ts →
      ∃ root, (ts.foldl step d).nodes[0]? = some root ∧ place ∈ root.children.toList := by
  induction ts with
  | nil =>
    intro d hplace
    cases hplace
  | cons t ts ih =>
    intro d hplace
    rw [mem_splitPlaces_cons_iff] at hplace
    rcases hplace with hsplit | hlater
    · obtain ⟨root, hroot, hmem⟩ := mem_children_of_splitPlace? hsplit
      obtain ⟨root', hroot', hextends⟩ := extends_foldl ts (d.step t) 0 root hroot
      exact ⟨root', hroot', hextends.children.subset hmem⟩
    · exact ih (d.step t) hlater

/-- Once `OR` has split, the root is locked. -/
theorem isLocked_of_mem_splitPlaces (ts : List Token) : ∀ z : Spine,
    place ∈ z.draft.splitPlaces ts → (ts.foldl Spine.step z).draft.IsLocked := by
  induction ts with
  | nil =>
    intro z hplace
    cases hplace
  | cons t ts ih =>
    intro z hplace
    rw [mem_splitPlaces_cons_iff, Spine.step_draft] at hplace
    rcases hplace with hsplit | hlater
    · obtain ⟨-, -, hsplits, -⟩ := splitPlace?_eq_some_iff.1 hsplit
      exact Spine.isLocked_foldl (t :: ts) z (isLocked_of_splitsAtOr hsplits).2
    · exact ih (z.step t) hlater

/-- A split leaves the cursor below the root, and `OR` splits at the root only. -/
theorem rightParen_mem_of_splits {between : List Token} (h : (d.splitPlace? .or).isSome = true)
    (h' : ((between.foldl step (d.step .or)).splitPlace? .or).isSome = true) :
    .rightParen ∈ outsideTokens false between := by
  obtain ⟨place, hplace⟩ := Option.isSome_iff_exists.1 h
  obtain ⟨place', hplace'⟩ := Option.isSome_iff_exists.1 h'
  obtain ⟨-, hphrase, hsplits, -⟩ := splitPlace?_eq_some_iff.1 hplace
  obtain ⟨-, -, hsplits', -⟩ := splitPlace?_eq_some_iff.1 hplace'
  have hstep := step_or_of_splitsAtOr hphrase hsplits
  by_contra hclose
  have hopen : (d.step .or).phrase.isSome = false := by
    rw [hstep, phrase_descend, hphrase]
    rfl
  have hsuffix := path_suffix_foldl between (d.step .or) (by rwa [hopen])
  rw [(isLocked_of_splitsAtOr hsplits').1, hstep, path_descend, List.suffix_nil] at hsuffix
  cases hsuffix

end Draft

/-! ### Strings -/

namespace Query

theorem mem_places_iff {place : Nat} (qs : List Query) : ∀ first : Nat,
    place ∈ places first qs ↔ ∃ i < qs.length, first + sizeAll (qs.take i) = place := by
  induction qs with
  | nil =>
    intro first
    simp
  | cons q qs ih =>
    intro first
    rw [places_cons, List.mem_cons, ih]
    constructor
    · rintro (rfl | ⟨i, hi, rfl⟩)
      · exact ⟨0, Nat.succ_pos _, rfl⟩
      · refine ⟨i + 1, Nat.succ_lt_succ hi, ?_⟩
        rw [List.take_succ_cons, sizeAll_cons, Nat.add_assoc]
    · rintro ⟨i, hi, rfl⟩
      cases i with
      | zero => exact Or.inl rfl
      | succ i =>
        refine Or.inr ⟨i, Nat.lt_of_succ_lt_succ hi, ?_⟩
        rw [List.take_succ_cons, sizeAll_cons, Nat.add_assoc]

/-- The subqueries of a root have the places that are noted there. -/
theorem mem_children_root {place : Nat} (q : Query) :
    place ∈ (q.root 0).children.toList ↔ ∃ i < q.subqueries.length, q.numberAt [i] = place := by
  rw [root, List.toList_toArray, mem_places_iff]
  refine exists_congr fun i => and_congr_right fun hi => ?_
  rw [numberAt_cons (List.getElem?_eq_getElem hi), numberAt_nil, Nat.add_zero (1 + _)]

end Query

/-- The root of a draft is the root of the tree of its string. -/
theorem getElem?_zero_ofTokens (s : String) :
    (Draft.ofTokens (tokenize s)).nodes[0]? = some ((parse s).root 0) := by
  rw [Draft.ofTokens_eq, Spine.getElem?_nodes, ← parse_eq_tree, Query.subtrees_eq]
  rfl

/-- Where `OR` splits anywhere, two terms or more are required at the root in the end. -/
theorem root_of_splitPlaces_ne_nil {s : String} (h : Draft.splitPlaces {} (tokenize s) ≠ []) :
    (parse s).occur = .must ∧ 2 ≤ (parse s).terms.length := by
  obtain ⟨place, hplace⟩ := List.exists_mem_of_ne_nil _ h
  rw [← Spine.draft_empty] at hplace
  obtain ⟨root, hroot, hmust, hterms⟩ := Draft.isLocked_of_mem_splitPlaces _ _ hplace
  rw [← Draft.ofTokens_eq, getElem?_zero_ofTokens] at hroot
  cases hroot
  exact ⟨hmust, hterms⟩

theorem size_nodes_ofTokens (s : String) :
    (Draft.ofTokens (tokenize s)).nodes.size = (parse s).size := by
  rw [Draft.ofTokens_eq, Spine.draft, List.size_toArray, Query.length_layout, parse_eq_tree]

/-- **Where `OR` splits, and what follows from it for the tree.**  A root that requires two terms
does so for good.  So if `OR` splits anywhere in a string, two terms or more are required at the
root of its tree, and it never splits in a string whose tree has a `should` node for its root.
Every split is a subquery of the root, and between two of them a parenthesis is closed outside
phrases.  Apart from the root, every node is a split or stands for an opening parenthesis outside
phrases. -/
theorem parse_splits :
    (∀ before after : List Token, (Draft.ofTokens before).IsLocked →
      (Draft.ofTokens (before ++ after)).IsLocked) ∧
    ∀ s : String,
      (Draft.splitPlaces {} (tokenize s) ≠ [] →
        (parse s).occur = .must ∧ 2 ≤ (parse s).terms.length) ∧
      ((parse s).occur = .should → Draft.splitPlaces {} (tokenize s) = []) ∧
      (∀ place ∈ Draft.splitPlaces {} (tokenize s),
        ∃ i < (parse s).subqueries.length, (parse s).numberAt [i] = place) ∧
      (∀ before between after : List Token,
        tokenize s = before ++ .or :: (between ++ .or :: after) →
        ((Draft.ofTokens before).splitPlace? .or).isSome = true →
        ((Draft.ofTokens (before ++ .or :: between)).splitPlace? .or).isSome = true →
          .rightParen ∈ outsideTokens false between) ∧
      (parse s).size
        = 1 + (outsideCharacters s).count '(' + (Draft.splitPlaces {} (tokenize s)).length := by
  constructor
  · intro before after h
    rw [Draft.ofTokens_eq] at h ⊢
    rw [List.foldl_append]
    exact Spine.isLocked_foldl after _ h
  · intro s
    refine ⟨root_of_splitPlaces_ne_nil, ?_, ?_, ?_, ?_⟩
    · intro hshould
      by_contra hsplits
      rw [(root_of_splitPlaces_ne_nil hsplits).1] at hshould
      cases hshould
    · intro place hplace
      obtain ⟨root, hroot, hmem⟩ := Draft.mem_children_of_mem_splitPlaces _ _ hplace
      rw [← Draft.ofTokens, getElem?_zero_ofTokens] at hroot
      cases hroot
      exact (Query.mem_children_root (parse s)).1 hmem
    · intro before between after _ h h'
      rw [Draft.ofTokens, List.foldl_append] at h'
      exact Draft.rightParen_mem_of_splits h h'
    · have hsize := Draft.size_nodes_foldl (tokenize s) {}
      rw [← Draft.ofTokens, size_nodes_ofTokens] at hsize
      rw [hsize, ← count_leftParen_outsideTokens]
      rfl

/-- Two splits, with a parenthesis closed between them, and one group. -/
theorem parse_splits_plums :
    let s := "ripe figs OR plums) nuts OR (pears"
    let before : List Token := [.literal "ripe", .whitespace " ", .literal "figs", .whitespace " "]
    let between : List Token := [.whitespace " ", .literal "plums", .rightParen, .whitespace " ",
      .literal "nuts", .whitespace " "]
    let after : List Token := [.whitespace " ", .leftParen, .literal "pears"]
    (Draft.ofTokens (before ++ .or :: (between ++ .or :: after))).IsLocked ∧
      Draft.splitPlaces {} (tokenize s) = [1, 2] ∧
      ((parse s).occur = .must ∧ 2 ≤ (parse s).terms.length) ∧
      (∃ i < (parse s).subqueries.length, (parse s).numberAt [i] = 2) ∧
      .rightParen ∈ outsideTokens false between ∧
      (parse s).size = 1 + 1 + 2 ∧
      (parse "figs OR ripe plums OR nuts").occur = .should ∧
      Draft.splitPlaces {} (tokenize "figs OR ripe plums OR nuts") = [] := by
  intro s before between after
  obtain ⟨hlocked, hstrings⟩ := parse_splits
  obtain ⟨hmust, -, hchildren, hbetween, hsize⟩ := hstrings s
  have htokens : tokenize s = before ++ .or :: (between ++ .or :: after) := by
    rw [tokenize_eq]
    decide +kernel
  have hsplits : Draft.splitPlaces {} (tokenize s) = [1, 2] := by
    rw [htokens]
    decide +kernel
  have hshould : (parse "figs OR ripe plums OR nuts").occur = .should := by
    rw [parse_eq_tree, tokenize_eq]
    decide +kernel
  refine ⟨?_, hsplits, ?_, ?_, ?_, ?_, hshould, ?_⟩
  · exact hlocked before _ ⟨⟨.must, #["ripe", "figs"], #[]⟩, by decide +kernel⟩
  · apply hmust
    rw [hsplits]
    exact List.cons_ne_nil _ _
  · apply hchildren
    rw [hsplits]
    decide
  · exact hbetween before between after htokens (by decide +kernel) (by decide +kernel)
  · rw [hsize, hsplits]
    decide +kernel
  · exact (hstrings "figs OR ripe plums OR nuts").2.1 hshould

end BooleanSearch
