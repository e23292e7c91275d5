import BooleanSearch.Proofs.Nesting
import BooleanSearch.Proofs.Replace

/-!
# Groups

A group in parentheses is read by itself.  If its text is balanced, nothing in it reaches the nodes
outside, and nothing outside but the rule for `OR` reaches it: in a group `OR` never opens a
subquery.  What comes after the group sees no more of it than that there is one.

## Main definitions

* `Spine.inGroup` — the effect of a token in a group.
* `groupTree` — the tree of a text in parentheses.

## Main results

* `Spine.foldl_step_under` — a balanced text has the same effect below any open nodes.
* `parse_group` — **a group may be read by itself and put in its place.**
-/

namespace BooleanSearch

namespace Spine

/-- The open nodes of a spine, with more of them above. -/
def under (z : Spine) (base : List Query) : Spine :=
  { z with above := z.above ++ base }

/-- The effect of a token in a group. -/
def inGroup (z : Spine) (t : Token) : Spine :=
  if t = .or ∧ z.phrase = none then z.modify (·.setOccur .should) else z.step t

/-- What is open in a spine. -/
def nesting (z : Spine) : Nesting where
  depth := z.above.length
  inPhrase := z.phrase.isSome

variable {z : Spine} {base : List Query} {t : Token} {n : Nesting}

/-- What is open after a token in a group. -/
theorem nesting_inGroup (h : z.nesting.token? t = some n) : (z.inGroup t).nesting = n := by
  obtain ⟨q, above, phrase⟩ := z
  cases phrase with
  | some words => cases t <;> cases h <;> rfl
  | none =>
    cases t with
    | rightParen =>
      cases above with
      | nil => cases h
      | cons parent above => cases h; rfl
    | _ => cases h; rfl

/-- A token that closes nothing outside the group leaves alone what is outside. -/
theorem step_under (h : z.nesting.token? t = some n)
    (hor : t = .or → z.phrase = none → (z.under base).draft.splitsAtOr = false) :
    (z.under base).step t = (z.inGroup t).under base := by
  obtain ⟨q, above, phrase⟩ := z
  cases phrase with
  | some words => cases t <;> rfl
  | none =>
    cases t with
    | or =>
      have hsplit := hor rfl rfl
      rw [splitsAtOr_draft] at hsplit
      have hstep : (under ⟨q, above, none⟩ base).step .or
          = (under ⟨q, above, none⟩ base).applyOr := rfl
      rw [hstep, applyOr, hsplit]
      rfl
    | rightParen =>
      cases above with
      | nil => cases h
      | cons parent above => rfl
    | _ => rfl

theorem splitPlaces_draft_cons_eq_nil_iff (z : Spine) (t : Token) (ts : List Token) :
    z.draft.splitPlaces (t :: ts) = [] ↔
      (t = .or → z.phrase = none → z.draft.splitsAtOr = false) ∧
        (z.step t).draft.splitPlaces ts = [] := by
  have hphrase : z.draft.phrase = none ↔ z.phrase = none := Option.map_eq_none_iff
  rw [Draft.splitPlaces_cons_eq_nil_iff, hphrase, step_draft]

/-- **A balanced text has the same effect below any open nodes**, and without any if it opens no
subquery for an `OR`. -/
theorem foldl_step_under {ts : List Token} (h : ts.foldlM Nesting.token? z.nesting = some n)
    (hbase : base ≠ [] ∨ (z.under base).draft.splitPlaces ts = []) :
    ts.foldl step (z.under base) = (ts.foldl inGroup z).under base ∧
      (ts.foldl inGroup z).nesting = n := by
  induction ts generalizing z with
  | nil =>
    cases h
    exact ⟨rfl, rfl⟩
  | cons t ts ih =>
    rw [List.foldlM_cons] at h
    obtain ⟨m, hm, hts⟩ := Option.bind_eq_some_iff.1 h
    -- below open nodes `OR` never opens a subquery, and without any it does not by assumption
    have hor : t = .or → z.phrase = none → (z.under base).draft.splitsAtOr = false := by
      intro ht hz
      rcases hbase with hne | hsplit
      · have habove : (z.above ++ base).isEmpty = false :=
          List.isEmpty_eq_false_iff.2 (List.append_ne_nil_of_right_ne_nil _ hne)
        rw [splitsAtOr_draft, under, habove, Bool.false_and]
      · exact ((splitPlaces_draft_cons_eq_nil_iff _ t ts).1 hsplit).1 ht hz
    have hstep := step_under hm hor
    have hbase' : base ≠ [] ∨ ((z.inGroup t).under base).draft.splitPlaces ts = [] := by
      rw [← hstep]
      exact hbase.imp_right fun hsplit =>
        ((splitPlaces_draft_cons_eq_nil_iff _ t ts).1 hsplit).2
    rw [← nesting_inGroup hm] at hts
    rw [List.foldl_cons, List.foldl_cons, hstep]
    exact ih hts hbase'

end Spine

/-! ### Groups -/

/-- The tree of a text in parentheses. -/
def groupTree (b : String) : Query :=
  ((tokenize b).foldl Spine.inGroup {}).tree

namespace Spine

/-- Reading a balanced text in a new node. -/
theorem read_of_isBalanced {b : String} (hb : IsBalanced b) {base : List Query}
    (hbase : base ≠ [] ∨ Draft.splitPlaces (draft ⟨{}, base, none⟩) (tokenize b) = []) :
    read ⟨{}, base, none⟩ b.toList = ⟨groupTree b, base, none⟩ := by
  have hnesting : (lexemes b.toList).foldlM Nesting.token? {} = some {} := by
    rw [Nesting.foldlM_lexemes]
    exact hb
  rw [tokenize_eq] at hbase
  obtain ⟨hread, hclosed⟩ := foldl_step_under (z := {}) hnesting hbase
  rw [groupTree, tokenize_eq]
  rcases hz : (lexemes b.toList).foldl inGroup {} with ⟨q, above, phrase⟩
  rw [hz] at hread hclosed
  -- nothing that was opened in the text is still open
  have habove : above = [] := List.eq_nil_of_length_eq_zero (congrArg Nesting.depth hclosed)
  have hphrase : phrase = none :=
    Option.isNone_iff_eq_none.1 (Option.isSome_eq_false_iff.1 (congrArg Nesting.inPhrase hclosed))
  subst habove hphrase
  exact hread

/-- Reading a group. -/
theorem read_group (q : Query) (above : List Query) {b : String} (hb : IsBalanced b)
    (r : List Char) :
    read ⟨q, above, none⟩ ('(' :: (b.toList ++ ')' :: r))
      = read ⟨q.pushSubquery (groupTree b), above, none⟩ r := by
  have hopen : step ⟨q, above, none⟩ (.ofMark '(') = ⟨{}, q :: above, none⟩ := rfl
  have hclose : step ⟨groupTree b, q :: above, none⟩ (.ofMark ')')
      = ⟨q.pushSubquery (groupTree b), above, none⟩ := rfl
  rw [read_mark _ rfl, hopen, read_append_mark _ _ rfl,
    read_of_isBalanced hb (Or.inl (List.cons_ne_nil q above)), hclose]

/-- A subquery is closed once it was added, and a tree may be put in its place. -/
theorem isClosed_pushSubquery (q sub : Query) (above : List Query) :
    IsClosed ⟨q.pushSubquery sub, above, none⟩ (Query.sizeAll above + q.size) := by
  have hq := q.size_pos
  have hsub := sub.size_pos
  have hsize := q.size_pushSubquery sub
  have hlt : Query.sizeAll above < Query.sizeAll above + q.size ∧
      Query.sizeAll above + q.size < Query.sizeAll above + (q.pushSubquery sub).size :=
    ⟨by omega, by omega⟩
  exact Or.inl hlt

theorem replace_pushSubquery (q sub : Query) (above : List Query) (x : Query) :
    replace ⟨q.pushSubquery sub, above, none⟩ (Query.sizeAll above + q.size) x
      = ⟨q.pushSubquery x, above, none⟩ := by
  have hsub := sub.size_pos
  rw [replace_of_le (Nat.le_add_right _ _), Nat.add_sub_cancel_left,
    Query.replace_pushSubquery_of_le (Nat.le_refl _) (Nat.lt_add_of_pos_right hsub), Nat.sub_self,
    Query.replace_zero]

/-- What is read after a subquery sees nothing of it, so another tree may be put in its place. -/
theorem tree_read_pushSubquery (q sub : Query) (above : List Query) (r : List Char) :
    (∀ x, (read ⟨q.pushSubquery x, above, none⟩ r).tree
        = (read ⟨q.pushSubquery sub, above, none⟩ r).tree.replace
            (Query.sizeAll above + q.size) x) ∧
      Query.sizeAll above + q.size < (read ⟨q.pushSubquery sub, above, none⟩ r).tree.size := by
  have hclosed := isClosed_pushSubquery q sub above
  constructor
  · intro x
    obtain ⟨hread, hclosed'⟩ := foldl_step_replace hclosed x (lexemes r)
    rw [replace_pushSubquery] at hread
    rw [read, hread]
    exact tree_replace hclosed' x
  · obtain ⟨-, hclosed'⟩ := foldl_step_replace hclosed {} (lexemes r)
    exact hclosed'.lt_size_tree

end Spine

theorem isBalanced_empty : IsBalanced "" := by
  decide

theorem groupTree_empty : groupTree "" = {} := by
  rw [groupTree, tokenize_eq]
  show ((lexemes []).foldl Spine.inGroup {}).tree = {}
  rw [lexemes_nil]
  rfl

/-- A group after a text that leaves no phrase open. -/
theorem parse_append_group {p b : String} {q : Query} {above : List Query}
    (hp : ({} : Spine).read p.toList = ⟨q, above, none⟩) (hb : IsBalanced b) (r : String) :
    parse (p ++ "(" ++ b ++ ")" ++ r)
      = (Spine.read ⟨q.pushSubquery (groupTree b), above, none⟩ r.toList).tree := by
  have htext : (p ++ "(" ++ b ++ ")" ++ r).toList
      = p.toList ++ '(' :: (b.toList ++ ')' :: r.toList) := by
    simp
  rw [parse_eq_read, htext, Spine.read_append_mark _ _ rfl, ← Spine.read_mark _ rfl, hp,
    Spine.read_group q above hb]

/-- The tree of a group stands in the place of the node that an empty group opens. -/
theorem parse_append_group_eq_replace {p b : String} (hp : HasEvenQuotes p) (hb : IsBalanced b)
    (r : String) :
    (parse (p ++ "()" ++ r)).subtrees[(parse p).size]? = some {} ∧
      parse (p ++ "(" ++ b ++ ")" ++ r)
        = (parse (p ++ "()" ++ r)).replace (parse p).size (groupTree b) := by
  have hphrase := Spine.phrase_read_of_hasEvenQuotes hp
  rcases hz : ({} : Spine).read p.toList with ⟨q, above, phrase⟩
  rw [hz] at hphrase
  obtain rfl : phrase = none := hphrase
  have hsize : (parse p).size = Query.sizeAll above + q.size := by
    rw [parse_eq_read, hz, Spine.tree, Spine.size_closeInto]
  have hempty : parse (p ++ "()" ++ r)
      = (Spine.read ⟨q.pushSubquery {}, above, none⟩ r.toList).tree := by
    have hparens : "()" = "(" ++ ")" := rfl
    have htext : p ++ "()" = p ++ "(" ++ "" ++ ")" := by
      rw [String.append_empty, hparens, String.append_assoc]
    rw [htext, parse_append_group hz isBalanced_empty, groupTree_empty]
  obtain ⟨hreplace, hlt⟩ := Spine.tree_read_pushSubquery q {} above r.toList
  rw [parse_append_group hz hb, hempty, hsize, hreplace (groupTree b)]
  refine ⟨?_, rfl⟩
  have hself := Query.getElem?_subtrees_replace _ {} hlt
  rwa [← hreplace {}] at hself

/-- A group by itself. -/
theorem parse_parens {b : String} (hb : IsBalanced b) :
    parse ("(" ++ b ++ ")") = { subqueries := [groupTree b] } := by
  have htext : ("(" ++ b ++ ")").toList = '(' :: (b.toList ++ ')' :: []) := by simp
  have hread : ({} : Spine).read ("(" ++ b ++ ")").toList
      = ⟨Query.pushSubquery {} (groupTree b), [], none⟩ := by
    rw [htext, Spine.read_group {} [] hb, Spine.read_nil]
  rw [parse_eq_read, hread]
  rfl

theorem groupTree_eq_parse {b : String} (hb : IsBalanced b)
    (hsplit : Draft.splitPlaces {} (tokenize b) = []) : groupTree b = parse b := by
  rw [← Spine.draft_empty] at hsplit
  rw [parse_eq_read, Spine.read_of_isBalanced hb (Or.inr hsplit)]
  rfl

/-- **A group may be read by itself and put in its place**, which is that of the node opened next
after those of the text before it.  The root follows another rule for `OR` than a group, and where
this makes no difference, the tree of the group is that of its text. -/
theorem parse_group :
    (∀ p b r : String, HasEvenQuotes p → IsBalanced b →
      (parse (p ++ "()" ++ r)).subtrees[(parse p).size]? = some {} ∧
        parse (p ++ "(" ++ b ++ ")" ++ r)
          = (parse (p ++ "()" ++ r)).replace (parse p).size (groupTree b)) ∧
      (∀ b : String, IsBalanced b → parse ("(" ++ b ++ ")") = { subqueries := [groupTree b] }) ∧
      ∀ b : String, IsBalanced b → Draft.splitPlaces {} (tokenize b) = [] →
        groupTree b = parse b := by
  refine ⟨?_, ?_, ?_⟩
  · intro p b r hp hb
    exact parse_append_group_eq_replace hp hb r
  · intro b hb
    exact parse_parens hb
  · intro b hb hsplit
    exact groupTree_eq_parse hb hsplit

/-- A group behind a phrase and inside another group, which is read like its text alone. -/
theorem parse_group_pears :
    (parse ("ripe \"(\" (apples" ++ "()" ++ " OR figs")).subtrees[
        (parse "ripe \"(\" (apples").size]? = some {} ∧
      parse ("ripe \"(\" (apples" ++ "(" ++ "pears OR (plums)" ++ ")" ++ " OR figs")
        = (parse ("ripe \"(\" (apples" ++ "()" ++ " OR figs")).replace
            (parse "ripe \"(\" (apples").size (groupTree "pears OR (plums)") ∧
        parse ("(" ++ "pears OR (plums)" ++ ")")
          = { subqueries := [groupTree "pears OR (plums)"] } ∧
          groupTree "pears OR (plums)" = parse "pears OR (plums)" := by
  have heven : HasEvenQuotes "ripe \"(\" (apples" := by decide
  have hbalanced : IsBalanced "pears OR (plums)" := by decide
  have hsplit : Draft.splitPlaces {} (tokenize "pears OR (plums)") = [] := by
    rw [tokenize_eq]
    decide +kernel
  obtain ⟨hplace, hgroup⟩ := parse_group.1 _ _ " OR figs" heven hbalanced
  exact ⟨hplace, hgroup, parse_group.2.1 _ hbalanced, parse_group.2.2 _ hbalanced hsplit⟩

end BooleanSearch
