import BooleanSearch.Proofs.Lexemes

/-!
# Recursive descent

The tree of a search string, without a cursor.  A group reads tokens until a closing parenthesis or
the end of the input, and calls itself for each opening parenthesis; what it returns is a finished
node and the tokens it has left.  The root is read in the same way, but for two points: a closing
parenthesis closes nothing there, and `OR` opens a group of its own where two terms or more are
already required.

Reading with a cursor comes to the same.  The open nodes above the cursor are the calls that have
not returned: a group that is read to its end with open nodes above it leaves those nodes alone,
and is closed into the first of them.

## Main definitions

* `Query.readPhrase?` — the words of a phrase, if it is closed.
* `Query.readGroup`, `Query.readRoot` — the descent.

## Main results

* `Spine.tree_foldl_group`, `Spine.tree_foldl_root` — reading tokens with a cursor.
* `parse_eq_readRoot` — **parsing is recursive descent on the significant tokens.**
-/

namespace BooleanSearch

namespace Query

/-- The words of a phrase up to the quote mark that closes it, and the tokens after that mark.
There are none if no quote mark is left. -/
def readPhrase? : List Token → Option (List String × List Token)
  | [] => none
  | .quoteMark :: ts => some ([], ts)
  | t :: ts => (readPhrase? ts).map fun (words, rest) => (t.phraseWord?.toList ++ words, rest)

theorem readPhrase?_cons {t : Token} (ht : t ≠ .quoteMark) (ts : List Token) :
    readPhrase? (t :: ts)
      = (readPhrase? ts).map fun (words, rest) => (t.phraseWord?.toList ++ words, rest) := by
  rw [readPhrase?]
  exact fun h => ht h

theorem length_of_readPhrase? {ts rest : List Token} {words : List String}
    (h : readPhrase? ts = some (words, rest)) : rest.length ≤ ts.length := by
  induction ts generalizing words with
  | nil => cases h
  | cons t ts ih =>
    by_cases ht : t = .quoteMark
    · subst ht
      cases h
      exact Nat.le_succ _
    · rw [readPhrase?_cons ht, Option.map_eq_some_iff] at h
      obtain ⟨⟨words', rest'⟩, h, heq⟩ := h
      cases heq
      exact Nat.le_succ_of_le (ih h)

/-- The effect on a node of a word or a keyword outside a phrase. -/
def applyToken (q : Query) : Token → Query
  | .literal word => q.pushTerm word
  | .and => q.applyAnd
  | .or => q.setOccur .should
  | _ => q

/-- Reads tokens into the node of a group, up to the parenthesis that closes it.  Comes with the
tokens that are left, which are not more than there were. -/
def readGroupAux (q : Query) (ts : List Token) :
    Query × { rest : List Token // rest.length ≤ ts.length } :=
  match ts with
  | [] => (q, ⟨[], Nat.le_refl _⟩)
  | .rightParen :: ts => (q, ⟨ts, Nat.le_succ _⟩)
  | .leftParen :: ts =>
    let sub := readGroupAux {} ts
    let done := readGroupAux (q.pushSubquery sub.1) sub.2.1
    (done.1, ⟨done.2.1, Nat.le_succ_of_le (Nat.le_trans done.2.2 sub.2.2)⟩)
  | .quoteMark :: ts =>
    match h : readPhrase? ts with
    | none => (q, ⟨[], Nat.zero_le _⟩)
    | some (words, rest) =>
      let done := readGroupAux (q.pushTerm (" ".intercalate words)) rest
      (done.1, ⟨done.2.1, Nat.le_succ_of_le (Nat.le_trans done.2.2 (length_of_readPhrase? h))⟩)
  | t :: ts =>
    let done := readGroupAux (q.applyToken t) ts
    (done.1, ⟨done.2.1, Nat.le_succ_of_le done.2.2⟩)
termination_by ts.length
decreasing_by
  · exact Nat.lt_succ_self _
  · exact Nat.lt_succ_of_le sub.2.2
  · exact Nat.lt_succ_of_le (length_of_readPhrase? h)
  · exact Nat.lt_succ_self _

/-- Reads tokens into the node of a group, up to the parenthesis that closes it or to the end of
the input.  Comes with the tokens that are left. -/
def readGroup (q : Query) (ts : List Token) : Query × List Token :=
  ((readGroupAux q ts).1, (readGroupAux q ts).2.1)

theorem length_readGroup_le (q : Query) (ts : List Token) :
    (readGroup q ts).2.length ≤ ts.length :=
  (readGroupAux q ts).2.2

/-- Reads tokens into the root. -/
def readRoot (q : Query) (ts : List Token) : Query :=
  match ts with
  | [] => q
  | .rightParen :: ts => readRoot q ts
  | .leftParen :: ts =>
    let sub := readGroup {} ts
    readRoot (q.pushSubquery sub.1) sub.2
  | .or :: ts =>
    if q.requiresSeveral then
      let sub := readGroup { occur := .should } ts
      readRoot (q.pushSubquery sub.1) sub.2
    else readRoot (q.setOccur .should) ts
  | .quoteMark :: ts =>
    match _h : readPhrase? ts with
    | none => q
    | some (words, rest) => readRoot (q.pushTerm (" ".intercalate words)) rest
  | t :: ts => readRoot (q.applyToken t) ts
termination_by ts.length
decreasing_by
  · exact Nat.lt_succ_self _
  · exact Nat.lt_succ_of_le (length_readGroup_le _ _)
  · exact Nat.lt_succ_of_le (length_readGroup_le _ _)
  · exact Nat.lt_succ_self _
  · exact Nat.lt_succ_of_le (length_of_readPhrase? _h)
  · exact Nat.lt_succ_self _

end Query

namespace Spine

open Query

/-! ### Phrases -/

theorem step_of_ne_quoteMark {t : Token} (ht : t ≠ .quoteMark) (q : Query)
    (above : List Query) (words : List String) :
    step ⟨q, above, some words⟩ t = ⟨q, above, some (words ++ t.phraseWord?.toList)⟩ :=
  stepInPhrase_of_ne_quoteMark ⟨q, above, some words⟩ words ht

/-- A phrase that is not closed adds nothing to the tree. -/
theorem tree_foldl_open {ts : List Token} (h : readPhrase? ts = none) (q : Query)
    (above : List Query) (words : List String) :
    (ts.foldl step ⟨q, above, some words⟩).tree = q.closeInto above := by
  induction ts generalizing words with
  | nil => rfl
  | cons t ts ih =>
    by_cases ht : t = .quoteMark
    · subst ht; cases h
    · rw [readPhrase?_cons ht, Option.map_eq_none_iff] at h
      rw [List.foldl_cons, step_of_ne_quoteMark ht]
      exact ih h _

/-- A phrase that is closed becomes a term. -/
theorem foldl_phrase {ts rest : List Token} {more : List String}
    (h : readPhrase? ts = some (more, rest)) (q : Query) (above : List Query)
    (words : List String) :
    ts.foldl step ⟨q, above, some words⟩
      = rest.foldl step ⟨q.pushTerm (" ".intercalate (words ++ more)), above, none⟩ := by
  induction ts generalizing words more with
  | nil => cases h
  | cons t ts ih =>
    by_cases ht : t = .quoteMark
    · subst ht
      cases h
      rw [List.append_nil]
      rfl
    · rw [readPhrase?_cons ht, Option.map_eq_some_iff] at h
      obtain ⟨⟨more', rest'⟩, h, heq⟩ := h
      cases heq
      rw [List.foldl_cons, step_of_ne_quoteMark ht, ih h, List.append_assoc]

/-! ### Groups and the root -/

/-- Tokens that open or close nothing change the node under the cursor alone.  At the root this
excludes an `OR` that opens a subquery. -/
theorem step_eq_applyToken {q : Query} {above : List Query} {t : Token}
    (hright : t ≠ .rightParen) (hleft : t ≠ .leftParen) (hquote : t ≠ .quoteMark)
    (hor : t = .or → (above.isEmpty && q.requiresSeveral) = false) :
    step ⟨q, above, none⟩ t = ⟨q.applyToken t, above, none⟩ := by
  cases t with
  | or => simp [step, stepOutside, applyOr, hor rfl, modify, applyToken]
  | rightParen => exact absurd rfl hright
  | leftParen => exact absurd rfl hleft
  | quoteMark => exact absurd rfl hquote
  | _ => rfl

/-- Reading in a group below `parent` reads the group to its end, closes it, and goes on with the
tokens that are left. -/
theorem tree_foldl_group (q parent : Query) (above : List Query) (ts : List Token) :
    (ts.foldl step ⟨q, parent :: above, none⟩).tree
      = ((readGroup q ts).2.foldl step
          ⟨parent.pushSubquery (readGroup q ts).1, above, none⟩).tree := by
  unfold readGroup
  fun_induction readGroupAux q ts generalizing parent above with
  | case1 q => rfl
  | case2 q ts => rfl
  | case3 q ts sub done ih_sub ih_done =>
    -- the new group has `q` above it, and `q` has `parent` above it
    have hstep : step ⟨q, parent :: above, none⟩ .leftParen
        = ⟨{}, q :: parent :: above, none⟩ := rfl
    rw [List.foldl_cons, hstep, ih_sub, ih_done]
  | case4 q ts h =>
    have hstep : step ⟨q, parent :: above, none⟩ .quoteMark
        = ⟨q, parent :: above, some []⟩ := rfl
    rw [List.foldl_cons, hstep, tree_foldl_open h]
    rfl
  | case5 q ts words rest h done ih =>
    have hstep : step ⟨q, parent :: above, none⟩ .quoteMark
        = ⟨q, parent :: above, some []⟩ := rfl
    -- the whole phrase is one term of the group
    rw [List.foldl_cons, hstep, foldl_phrase h, List.nil_append, ih]
  | case6 q t ts hright hleft hquote done ih =>
    rw [List.foldl_cons, step_eq_applyToken hright hleft hquote (fun _ => rfl), ih]

/-- Reading at the root. -/
theorem tree_foldl_root (q : Query) (ts : List Token) :
    (ts.foldl step ⟨q, [], none⟩).tree = readRoot q ts := by
  fun_induction readRoot q ts with
  | case1 q => rfl
  | case2 q ts ih => exact ih
  | case3 q ts sub ih =>
    rw [← ih]
    exact tree_foldl_group {} q [] ts
  | case4 q ts hsplit sub ih =>
    -- `OR` opens a group, and it is closed like any other
    have hstep : step ⟨q, [], none⟩ .or = ⟨{ occur := .should }, [q], none⟩ := by
      simp [step, stepOutside, applyOr, hsplit, descend]
    rw [← ih, List.foldl_cons, hstep]
    exact tree_foldl_group { occur := .should } q [] ts
  | case5 q ts hsplit ih =>
    have hstep : step ⟨q, [], none⟩ .or = ⟨q.setOccur .should, [], none⟩ := by
      simp [step, stepOutside, applyOr, hsplit, modify]
    rw [← ih, List.foldl_cons, hstep]
  | case6 q ts h => exact tree_foldl_open h q [] []
  | case7 q ts words rest h ih =>
    rw [← ih]
    exact congrArg tree (foldl_phrase h q [] [])
  | case8 q t ts hright hleft hor hquote ih =>
    rw [← ih, List.foldl_cons,
      step_eq_applyToken hright hleft hquote (fun h => absurd h hor)]

end Spine

/-- **Parsing is recursive descent on the significant tokens.** -/
theorem parse_eq_readRoot (s : String) :
    parse s = ({} : Query).readRoot ((tokenize s).filter Token.isSignificant) := by
  calc parse s
      = ((tokenize s).foldl Spine.step {}).tree := parse_eq_tree s
    _ = (((tokenize s).filter Token.isSignificant).foldl Spine.step {}).tree := by
        rw [Spine.foldl_step_filter]
    _ = ({} : Query).readRoot ((tokenize s).filter Token.isSignificant) :=
        Spine.tree_foldl_root {} _

end BooleanSearch
