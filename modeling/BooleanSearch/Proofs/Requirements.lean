import BooleanSearch.Proofs.Nodes
import BooleanSearch.Query.Equality

/-!
# The requirement of a node

Keywords for one node may stand far apart, with whole groups between them, but the requirement of
the node is told by the last of them that counts.  A keyword belongs to the node that the cursor is
on when it is read.  `AND` counts once that node has a term.  `OR` always counts, except that it
opens a subquery where two terms or more are required at the root; so at the root it counts while
there is one term at most, and if there are more, it either opens a subquery or finds the
requirement as it would set it.

Where no keyword counts, a node has the requirement that it was opened with: a parenthesis opens a
`must` node and `OR` a `should` node, and the root is there as a `must` node from the beginning.

## Main definitions

* `Token.requirement` — the requirement that a token sets, or opens a node with.
* `Draft.Counts` — the keywords that count for a node, among those that belong to it.
* `Draft.countedAt` — the keywords that count for a node along some tokens.
* `Draft.openedBy?` — the token that opens a node.
* `Draft.OrPrevails` — the tokens that leave the root as a `should` node.

## Main results

* `Draft.occurAt?_step` — one token.
* `Spine.occurAt?_foldl`, `Spine.occurAt?_foldl_opened` — all tokens, for a node that is there
  before them and for one that they open.
* `parse_requirements` — **the requirement of every node of a tree.**
-/

namespace BooleanSearch

/-- The requirement that a keyword sets, and that the node has which a token opens. -/
def Token.requirement : Token → Occur
  | .or => .should
  | _ => .must

namespace Draft

/-- Whether a token is a keyword that counts for the node at a place. -/
def Counts (d : Draft) (place : Nat) (t : Token) : Prop :=
  d.IsAt place ∧
    ((t = .or ∧ (place = 0 → d.termCount ≤ 1)) ∨ (t = .and ∧ 0 < d.termCount))

instance (d : Draft) (place : Nat) (t : Token) : Decidable (d.Counts place t) :=
  inferInstanceAs (Decidable (_ ∧ ((_ ∧ (_ → _)) ∨ (_ ∧ _))))

/-- The keywords that count for the node at a place, along some tokens. -/
def countedAt (place : Nat) (d : Draft) : List Token → List Token
  | [] => []
  | t :: ts => (if d.Counts place t then [t] else []) ++ countedAt place (d.step t) ts

/-- The token that opens the node at a place, if one of some tokens does. -/
def openedBy? (place : Nat) (d : Draft) : List Token → Option Token
  | [] => none
  | t :: ts =>
    if d.nodes.size = place ∧ d.nodes.size < (d.step t).nodes.size then some t
    else openedBy? place (d.step t) ts

/-- The requirement of the node at a place, if there is one. -/
def occurAt? (d : Draft) (place : Nat) : Option Occur :=
  d.nodes[place]?.map Node.occur

variable {d : Draft} {place : Nat} {t : Token}

/-! ### One token -/

theorem occurAt?_modifyCurrent_of_eq {f : Node → Node} (hf : ∀ node, (f node).occur = node.occur) :
    (d.modifyCurrent f).occurAt? place = d.occurAt? place := by
  have hcomp : Node.occur ∘ f = Node.occur := funext hf
  rw [occurAt?, getElem?_modifyCurrent]
  split
  · rw [Option.map_map, hcomp, occurAt?]
  · rfl

theorem occurAt?_pushTerm (term : String) : (d.pushTerm term).occurAt? place = d.occurAt? place :=
  occurAt?_modifyCurrent_of_eq fun _ => rfl

/-- A node that is opened has no effect on those that are there. -/
theorem occurAt?_descend_of_ne (h : place ≠ d.nodes.size) (o : Occur) :
    (d.descend o).occurAt? place = d.occurAt? place := by
  rw [occurAt?, getElem?_descend, if_neg h]
  exact occurAt?_modifyCurrent_of_eq fun _ => rfl

theorem occurAt?_descend_size (d : Draft) (o : Occur) :
    (d.descend o).occurAt? d.nodes.size = some o := by
  rw [occurAt?, getElem?_descend, if_pos rfl]
  rfl

/-- No keyword counts inside a phrase. -/
theorem occurAt?_stepInPhrase {words : Array String} (hphrase : d.phrase = some words) (t : Token) :
    (d.stepInPhrase t).occurAt? place = d.occurAt? place := by
  cases t with
  | quoteMark =>
    rw [stepInPhrase, toggleQuote, hphrase]
    exact occurAt?_pushTerm _
  | _ => rfl

/-- `AND` counts for the node under the cursor once that has a term. -/
theorem occurAt?_applyAnd {node : Node} (hnode : d.nodes[place]? = some node) :
    d.applyAnd.occurAt? place
      = if d.cursor = place ∧ 0 < d.termCount then some .must else some node.occur := by
  rw [occurAt?, applyAnd, getElem?_modifyCurrent, hnode]
  by_cases hcursor : d.cursor = place
  · rw [if_pos hcursor, termCount_eq (hcursor ▸ hnode), Option.map_some, Option.map_some]
    by_cases hterms : node.terms.isEmpty = true
    · have hsize : ¬0 < node.terms.size := by
        rw [Array.isEmpty_iff_size_eq_zero.1 hterms]
        exact Nat.lt_irrefl 0
      rw [if_pos hterms, if_neg fun h => hsize h.2]
    · have hsize : 0 < node.terms.size := by
        rw [Array.isEmpty_iff_size_eq_zero] at hterms
        omega
      rw [if_neg hterms, if_pos ⟨hcursor, hsize⟩]
  · rw [if_neg hcursor, if_neg fun h => hcursor h.1]
    rfl

theorem occurAt?_setOccur {node : Node} (hnode : d.nodes[place]? = some node) (o : Occur) :
    (d.setOccur o).occurAt? place = if d.cursor = place then some o else some node.occur := by
  rw [occurAt?, setOccur, getElem?_modifyCurrent, hnode]
  split <;> rfl

/-- `OR` opens a subquery where two terms or more are required at the root. -/
theorem splitsAtOr_iff {node : Node} (hroot : d.cursor = 0 → d.path = [])
    (hnode : d.nodes[d.cursor]? = some node) :
    d.splitsAtOr = true ↔ d.cursor = 0 ∧ node.occur = .must ∧ 1 < node.terms.size := by
  have hpath : d.path = [] ↔ d.cursor = 0 := by
    refine ⟨fun h => ?_, hroot⟩
    rw [cursor, h]
    rfl
  rw [splitsAtOr, Bool.and_eq_true, List.isEmpty_iff, hpath]
  refine and_congr_right fun hcursor => ?_
  rw [hcursor] at hnode
  rw [hnode, Option.any_some, Bool.and_eq_true, beq_iff_eq, decide_eq_true_iff]

/-- `OR` counts for the node under the cursor, unless that is the root and has two terms or more. -/
theorem occurAt?_applyOr {node : Node} (hroot : d.cursor = 0 → d.path = [])
    (hnode : d.nodes[place]? = some node) :
    d.applyOr.occurAt? place
      = if d.cursor = place ∧ (place = 0 → d.termCount ≤ 1) then some .should
        else some node.occur := by
  by_cases hcursor : d.cursor = place
  · subst hcursor
    have hcount := termCount_eq hnode
    have hsplits := splitsAtOr_iff hroot hnode
    by_cases hor : d.splitsAtOr = true
    · -- the new node is behind the root, and the root stays as it is
      obtain ⟨hzero, -, hterms⟩ := hsplits.1 hor
      have hlt : d.cursor ≠ d.nodes.size := Nat.ne_of_lt (Array.getElem?_eq_some_iff.1 hnode).1
      have hmany : ¬(d.cursor = 0 → d.termCount ≤ 1) := fun h => by
        have hle := h hzero
        omega
      rw [applyOr, if_pos hor, occurAt?_descend_of_ne hlt, occurAt?, hnode,
        if_neg fun h => hmany h.2]
      rfl
    · rw [applyOr, if_neg hor, occurAt?_setOccur hnode, if_pos rfl]
      by_cases hfew : d.cursor = 0 → d.termCount ≤ 1
      · rw [if_pos ⟨rfl, hfew⟩]
      · -- several terms at the root that are not required: it is a `should` node already
        rw [if_neg fun h => hfew h.2]
        rw [Classical.not_imp, hcount, Nat.not_le] at hfew
        cases hoccur : node.occur with
        | should => rfl
        | must => exact absurd (hsplits.2 ⟨hfew.1, hoccur, hfew.2⟩) hor
  · have hne : place ≠ d.nodes.size := Nat.ne_of_lt (Array.getElem?_eq_some_iff.1 hnode).1
    rw [if_neg fun h => hcursor h.1, applyOr]
    split
    · rw [occurAt?_descend_of_ne hne, occurAt?, hnode]
      rfl
    · rw [occurAt?_setOccur hnode, if_neg hcursor]

/-- A token sets the requirement of a node if it counts for the node, and else leaves it. -/
theorem occurAt?_step (hroot : d.cursor = 0 → d.path = []) (hplace : place < d.nodes.size)
    (t : Token) :
    (d.step t).occurAt? place
      = if d.Counts place t then some t.requirement else d.occurAt? place := by
  have hnode : d.nodes[place]? = some d.nodes[place] := Array.getElem?_eq_getElem hplace
  have hself : d.occurAt? place = some d.nodes[place].occur := by
    rw [occurAt?, hnode]
    rfl
  cases hphrase : d.phrase with
  | some words =>
    have hout : ¬d.Counts place t := by
      rintro ⟨⟨hnone, -⟩, -⟩
      rw [hphrase] at hnone
      cases hnone
    rw [step_eq_stepInPhrase hphrase, if_neg hout]
    exact occurAt?_stepInPhrase hphrase t
  | none =>
    rw [step_eq_stepOutside hphrase]
    cases t with
    | and =>
      show d.applyAnd.occurAt? place = _
      rw [occurAt?_applyAnd hnode, hself]
      simp [Counts, IsAt, hphrase, Token.requirement]
    | or =>
      show d.applyOr.occurAt? place = _
      rw [occurAt?_applyOr hroot hnode, hself]
      simp [Counts, IsAt, hphrase, Token.requirement]
    | literal word =>
      rw [if_neg (by simp [Counts])]
      exact occurAt?_pushTerm word
    | leftParen =>
      rw [if_neg (by simp [Counts])]
      exact occurAt?_descend_of_ne (Nat.ne_of_lt hplace) .must
    | quoteMark =>
      rw [if_neg (by simp [Counts]), stepOutside, toggleQuote, hphrase]
      rfl
    | rightParen | whitespace _ | illegal _ | endOfInput =>
      rw [if_neg (by simp [Counts])]
      rfl

/-- Of all tokens only an opening parenthesis and `OR` may open a node, and the node has the
requirement of the token then. -/
theorem Opening.size_nodes_or {d' : Draft} {t : Token} (h : d.Opening t d') :
    d'.nodes.size = d.nodes.size ∨
      ((t = .leftParen ∨ t = .or) ∧ d' = d.descend t.requirement) := by
  cases h with
  | same t hsame houtside hsplit => exact Or.inl hsame.size
  | group hphrase => exact Or.inr ⟨Or.inl rfl, rfl⟩
  | close hphrase => exact Or.inl rfl
  | split hphrase hsplits => exact Or.inr ⟨Or.inr rfl, rfl⟩

theorem size_nodes_le_step (d : Draft) (t : Token) : d.nodes.size ≤ (d.step t).nodes.size := by
  rcases (d.opening_step t).size_nodes_or with hsame | ⟨-, hstep⟩
  · exact Nat.le_of_eq hsame.symm
  · rw [hstep, size_nodes_descend]
    exact Nat.le_succ _

theorem countedAt_cons_of_not {ts : List Token} (h : ¬d.Counts place t) :
    d.countedAt place (t :: ts) = (d.step t).countedAt place ts := by
  rw [countedAt, if_neg h, List.nil_append]

/-- The last keyword that counts, where `opening` stands in for it if there is none. -/
theorem getLast?_countedAt_cons (ts : List Token) (opening : Token) :
    (d.countedAt place (t :: ts)).getLast?.getD opening
      = ((d.step t).countedAt place ts).getLast?.getD
          (if d.Counts place t then t else opening) := by
  rw [countedAt, List.getLast?_append]
  split
  · cases ((d.step t).countedAt place ts).getLast? <;> rfl
  · cases ((d.step t).countedAt place ts).getLast? <;> rfl

end Draft

/-! ### All tokens -/

namespace Spine

open Draft

variable {place : Nat}

theorem occurAt?_step (z : Spine) (hplace : place < z.draft.nodes.size) (t : Token) :
    (z.step t).draft.occurAt? place
      = if z.draft.Counts place t then some t.requirement else z.draft.occurAt? place := by
  rw [← step_draft]
  exact Draft.occurAt?_step path_eq_nil_of_cursor_eq_zero hplace t

/-- A node that is there has the requirement of the last keyword that counts for it. -/
theorem occurAt?_foldl (ts : List Token) : ∀ (z : Spine) (opening : Token),
    place < z.draft.nodes.size → z.draft.occurAt? place = some opening.requirement →
      (ts.foldl step z).draft.occurAt? place
        = some ((z.draft.countedAt place ts).getLast?.getD opening).requirement := by
  induction ts with
  | nil =>
    intro z opening _ hopening
    exact hopening
  | cons t ts ih =>
    intro z opening hplace hopening
    have hplace' : place < (z.step t).draft.nodes.size := by
      rw [← step_draft]
      exact Nat.lt_of_lt_of_le hplace (size_nodes_le_step _ t)
    have hopening' : (z.step t).draft.occurAt? place
        = some (if z.draft.Counts place t then t else opening).requirement := by
      rw [z.occurAt?_step hplace, hopening]
      split <;> rfl
    rw [List.foldl_cons, ih _ _ hplace' hopening', getLast?_countedAt_cons, step_draft]

/-- No keyword belongs to a node that is not there yet. -/
theorem not_counts_of_size_le (z : Spine) (h : z.draft.nodes.size ≤ place) (t : Token) :
    ¬z.draft.Counts place t := by
  rintro ⟨⟨-, hcursor⟩, -⟩
  have hlt := z.cursor_lt_size_nodes
  omega

/-- A node that is opened by one of the tokens has the requirement of the last keyword that counts
for it, or of the token that opened it. -/
theorem occurAt?_foldl_opened (ts : List Token) : ∀ z : Spine,
    z.draft.nodes.size ≤ place → place < (ts.foldl step z).draft.nodes.size →
      ∃ opening, openedBy? place z.draft ts = some opening ∧
        (opening = .leftParen ∨ opening = .or) ∧
        (ts.foldl step z).draft.occurAt? place
          = some ((z.draft.countedAt place ts).getLast?.getD opening).requirement := by
  induction ts with
  | nil =>
    intro z hge hlt
    exact absurd hlt (Nat.not_lt_of_le hge)
  | cons t ts ih =>
    intro z hge hlt
    rw [List.foldl_cons] at hlt ⊢
    rw [countedAt_cons_of_not (z.not_counts_of_size_le hge t), openedBy?, step_draft]
    by_cases hopens : z.draft.nodes.size = place ∧ z.draft.nodes.size < (z.step t).draft.nodes.size
    · -- the token opens the node, and it is there for all tokens that follow
      obtain ⟨rfl, hnew⟩ := hopens
      rw [if_pos ⟨rfl, hnew⟩]
      rw [← step_draft] at hnew
      obtain ⟨ht, hstep⟩ : (t = .leftParen ∨ t = .or) ∧
          z.draft.step t = z.draft.descend t.requirement := by
        rcases (z.draft.opening_step t).size_nodes_or with hsame | hopen
        · exact absurd hsame (Nat.ne_of_gt hnew)
        · exact hopen
      have hopening : (z.step t).draft.occurAt? z.draft.nodes.size = some t.requirement := by
        rw [← step_draft, hstep]
        exact occurAt?_descend_size z.draft t.requirement
      rw [step_draft] at hnew
      exact ⟨t, rfl, ht, occurAt?_foldl ts _ t hnew hopening⟩
    · rw [if_neg hopens]
      apply ih
      · rcases (z.draft.opening_step t).size_nodes_or with hsame | ⟨-, hstep⟩
        · rw [← step_draft, hsame]
          exact hge
        · -- it opens an earlier node
          rw [← step_draft, hstep, size_nodes_descend] at hopens ⊢
          omega
      · exact hlt

end Spine

/-! ### The root -/

namespace Draft

/-- Whether some `OR` that belongs to the root is read while the root has one term at most, and no
`AND` that belongs to it is read later while it has a term. -/
def OrPrevails (ts : List Token) : Prop :=
  ∃ before after, ts = before ++ Token.or :: after ∧
    (ofTokens before).IsAt 0 ∧ (ofTokens before).termCount ≤ 1 ∧
    ∀ between rest, after = between ++ Token.and :: rest →
      (ofTokens (before ++ Token.or :: between)).IsAt 0 →
        (ofTokens (before ++ Token.or :: between)).termCount = 0

theorem orPrevails_concat_or {ts : List Token} (h : (ofTokens ts).Counts 0 .or) :
    OrPrevails (ts ++ [.or]) := by
  obtain ⟨hat, ⟨-, hcount⟩ | ⟨hne, -⟩⟩ := h
  · refine ⟨ts, [], rfl, hat, hcount rfl, ?_⟩
    intro between rest hnil
    exact absurd hnil.symm (List.append_ne_nil_of_right_ne_nil _ (List.cons_ne_nil _ _))
  · cases hne

theorem not_orPrevails_concat_and {ts : List Token} (h : (ofTokens ts).Counts 0 .and) :
    ¬OrPrevails (ts ++ [.and]) := by
  rintro ⟨before, after, hts, -, -, hlater⟩
  obtain ⟨hat, ⟨hne, -⟩ | ⟨-, hcount⟩⟩ := h
  · cases hne
  rcases List.eq_nil_or_concat after with rfl | ⟨between, t, rfl⟩
  · have hlast := (List.append_inj' hts rfl).2
    cases hlast
  · rw [List.concat_eq_append, ← List.cons_append, ← List.append_assoc] at hts
    obtain ⟨rfl, hlast⟩ := List.append_inj' hts rfl
    cases hlast
    have hnone := hlater between [] (List.concat_eq_append ..) hat
    omega

/-- A token that does not count for the root changes nothing. -/
theorem orPrevails_concat_of_not {ts : List Token} {t : Token} (h : ¬(ofTokens ts).Counts 0 t) :
    OrPrevails (ts ++ [t]) ↔ OrPrevails ts := by
  constructor
  · rintro ⟨before, after, hts, hat, hcount, hlater⟩
    rcases List.eq_nil_or_concat after with rfl | ⟨after, u, rfl⟩
    · obtain ⟨rfl, hlast⟩ := List.append_inj' hts rfl
      cases hlast
      exact absurd ⟨hat, Or.inl ⟨rfl, fun _ => hcount⟩⟩ h
    · rw [List.concat_eq_append, ← List.cons_append, ← List.append_assoc] at hts
      obtain ⟨rfl, hlast⟩ := List.append_inj' hts rfl
      cases hlast
      refine ⟨before, after, rfl, hat, hcount, ?_⟩
      rintro between rest rfl
      apply hlater between (rest ++ [t])
      simp
  · rintro ⟨before, after, rfl, hat, hcount, hlater⟩
    refine ⟨before, after ++ [t], by simp, hat, hcount, ?_⟩
    intro between rest hafter hroot
    rcases List.eq_nil_or_concat rest with rfl | ⟨rest, u, rfl⟩
    · -- the token is an `AND` of the root, so the root has no term
      obtain ⟨rfl, hlast⟩ := List.append_inj' hafter rfl
      cases hlast
      by_contra hne
      exact h ⟨hroot, Or.inr ⟨rfl, Nat.pos_of_ne_zero hne⟩⟩
    · rw [List.concat_eq_append, ← List.cons_append, ← List.append_assoc] at hafter
      exact hlater between rest (List.append_inj' hafter rfl).1 hroot

/-- The root is a `should` node if an `OR` prevails. -/
theorem occurAt?_zero_ofTokens (ts : List Token) :
    (ofTokens ts).occurAt? 0 = some .should ↔ OrPrevails ts := by
  induction ts using List.reverseRecOn with
  | nil =>
    refine iff_of_false ?_ ?_
    · intro hshould
      cases hshould
    · rintro ⟨before, after, hnil, -⟩
      exact absurd hnil.symm (List.append_ne_nil_of_right_ne_nil _ (List.cons_ne_nil _ _))
  | append_singleton ts t ih =>
    have hstep : (ofTokens (ts ++ [t])).occurAt? 0
        = if (ofTokens ts).Counts 0 t then some t.requirement
          else (ofTokens ts).occurAt? 0 := by
      rw [ofTokens_concat, ofTokens_eq, Spine.step_draft]
      have hlt := (ts.foldl Spine.step {}).cursor_lt_size_nodes
      exact Spine.occurAt?_step _ (Nat.zero_lt_of_lt hlt) t
    rw [hstep]
    by_cases hcounts : (ofTokens ts).Counts 0 t
    · rw [if_pos hcounts]
      obtain ⟨-, ⟨rfl, -⟩ | ⟨rfl, -⟩⟩ := id hcounts
      · exact iff_of_true rfl (orPrevails_concat_or hcounts)
      · exact iff_of_false (by simp [Token.requirement]) (not_orPrevails_concat_and hcounts)
    · rw [if_neg hcounts, ih, orPrevails_concat_of_not hcounts]

end Draft

/-! ### Strings -/

/-- The requirement of a node, told from its place in the draft. -/
theorem occurAt?_of_subtrees {s : String} {place : Nat} {sub : Query}
    (h : (parse s).subtrees[place]? = some sub) :
    (Draft.ofTokens (tokenize s)).occurAt? place = some sub.occur := by
  rw [parse_eq_tree] at h
  rw [Draft.ofTokens_eq, Draft.occurAt?, Spine.getElem?_nodes, h]
  rfl

/-- **The requirement of every node of a tree.**  Below the root, it is that of the last keyword
that counts for the node, and if there is none, that of the parenthesis or the `OR` that opened it.
The root is a `should` node if an `OR` was read there, with one term at most, and no `AND` later,
with a term or more. -/
theorem parse_requirements (s : String) :
    (∀ (place : Nat) (sub : Query), 0 < place → (parse s).subtrees[place]? = some sub →
      ∃ opening, Draft.openedBy? place {} (tokenize s) = some opening ∧
        (opening = .leftParen ∨ opening = .or) ∧
        sub.occur
          = ((Draft.countedAt place {} (tokenize s)).getLast?.getD opening).requirement) ∧
      ((parse s).occur = .should ↔ Draft.OrPrevails (tokenize s)) := by
  constructor
  · intro place sub hplace hsub
    have hoccur := occurAt?_of_subtrees hsub
    have hlt : place < ((tokenize s).foldl Spine.step {}).draft.nodes.size := by
      rw [Draft.ofTokens_eq, Draft.occurAt?, Option.map_eq_some_iff] at hoccur
      obtain ⟨node, hnode, -⟩ := hoccur
      exact (Array.getElem?_eq_some_iff.1 hnode).1
    obtain ⟨opening, hopened, hkind, hlast⟩ :=
      Spine.occurAt?_foldl_opened (tokenize s) {} hplace hlt
    rw [← Draft.ofTokens_eq, hoccur] at hlast
    rw [Spine.draft_empty] at hopened hlast
    exact ⟨opening, hopened, hkind, Option.some.inj hlast⟩
  · have hroot : (parse s).subtrees[0]? = some (parse s) := by
      rw [Query.subtrees_eq]
      rfl
    rw [← Draft.occurAt?_zero_ofTokens, occurAt?_of_subtrees hroot, Option.some_inj]

/-- An `AND` decides the node that an `OR` opened, and an `OR` a group below it. -/
theorem parse_requirements_plums :
    (parse "ripe figs OR plums AND (pears OR apples)").subtrees[2]?
        = some ⟨.should, ["pears", "apples"], []⟩ ∧
      ∃ opening,
        Draft.openedBy? 2 {} (tokenize "ripe figs OR plums AND (pears OR apples)") = some opening ∧
        (opening = .leftParen ∨ opening = .or) ∧
        Occur.should = ((Draft.countedAt 2 {}
          (tokenize "ripe figs OR plums AND (pears OR apples)")).getLast?.getD
            opening).requirement := by
  have hsub : (parse "ripe figs OR plums AND (pears OR apples)").subtrees[2]?
      = some ⟨.should, ["pears", "apples"], []⟩ := by
    rw [parse_eq_tree, tokenize_eq]
    decide +kernel
  exact ⟨hsub, (parse_requirements _).1 2 _ (by decide) hsub⟩

end BooleanSearch
