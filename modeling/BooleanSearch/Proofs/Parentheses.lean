import BooleanSearch.Proofs.Conservation

/-!
# Unmatched parentheses

The parentheses of a text that stand outside phrases are matched in the ordinary way: a closing
parenthesis matches the last opening one before it that is not matched yet.  What is unmatched in
the end is either a closing parenthesis that came too early or an opening one that is still open.

A draft does not match parentheses.  It has a path, which `OR` may open a node on as well, at the
root and so below all others.  A closing parenthesis that matches no opening one closes this node if
it is open, and only if it is not, there is a notice.  So the path holds one place for each opening
parenthesis that is still open, and the place of at most one node that `OR` opened.

## Main definitions

* `Unpaired`, `unmatchedOpens`, `unmatchedCloses` — the parentheses that match no other.
* `Draft.Opening` — what a token may do to the open nodes.
* `Unpaired.Describes` — the path of a draft, told from the parentheses.

## Main results

* `Draft.opening_step` — what a token does to the open nodes is one of the cases.
* `Unpaired.Describes.accounts`, `Unpaired.Describes.foldl` — what tokens do to parentheses and
  path.
* `unmatched_notices` — **the notices about parentheses are about those that match no other.**
-/

namespace BooleanSearch

/-! ### Matching parentheses -/

/-- What is unmatched at some point of a text. -/
structure Unpaired where
  /-- The parentheses that are open, and whether a phrase is. -/
  nesting : Nesting := {}
  /-- The number of closing parentheses that match none. -/
  strays : Nat := 0

namespace Unpaired

/-- What is unmatched one character later. -/
def next (u : Unpaired) (c : Char) : Unpaired :=
  match u.nesting.next? c with
  | some nesting => { u with nesting }
  | none => { u with strays := u.strays + 1 }

/-- What is unmatched one token later. -/
def token (u : Unpaired) (t : Token) : Unpaired :=
  match u.nesting.token? t with
  | some nesting => { u with nesting }
  | none => { u with strays := u.strays + 1 }

theorem token_ofMark (u : Unpaired) (c : Char) : u.token (.ofMark c) = u.next c := by
  rw [token, next, Nesting.token?_ofMark]

theorem foldl_filter (u : Unpaired) (ts : List Token) :
    (ts.filter Token.isDelimiter).foldl token u = ts.foldl token u := by
  induction ts generalizing u with
  | nil => rfl
  | cons t ts ih =>
    cases ht : t.isDelimiter with
    | true => rw [List.filter_cons_of_pos ht, List.foldl_cons, List.foldl_cons, ih]
    | false =>
      have hsame : u.token t = u := by rw [token, Nesting.token?_of_not_isDelimiter _ ht]
      rw [List.filter_cons_of_neg (by simp [ht]), List.foldl_cons, hsame, ih]

/-- What is unmatched after the tokens of a text is unmatched after its characters. -/
theorem foldl_lexemes (u : Unpaired) (cs : List Char) :
    (lexemes cs).foldl token u = cs.foldl next u := by
  have hmark : (fun (u : Unpaired) (c : Char) => u.token (.ofMark c)) = next :=
    funext fun u => funext fun c => u.token_ofMark c
  rw [← foldl_filter, filter_isDelimiter_lexemes, foldl_filter, List.foldl_map, hmark]

end Unpaired

/-- What is unmatched in a string. -/
def unpaired (s : String) : Unpaired :=
  s.toList.foldl Unpaired.next {}

/-- The number of opening parentheses outside phrases that match no closing one. -/
def unmatchedOpens (s : String) : Nat :=
  (unpaired s).nesting.depth

/-- The number of closing parentheses outside phrases that match no opening one. -/
def unmatchedCloses (s : String) : Nat :=
  (unpaired s).strays

/-! ### The path of a draft -/

namespace Draft

variable {d : Draft}

@[simp] theorem size_nodes_modifyCurrent (d : Draft) (f : Node → Node) :
    (d.modifyCurrent f).nodes.size = d.nodes.size :=
  Array.size_modify

@[simp] theorem path_modifyCurrent (d : Draft) (f : Node → Node) :
    (d.modifyCurrent f).path = d.path := rfl

@[simp] theorem phrase_modifyCurrent (d : Draft) (f : Node → Node) :
    (d.modifyCurrent f).phrase = d.phrase := rfl

@[simp] theorem size_nodes_descend (d : Draft) (o : Occur) :
    (d.descend o).nodes.size = d.nodes.size + 1 := by
  simp [descend]

@[simp] theorem path_descend (d : Draft) (o : Occur) :
    (d.descend o).path = d.nodes.size :: d.path := rfl

@[simp] theorem phrase_descend (d : Draft) (o : Occur) : (d.descend o).phrase = d.phrase := rfl

/-- Whether two drafts have the same nodes open, one of them with a phrase open or not. -/
structure SameOpen (d d' : Draft) (inPhrase : Bool) : Prop where
  /-- The path is the same. -/
  path : d'.path = d.path
  /-- No node is opened. -/
  size : d'.nodes.size = d.nodes.size
  /-- Whether a phrase is open. -/
  phrase : d'.phrase.isSome = inPhrase

theorem sameOpen_stepInPhrase {words : Array String} (hphrase : d.phrase = some words)
    (t : Token) : d.SameOpen (d.stepInPhrase t) (!(t == .quoteMark)) := by
  cases t with
  | quoteMark => constructor <;> simp [stepInPhrase, toggleQuote, hphrase, pushTerm]
  | _ => constructor <;> simp [stepInPhrase, pushPhraseWord, hphrase]

/-- Outside phrases only parentheses change the path, and an `OR` where it opens a node. -/
theorem sameOpen_stepOutside (hphrase : d.phrase = none) {t : Token} (hleft : t ≠ .leftParen)
    (hright : t ≠ .rightParen) (hor : t = .or → d.splitsAtOr = false) :
    d.SameOpen (d.stepOutside t) (t == .quoteMark) := by
  cases t with
  | leftParen => exact absurd rfl hleft
  | rightParen => exact absurd rfl hright
  | or => constructor <;> simp [stepOutside, applyOr, hor rfl, setOccur, hphrase]
  | _ =>
    constructor <;> simp [stepOutside, toggleQuote, applyAnd, pushTerm, hphrase]

/-- What a token may do to the open nodes of a draft. -/
inductive Opening (d : Draft) : Token → Draft → Prop
  /-- Nothing but a phrase is opened or closed. -/
  | same (t : Token) {d' : Draft} (hsame : d.SameOpen d' (d.phrase.isSome ^^ (t == .quoteMark)))
    (houtside : d.phrase = none → t ≠ .leftParen ∧ t ≠ .rightParen)
    (hsplit : d.splitPlace? t = none) : Opening d t d'
  /-- A parenthesis opens a node. -/
  | group (hphrase : d.phrase = none) : Opening d .leftParen (d.descend .must)
  /-- A parenthesis closes the node under the cursor. -/
  | close (hphrase : d.phrase = none) : Opening d .rightParen d.ascend
  /-- An `OR` opens a node. -/
  | split (hphrase : d.phrase = none) (hsplits : d.splitsAtOr = true) :
    Opening d .or (d.descend .should)

/-- The effect of an `OR` that splits. -/
theorem step_or_of_splitsAtOr (hphrase : d.phrase = none) (hsplits : d.splitsAtOr = true) :
    d.step .or = d.descend .should := by
  rw [step_eq_stepOutside hphrase]
  exact if_pos hsplits

/-- What a token does to the open nodes is one of the cases. -/
theorem opening_step (d : Draft) (t : Token) : d.Opening t (d.step t) := by
  cases hphrase : d.phrase with
  | some words =>
    rw [step_eq_stepInPhrase hphrase]
    refine .same t ?_ ?_ ?_
    · rw [hphrase, Option.isSome_some, Bool.true_xor]
      exact sameOpen_stepInPhrase hphrase t
    · intro hnone
      rw [hphrase] at hnone
      cases hnone
    · simp [splitPlace?, hphrase]
  | none =>
    by_cases hor : t = .or ∧ d.splitsAtOr = true
    · obtain ⟨rfl, hsplits⟩ := hor
      rw [step_or_of_splitsAtOr hphrase hsplits]
      exact .split hphrase hsplits
    rw [step_eq_stepOutside hphrase]
    by_cases hleft : t = .leftParen
    · subst hleft
      exact .group hphrase
    by_cases hright : t = .rightParen
    · subst hright
      exact .close hphrase
    · have hkeeps : t = .or → d.splitsAtOr = false :=
        fun ht => Bool.eq_false_iff.2 fun hsplits => hor ⟨ht, hsplits⟩
      refine .same t ?_ (fun _ => ⟨hleft, hright⟩) ?_
      · rw [hphrase, Option.isSome_none, Bool.false_xor]
        exact sameOpen_stepOutside hphrase hleft hright hkeeps
      · exact splitPlace?_eq_none_iff.2 fun ht _ => hkeeps ht

end Draft

/-! ### The path, told from the parentheses -/

namespace Unpaired

variable {u : Unpaired} {d : Draft} {splits : List Nat} {t : Token}

/-- Inside a phrase parentheses are passed over, and outside all but parentheses and quote marks
are. -/
theorem token_eq_of_outside (h : u.nesting.inPhrase = false → t ≠ .leftParen ∧ t ≠ .rightParen) :
    u.token t = { u with nesting.inPhrase := u.nesting.inPhrase ^^ (t == .quoteMark) } := by
  obtain ⟨⟨depth, inPhrase⟩, strays⟩ := u
  cases inPhrase with
  | true => cases t <;> rfl
  | false =>
    obtain ⟨hleft, hright⟩ := h rfl
    cases t with
    | leftParen => exact absurd rfl hleft
    | rightParen => exact absurd rfl hright
    | _ => rfl

/-- The path of a draft, told from the parentheses so far and from the places `splits` of the nodes
that `OR` opened.  One of these may be open below all groups. -/
structure Describes (u : Unpaired) (splits : List Nat) (d : Draft) : Prop where
  /-- A phrase is open in both. -/
  phrase : d.phrase.isSome = u.nesting.inPhrase
  /-- The path has a place for each open parenthesis, and at its end that of an open split. -/
  path : ∃ (groups : List Nat) (split? : Option Nat), d.path = groups ++ split?.toList ∧
    groups.length = u.nesting.depth ∧ (∀ place ∈ groups, place ∉ splits) ∧
      ∀ place ∈ split?, place ∈ splits
  /-- The splits are among the nodes. -/
  lt_size : ∀ place ∈ splits, place < d.nodes.size
  /-- Each split has a place of its own. -/
  nodup : splits.Nodup

end Unpaired

/-- The number of nodes of which the path of a draft holds the place no more. -/
def Draft.countLeft (d : Draft) (places : List Nat) : Nat :=
  places.countP (· ∉ d.path)

/-- What a token does to parentheses and path: of the closing parentheses that match none, each
gives rise to a notice or closes a split. -/
structure Unpaired.Accounts (u : Unpaired) (splits : List Nat) (d : Draft) (t : Token) : Prop where
  /-- The path is described again. -/
  describes : (u.token t).Describes (splits ++ (d.splitPlace? t).toList) (d.step t)
  /-- Nothing is noticed twice or closed unnoticed. -/
  strays : (d.notice? t).toList.count .unmatchedClose +
      (d.step t).countLeft (splits ++ (d.splitPlace? t).toList) + u.strays
    = d.countLeft splits + (u.token t).strays

namespace Unpaired.Describes

variable {u : Unpaired} {d d' : Draft} {splits : List Nat} {t : Token}

/-- Nothing is opened or closed but a phrase. -/
theorem of_sameOpen (h : u.Describes splits d) {inPhrase : Bool}
    (hsame : d.SameOpen d' inPhrase) :
    Describes { u with nesting.inPhrase := inPhrase } splits d' where
  phrase := hsame.phrase
  path := by
    rw [hsame.path]
    exact h.path
  lt_size := by
    rw [hsame.size]
    exact h.lt_size
  nodup := h.nodup

/-- An opening parenthesis. -/
theorem descend (h : u.Describes splits d) (o : Occur) :
    Describes { u with nesting.depth := u.nesting.depth + 1 } splits (d.descend o) where
  phrase := h.phrase
  path := by
    obtain ⟨groups, split?, hpath, hdepth, hgroups, hsplit⟩ := h.path
    refine ⟨d.nodes.size :: groups, split?, ?_, ?_, ?_, hsplit⟩
    · rw [Draft.path_descend, hpath, List.cons_append]
    · rw [List.length_cons, hdepth]
    · -- the new place is behind those of all nodes so far
      refine List.forall_mem_cons.2 ⟨fun hmem => ?_, hgroups⟩
      exact Nat.lt_irrefl _ (h.lt_size _ hmem)
  lt_size := by
    intro place hplace
    rw [Draft.size_nodes_descend]
    exact Nat.lt_succ_of_lt (h.lt_size place hplace)
  nodup := h.nodup

/-- An `OR` that opens a node, which is only at the root. -/
theorem split (h : u.Describes splits d) (hroot : d.path = []) (o : Occur) :
    u.Describes (splits ++ [d.nodes.size]) (d.descend o) where
  phrase := h.phrase
  path := by
    obtain ⟨groups, split?, hpath, hdepth, -, -⟩ := h.path
    rw [hroot, eq_comm, List.append_eq_nil_iff] at hpath
    refine ⟨[], some d.nodes.size, ?_, ?_, List.forall_mem_nil _, ?_⟩
    · rw [Draft.path_descend, hroot]
      rfl
    · rw [← hdepth, hpath.1]
    · intro place hplace
      rw [← Option.mem_some_iff.1 hplace]
      exact List.mem_append_right _ (List.mem_singleton_self _)
  lt_size := by
    intro place hplace
    rw [Draft.size_nodes_descend]
    rcases List.mem_append.1 hplace with hmem | hmem
    · exact Nat.lt_succ_of_lt (h.lt_size place hmem)
    · rw [List.mem_singleton.1 hmem]
      exact Nat.lt_succ_self _
  nodup := by
    rw [List.nodup_append_comm, List.singleton_append, List.nodup_cons]
    exact ⟨fun hmem => Nat.lt_irrefl _ (h.lt_size _ hmem), h.nodup⟩

/-! ### Counting -/

theorem countLeft_of_path_eq {places : List Nat} (h : d'.path = d.path) :
    d'.countLeft places = d.countLeft places := by
  rw [Draft.countLeft, Draft.countLeft, h]

/-- The path has left a node no more or less for a place that is not the one of the node. -/
theorem countLeft_of_path_cons {places : List Nat} {place : Nat} (hpath : d'.path = place :: d.path)
    (hplace : place ∉ places) : d'.countLeft places = d.countLeft places := by
  rw [Draft.countLeft, Draft.countLeft, hpath]
  refine List.countP_congr fun other hother => ?_
  have hne : other ≠ place := by
    rintro rfl
    exact hplace hother
  simp [hne]

/-- Once the last node is left, the path has left one node more. -/
theorem countLeft_of_path_nil {places : List Nat} {place : Nat} (hpath : d.path = [place])
    (hpath' : d'.path = []) (hplace : place ∈ places) (hnodup : places.Nodup) :
    d'.countLeft places = d.countLeft places + 1 := by
  have hone := List.count_eq_one_of_mem hnodup hplace
  have hall : places.countP (· ∉ ([] : List Nat)) = places.length := by simp
  rw [Draft.countLeft, Draft.countLeft, hpath, hpath', hall,
    List.length_eq_countP_add_countP (· == place), ← List.count, hone, Nat.add_comm]
  refine congrArg (· + 1) (List.countP_congr fun other _ => ?_)
  simp

/-- A split is open when it is new. -/
theorem countLeft_split (h : u.Describes splits d) (o : Occur) :
    (d.descend o).countLeft (splits ++ [d.nodes.size]) = d.countLeft splits := by
  have hnew : d.nodes.size ∉ splits := fun hmem => Nat.lt_irrefl _ (h.lt_size _ hmem)
  have hpath : (d.descend o).path = d.nodes.size :: d.path := Draft.path_descend d o
  have hself : (d.descend o).countLeft [d.nodes.size] = 0 := by
    simp [Draft.countLeft]
  rw [← countLeft_of_path_cons hpath hnew, Draft.countLeft, List.countP_append]
  exact congrArg (_ + ·) hself

/-! ### Steps -/

/-- A token that opens and closes no node. -/
theorem accounts_of_sameOpen (h : u.Describes splits d)
    (hsame : d.SameOpen (d.step t) (d.phrase.isSome ^^ (t == .quoteMark)))
    (houtside : d.phrase = none → t ≠ .leftParen ∧ t ≠ .rightParen)
    (hsplit : d.splitPlace? t = none) : u.Accounts splits d t := by
  have htoken : u.token t
      = { u with nesting.inPhrase := d.phrase.isSome ^^ (t == .quoteMark) } := by
    rw [h.phrase]
    refine token_eq_of_outside fun hout => houtside ?_
    rwa [← h.phrase, Option.isSome_eq_false_iff, Option.isNone_iff_eq_none] at hout
  have hcount : (d.notice? t).toList.count .unmatchedClose = 0 := by
    rw [List.count_eq_zero, Option.mem_toList]
    cases t with
    | rightParen =>
      have hphrase : d.phrase ≠ none := fun hnone => (houtside hnone).2 rfl
      simp [Draft.notice?_rightParen, hphrase]
    | _ => exact fun hsome => by cases hsome
  constructor <;> rw [hsplit, Option.toList_none, List.append_nil, htoken]
  · exact h.of_sameOpen hsame
  · rw [hcount, Nat.zero_add, countLeft_of_path_eq hsame.path]

/-- A closing parenthesis closes the innermost group, or else the split, and if neither is open
there is a notice. -/
theorem accounts_rightParen (h : u.Describes splits d) (hphrase : d.phrase = none) :
    u.Accounts splits d .rightParen := by
  obtain ⟨⟨depth, inPhrase⟩, strays⟩ := u
  obtain ⟨hinPhrase, ⟨groups, split?, hpath, hdepth, hgroups, hsplit⟩, hlt, hnodup⟩ := h
  obtain rfl : false = inPhrase := by
    rw [hphrase] at hinPhrase
    exact hinPhrase
  have hstep : d.step .rightParen = d.ascend := Draft.step_eq_stepOutside hphrase .rightParen
  have hascend : d.ascend.path = d.path.tail := rfl
  have hnotice : d.notice? .rightParen = if d.path.isEmpty then some .unmatchedClose else none := by
    rw [Draft.notice?_rightParen, hphrase]
    rfl
  have hplace : splits ++ (d.splitPlace? .rightParen).toList = splits := by
    simp [Draft.splitPlace?]
  cases groups with
  | nil =>
    obtain rfl : 0 = depth := hdepth
    have htoken : token ⟨⟨0, false⟩, strays⟩ .rightParen = ⟨⟨0, false⟩, strays + 1⟩ := rfl
    have hroot : d.ascend.path = [] := by
      rw [hascend, hpath]
      cases split? <;> rfl
    constructor <;> rw [hplace, hstep, htoken]
    · exact ⟨hinPhrase, ⟨[], none, hroot, rfl, hgroups, fun _ hmem => by cases hmem⟩, hlt, hnodup⟩
    · rw [hnotice, hpath]
      cases split? with
      | none =>
        rw [countLeft_of_path_eq (hroot.trans hpath.symm)]
        show 1 + d.countLeft splits + strays = d.countLeft splits + (strays + 1)
        omega
      | some place =>
        rw [countLeft_of_path_nil hpath hroot (hsplit place rfl) hnodup]
        show 0 + (d.countLeft splits + 1) + strays = d.countLeft splits + (strays + 1)
        omega
  | cons place groups =>
    obtain rfl : groups.length + 1 = depth := hdepth
    obtain ⟨hnew, hgroups⟩ := List.forall_mem_cons.1 hgroups
    have htoken : token ⟨⟨groups.length + 1, false⟩, strays⟩ .rightParen
        = ⟨⟨groups.length, false⟩, strays⟩ := rfl
    have hpath' : d.ascend.path = groups ++ split?.toList := by
      rw [hascend, hpath]
      rfl
    constructor <;> rw [hplace, hstep, htoken]
    · exact ⟨hinPhrase, ⟨groups, split?, hpath', rfl, hgroups, hsplit⟩, hlt, hnodup⟩
    · have hcons : d.path = place :: d.ascend.path := by rw [hpath', hpath, List.cons_append]
      rw [hnotice, hpath, countLeft_of_path_cons hcons hnew]
      show 0 + d.ascend.countLeft splits + strays = d.ascend.countLeft splits + strays
      rw [Nat.zero_add]

theorem accounts_leftParen (h : u.Describes splits d) (hphrase : d.phrase = none) :
    u.Accounts splits d .leftParen := by
  have hout : u.nesting.inPhrase = false := by
    rw [← h.phrase, hphrase]
    rfl
  have hstep : d.step .leftParen = d.descend .must := Draft.step_eq_stepOutside hphrase .leftParen
  have htoken : u.token .leftParen = { u with nesting.depth := u.nesting.depth + 1 } := by
    simp [token, Nesting.token?, hout]
  have hplace : splits ++ (d.splitPlace? .leftParen).toList = splits := by
    simp [Draft.splitPlace?]
  have hnew : d.nodes.size ∉ splits := fun hmem => Nat.lt_irrefl _ (h.lt_size _ hmem)
  constructor <;> rw [hplace, hstep, htoken]
  · exact h.descend .must
  · rw [countLeft_of_path_cons (Draft.path_descend d .must) hnew]
    show 0 + d.countLeft splits + u.strays = d.countLeft splits + u.strays
    rw [Nat.zero_add]

/-- An `OR` that opens a node. -/
theorem accounts_or (h : u.Describes splits d) (hphrase : d.phrase = none)
    (hsplits : d.splitsAtOr = true) : u.Accounts splits d .or := by
  have hroot : d.path = [] := by
    rw [Draft.splitsAtOr, Bool.and_eq_true] at hsplits
    exact List.isEmpty_iff.1 hsplits.1
  have hstep : d.step .or = d.descend .should := Draft.step_or_of_splitsAtOr hphrase hsplits
  have hplace : (d.splitPlace? .or).toList = [d.nodes.size] := by
    simp [Draft.splitPlace?, hphrase, hsplits]
  have htoken : u.token .or = u := rfl
  constructor <;> rw [hplace, hstep, htoken]
  · exact h.split hroot .should
  · rw [h.countLeft_split]
    show 0 + d.countLeft splits + u.strays = d.countLeft splits + u.strays
    rw [Nat.zero_add]

/-- What a token does to parentheses and path. -/
theorem accounts (h : u.Describes splits d) (t : Token) : u.Accounts splits d t := by
  have hopening := d.opening_step t
  generalize hstep : d.step t = d' at hopening
  cases hopening with
  | same t hsame houtside hsplit =>
    rw [← hstep] at hsame
    exact h.accounts_of_sameOpen hsame houtside hsplit
  | group hphrase => exact h.accounts_leftParen hphrase
  | close hphrase => exact h.accounts_rightParen hphrase
  | split hphrase hsplits => exact h.accounts_or hphrase hsplits

/-- What tokens do to parentheses and path. -/
theorem foldl (ts : List Token) : ∀ (u : Unpaired) (splits : List Nat) (d : Draft),
    u.Describes splits d →
      (ts.foldl token u).Describes (splits ++ d.splitPlaces ts) (ts.foldl Draft.step d) ∧
        (d.noticesAlong ts).count .unmatchedClose +
            (ts.foldl Draft.step d).countLeft (splits ++ d.splitPlaces ts) + u.strays
          = d.countLeft splits + (ts.foldl token u).strays := by
  induction ts with
  | nil =>
    intro u splits d h
    rw [Draft.splitPlaces, List.append_nil, Draft.noticesAlong, List.count_nil, Nat.zero_add]
    exact ⟨h, rfl⟩
  | cons t ts ih =>
    intro u splits d h
    obtain ⟨hstep, hstrays⟩ := h.accounts t
    obtain ⟨hrun, hrest⟩ := ih _ _ _ hstep
    rw [List.append_assoc] at hrun hrest
    rw [Draft.splitPlaces, Draft.noticesAlong, List.count_append]
    refine ⟨hrun, ?_⟩
    rw [List.foldl_cons, List.foldl_cons]
    omega

end Unpaired.Describes

/-- Nothing is open at the beginning. -/
theorem Unpaired.describes_empty : Unpaired.Describes {} [] {} where
  phrase := rfl
  path := ⟨[], none, rfl, rfl, List.forall_mem_nil _, fun _ hmem => by cases hmem⟩
  lt_size := List.forall_mem_nil _
  nodup := List.nodup_nil

/-! ### Notices -/

/-- The number of groups that a notice is about. -/
def Notice.openGroups? : Notice → Option Nat
  | .openGroups count => some count
  | _ => none

/-- The groups that are still open, if there are any. -/
theorem openGroups?_notices (s : String) :
    (readString s).notices.toList.filterMap Notice.openGroups?
      = if (Draft.ofTokens (tokenize s)).path.isEmpty then []
        else [(Draft.ofTokens (tokenize s)).path.length] := by
  have hphrase (d : Draft) : (d.phrase.map fun words =>
      Notice.openPhrase words.toList).toList.filterMap Notice.openGroups? = [] := by
    cases d.phrase <;> rfl
  rw [readString_eq, Draft.reading, List.filterMap_append,
    Draft.filterMap_noticesAlong_eq_nil (fun _ => rfl) rfl, List.nil_append,
    Draft.closingNotices, List.filterMap_append, hphrase, List.nil_append, Draft.ofTokens]
  split <;> rfl

/-- **The notices about parentheses are about those that match no other.**  A closing parenthesis
that matches none goes unnoticed if it closes a node that `OR` opened.  If an opening parenthesis is
unmatched, there is one notice about open groups, and unless a node that `OR` opened is open to the
end, there is none in any other case, and it gives the number of these parentheses. -/
theorem unmatched_notices (s : String) :
    (readString s).notices.toList.count .unmatchedClose +
          (Draft.ofTokens (tokenize s)).countLeft (Draft.splitPlaces {} (tokenize s))
        = unmatchedCloses s ∧
      (0 < unmatchedOpens s →
        ∃ count, (readString s).notices.toList.filterMap Notice.openGroups? = [count]) ∧
      ((∀ place ∈ Draft.splitPlaces {} (tokenize s),
          place ∉ (Draft.ofTokens (tokenize s)).path) →
        (readString s).notices.toList.filterMap Notice.openGroups?
          = if unmatchedOpens s = 0 then [] else [unmatchedOpens s]) := by
  have hunpaired : (tokenize s).foldl Unpaired.token {} = unpaired s := by
    rw [tokenize_eq, Unpaired.foldl_lexemes, unpaired]
  obtain ⟨hdescribes, hstrays⟩ := Unpaired.describes_empty.foldl (tokenize s)
  rw [hunpaired, List.nil_append] at hdescribes hstrays
  obtain ⟨groups, split?, hpath, hdepth, -, hsplit⟩ := hdescribes.path
  have hlength : (Draft.ofTokens (tokenize s)).path.length
      = unmatchedOpens s + split?.toList.length := by
    rw [Draft.ofTokens, hpath, List.length_append, hdepth, unmatchedOpens]
  refine ⟨?_, ?_, ?_⟩
  · -- no notice about a closing parenthesis is given at the end
    have hclosing : (Draft.ofTokens (tokenize s)).closingNotices.count .unmatchedClose = 0 := by
      rw [List.count_eq_zero, Draft.closingNotices, List.mem_append]
      rintro (hmem | hmem)
      · simp at hmem
      · split at hmem <;> simp at hmem
    have hnone : ({} : Draft).countLeft [] = 0 := rfl
    rw [hnone, Nat.zero_add] at hstrays
    rw [readString_eq, Draft.reading, List.count_append, ← Draft.ofTokens, hclosing]
    exact hstrays
  · intro hopen
    rw [openGroups?_notices, if_neg]
    · exact ⟨_, rfl⟩
    · rw [List.isEmpty_iff_length_eq_zero, hlength]
      omega
  · intro hleft
    have hnone : split? = none := by
      cases split? with
      | none => rfl
      | some place =>
        refine absurd ?_ (hleft place (hsplit place rfl))
        rw [Draft.ofTokens, hpath]
        exact List.mem_append_right _ (List.mem_singleton_self place)
    rw [hnone, Option.toList_none, List.length_nil, Nat.add_zero] at hlength
    simp only [openGroups?_notices, List.isEmpty_iff_length_eq_zero, hlength]

/-- The closing parenthesis closes the node of the `OR`, and is not unmatched to the draft. -/
theorem closing_split_goes_unnoticed :
    ¬((readString "a b OR c) d").notices.toList.count .unmatchedClose
          = unmatchedCloses "a b OR c) d" ∧
        (readString "a b OR c) d").notices.toList.filterMap Notice.openGroups?
          = if unmatchedOpens "a b OR c) d" = 0 then [] else [unmatchedOpens "a b OR c) d"]) := by
  rw [readString_eq, tokenize_eq]
  decide +kernel

/-- A node that `OR` opened and a parenthesis closed, and two groups that stay open behind it. -/
theorem unmatched_notices_figs :
    (readString "ripe figs OR plums) (pears \"(\" ((apples)").notices.toList.count .unmatchedClose +
          (Draft.ofTokens (tokenize "ripe figs OR plums) (pears \"(\" ((apples)")).countLeft
            (Draft.splitPlaces {} (tokenize "ripe figs OR plums) (pears \"(\" ((apples)"))
        = 1 ∧
      (∃ count, (readString "ripe figs OR plums) (pears \"(\" ((apples)").notices.toList.filterMap
        Notice.openGroups? = [count]) ∧
      (readString "ripe figs OR plums) (pears \"(\" ((apples)").notices.toList.filterMap
        Notice.openGroups? = [2] := by
  have hcloses : unmatchedCloses "ripe figs OR plums) (pears \"(\" ((apples)" = 1 := by
    decide +kernel
  have hopens : unmatchedOpens "ripe figs OR plums) (pears \"(\" ((apples)" = 2 := by
    decide +kernel
  have hleft : ∀ place ∈ Draft.splitPlaces {}
      (tokenize "ripe figs OR plums) (pears \"(\" ((apples)"),
      place ∉ (Draft.ofTokens (tokenize "ripe figs OR plums) (pears \"(\" ((apples)")).path := by
    rw [tokenize_eq]
    decide +kernel
  obtain ⟨hstrays, hopen, hgroups⟩ :=
    unmatched_notices "ripe figs OR plums) (pears \"(\" ((apples)"
  refine ⟨hstrays.trans hcloses, hopen ?_, ?_⟩
  · rw [hopens]
    decide
  · rw [hgroups hleft, hopens]
    rfl

end BooleanSearch
