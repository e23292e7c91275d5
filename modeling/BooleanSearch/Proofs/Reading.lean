import BooleanSearch.Parse
import BooleanSearch.Proofs.Spine

/-!
# Reading as a fold over tokens

What a source reads as depends only on its tokens up to the first end of the input: they are
taken into a draft one after the other.  Blanks need no care of their own, as the draft passes them
over like every token without effect.

## Main definitions

* `Scanner.tokens` — the tokens of a source up to the end of the input, as a list.
* `Draft.ofTokens` — the draft that tokens lead to.
* `Draft.splitPlaces` — the places of the nodes that `OR` opens along some tokens.
* `Draft.noticesAlong`, `Draft.reading` — the notices that tokens give rise to, and what they are
  read as.

## Main results

* `readSource_eq` — what a source reads as, and where the source stands then.
* `readString_eq`, `parse_eq_query`, `parse_eq_tree` — what a string reads as.
-/

namespace BooleanSearch

/-! ### The tokens of a source -/

namespace Scanner

variable {σ ε : Type} [CharSource σ ε]

/-- The tokens up to the end of the input. -/
def tokens (s : Scanner σ) : Except ε (List Token) × Scanner σ :=
  match _h : s.scan with
  | (.error e, s') => (.error e, s')
  | (.ok t, s') =>
    if _ht : t = .endOfInput then (.ok [], s')
    else
      let (rest, s'') := tokens s'
      (rest.map (t :: ·), s'')
termination_by s.remaining
decreasing_by exact remaining_scan_lt _h _ht

theorem tokens_of_error {s s' : Scanner σ} {e : ε} (h : s.scan = (.error e, s')) :
    s.tokens = (.error e, s') := by
  rw [tokens]
  split
  · next h' => rw [h] at h'; cases h'; rfl
  · next h' => rw [h] at h'; cases h'

theorem tokens_of_end {s s' : Scanner σ} (h : s.scan = (.ok .endOfInput, s')) :
    s.tokens = (.ok [], s') := by
  rw [tokens]
  split
  · next h' => rw [h] at h'; cases h'
  · next h' => rw [h] at h'; cases h'; rfl

theorem tokens_of_token {s s' : Scanner σ} {t : Token} (h : s.scan = (.ok t, s'))
    (ht : t ≠ .endOfInput) :
    s.tokens = ((s'.tokens).1.map (t :: ·), (s'.tokens).2) := by
  rw [tokens]
  split
  · next h' => rw [h] at h'; cases h'
  · next h' => rw [h] at h'; cases h'; rw [dif_neg ht]

/-- Collecting tokens in an array puts them behind those collected before. -/
theorem scanAll_eq (acc : Array Token) (s : Scanner σ) :
    s.scanAll acc = (s.tokens.1.map (acc ++ ·.toArray), s.tokens.2) := by
  fun_induction scanAll acc s with
  | case1 acc s e s' h => rw [tokens_of_error h]; rfl
  | case2 acc s s' h => rw [tokens_of_end h]; simp [Except.map]
  | case3 acc s t s' h ht ih =>
    rw [ih, tokens_of_token h ht]
    cases s'.tokens.1 <;> simp [Except.map]

end Scanner

/-- A source that cannot fail gives its tokens. -/
private theorem eq_ok_of_empty {α : Type} : (x : Except Empty α) → ∃ a, x = .ok a
  | .ok a => ⟨a, rfl⟩
  | .error e => nomatch e

theorem tokens_ofString (s : String) :
    ({ source := .ofString s } : Scanner (Feed Empty)).tokens.1 = .ok (tokenize s) := by
  obtain ⟨ts, hts⟩ := eq_ok_of_empty ({ source := .ofString s } : Scanner (Feed Empty)).tokens.1
  have h : tokenize s = ts := by
    simp only [tokenize, Scanner.scanAll_eq, hts, Except.map]
    simp
  rw [hts, h]

/-! ### What tokens lead to -/

namespace Draft

/-- The draft that tokens lead to. -/
def ofTokens (ts : List Token) : Draft :=
  ts.foldl step {}

theorem ofTokens_eq (ts : List Token) : ofTokens ts = (ts.foldl Spine.step {}).draft := by
  rw [ofTokens, ← Spine.draft_empty, Spine.foldl_step_draft]

theorem ofTokens_concat (ts : List Token) (t : Token) :
    ofTokens (ts ++ [t]) = (ofTokens ts).step t := by
  rw [ofTokens, List.foldl_append]
  rfl

/-- The place of the node that a token opens for an `OR`, if it does. -/
def splitPlace? (d : Draft) (t : Token) : Option Nat :=
  if t = .or ∧ d.phrase = none ∧ d.splitsAtOr = true then some d.nodes.size else none

/-- The places of the nodes that `OR` opens along some tokens. -/
def splitPlaces (d : Draft) : List Token → List Nat
  | [] => []
  | t :: ts => (d.splitPlace? t).toList ++ (d.step t).splitPlaces ts

theorem splitPlace?_eq_some_iff {d : Draft} {t : Token} {place : Nat} :
    d.splitPlace? t = some place ↔
      t = .or ∧ d.phrase = none ∧ d.splitsAtOr = true ∧ d.nodes.size = place := by
  rw [splitPlace?, Option.ite_none_right_eq_some, Option.some_inj, and_assoc, and_assoc]

theorem splitPlace?_eq_none_iff {d : Draft} {t : Token} :
    d.splitPlace? t = none ↔ (t = .or → d.phrase = none → d.splitsAtOr = false) := by
  simp [splitPlace?]

theorem mem_splitPlaces_cons_iff {d : Draft} {t : Token} {ts : List Token} {place : Nat} :
    place ∈ d.splitPlaces (t :: ts) ↔
      d.splitPlace? t = some place ∨ place ∈ (d.step t).splitPlaces ts := by
  rw [splitPlaces, List.mem_append, Option.mem_toList]

theorem splitPlaces_cons_eq_nil_iff (d : Draft) (t : Token) (ts : List Token) :
    d.splitPlaces (t :: ts) = [] ↔
      (t = .or → d.phrase = none → d.splitsAtOr = false) ∧ (d.step t).splitPlaces ts = [] := by
  rw [splitPlaces, List.append_eq_nil_iff, Option.toList_eq_nil_iff, splitPlace?_eq_none_iff]

end Draft

/-! ### Reading the tokens of a source -/

namespace Draft

/-- The notices that tokens give rise to, in order. -/
def noticesAlong (d : Draft) : List Token → List Notice
  | [] => []
  | t :: ts => (d.notice? t).toList ++ noticesAlong (d.step t) ts

/-- What the tokens up to the end of the input are read as. -/
def reading (d : Draft) (ts : List Token) : Reading where
  query := (ts.foldl step d).query
  notices := (d.noticesAlong ts ++ (ts.foldl step d).closingNotices).toArray

theorem reading_cons (d : Draft) (t : Token) (ts : List Token) :
    d.reading (t :: ts)
      = { (d.step t).reading ts with
          notices := (d.notice? t).toList.toArray ++ ((d.step t).reading ts).notices } := by
  simp [reading, noticesAlong]

theorem step_whitespace (d : Draft) (text : String) : d.step (.whitespace text) = d := by
  rw [step]; split <;> rfl

private theorem append_list {α : Type} (a : Array α) (l : List α) : a ++ l = a ++ l.toArray :=
  Array.ext' (by simp)

variable {σ ε : Type} [CharSource σ ε]

theorem readAll_of_error (d : Draft) (notices : Array Notice) {b b' : TokenBuffer σ} {e : ε}
    (h : b.scan = (.error e, b')) : d.readAll notices b = (.error e, b') := by
  have hs : b.scanSignificant = (.error e, b') := by
    rw [TokenBuffer.scanSignificant]
    split
    · next h' => rw [h] at h'; cases h'
    · exact h
  rw [readAll]
  split
  · next h' => rw [hs] at h'; cases h'; rfl
  · next h' => rw [hs] at h'; cases h'

theorem readAll_of_end (d : Draft) (notices : Array Notice) {b b' : TokenBuffer σ}
    (h : b.scan = (.ok .endOfInput, b')) :
    d.readAll notices b
      = (.ok { query := d.query, notices := notices ++ d.closingNotices }, b') := by
  have hs : b.scanSignificant = (.ok .endOfInput, b') := by
    rw [TokenBuffer.scanSignificant]
    split
    · next h' => rw [h] at h'; cases h'
    · exact h
  rw [readAll]
  split
  · next h' => rw [hs] at h'; cases h'
  · next h' => rw [hs] at h'; cases h'; rfl

/-- Reading looks at a buffer only through its next significant token. -/
theorem readAll_congr (d : Draft) (notices : Array Notice) {b b' : TokenBuffer σ}
    (h : b.scanSignificant = b'.scanSignificant) :
    d.readAll notices b = d.readAll notices b' := by
  rw [readAll, h]
  conv => rhs; rw [readAll]

/-- One token is taken into the draft, blanks included. -/
theorem readAll_of_token (d : Draft) (notices : Array Notice) {b b' : TokenBuffer σ} {t : Token}
    (h : b.scan = (.ok t, b')) (ht : t ≠ .endOfInput) :
    d.readAll notices b = (d.step t).readAll (notices ++ (d.notice? t).toList) b' := by
  by_cases hblank : ∃ text, t = .whitespace text
  · -- a run of blanks is passed over before the draft sees it
    obtain ⟨text, rfl⟩ := hblank
    have hs : b.scanSignificant = b'.scanSignificant := by
      rw [TokenBuffer.scanSignificant]
      split
      · next h' => rw [h] at h'; cases h'; rfl
      · next hne => exact absurd h (hne text b')
    have hnone : d.notice? (.whitespace text) = none := rfl
    have hn : notices ++ (d.notice? (.whitespace text)).toList = notices := by
      rw [hnone]
      apply Array.ext'
      rw [Array.toList_appendList, Option.toList_none, List.append_nil]
    rw [step_whitespace, hn]
    exact readAll_congr d notices hs
  · have hs : b.scanSignificant = (.ok t, b') := by
      rw [TokenBuffer.scanSignificant]
      split
      · next text _ h' => rw [h] at h'; cases h'; exact absurd ⟨text, rfl⟩ hblank
      · exact h
    rw [readAll]
    split
    · next h' => rw [hs] at h'; cases h'
    · next h' => rw [hs] at h'; cases h'; rw [dif_neg ht]

/-- Reading from a scanner takes its tokens into the draft. -/
theorem readAll_eq (d : Draft) (notices : Array Notice) (s : Scanner σ) (last : Option Token) :
    (d.readAll notices { scanner := s, last }).1
        = s.tokens.1.map (fun ts =>
            { d.reading ts with notices := notices ++ (d.reading ts).notices }) ∧
      (d.readAll notices { scanner := s, last }).2.scanner = s.tokens.2 := by
  fun_induction Scanner.tokens s generalizing d notices last with
  | case1 s e s' h =>
    have hb : TokenBuffer.scan { scanner := s, last } = (.error e, { scanner := s', last }) := by
      rw [TokenBuffer.scan]; simp [h]
    rw [readAll_of_error d notices hb]
    exact ⟨rfl, rfl⟩
  | case2 s s' h =>
    have hb : TokenBuffer.scan { scanner := s, last }
        = (.ok .endOfInput, { scanner := s', last := some .endOfInput }) := by
      rw [TokenBuffer.scan]; simp [h]
    rw [readAll_of_end d notices hb, append_list]
    exact ⟨rfl, rfl⟩
  | case3 s t s' h ht rest s'' hrest ih =>
    have hb : TokenBuffer.scan { scanner := s, last }
        = (.ok t, { scanner := s', last := some t }) := by
      rw [TokenBuffer.scan]; simp [h]
    rw [readAll_of_token d notices hb ht]
    -- the notice about the token joins those from before
    obtain ⟨ih₁, ih₂⟩ := ih (d.step t) (notices ++ (d.notice? t).toList) (some t)
    rw [ih₁, ih₂, hrest]
    refine ⟨?_, rfl⟩
    cases rest <;> simp [Except.map, reading_cons, append_list]

end Draft

/-- What a source reads as, and where the source stands then. -/
theorem readSource_eq {σ ε : Type} [CharSource σ ε] (source : σ) :
    readSource source
      = ((Scanner.tokens { source }).1.map (Draft.reading {}),
          (Scanner.tokens { source }).2.source) := by
  obtain ⟨h₁, h₂⟩ := Draft.readAll_eq {} #[] ({ source } : Scanner σ) none
  rw [readSource, TokenBuffer.ofSource]
  refine Prod.ext ?_ (congrArg Scanner.source h₂)
  simpa using h₁

/-- What a string reads as. -/
theorem readString_eq (s : String) : readString s = Draft.reading {} (tokenize s) := by
  simp only [readString, readSource_eq, tokens_ofString, Except.map]

/-- The tree of a string is that of the draft that its tokens make. -/
theorem parse_eq_query (s : String) : parse s = (Draft.ofTokens (tokenize s)).query := by
  rw [parse, readString_eq, Draft.reading, Draft.ofTokens]

/-- The tree of a string is that of the spine that its tokens make. -/
theorem parse_eq_tree (s : String) : parse s = ((tokenize s).foldl Spine.step {}).tree := by
  rw [parse_eq_query, Draft.ofTokens_eq, Spine.query_draft]

end BooleanSearch
