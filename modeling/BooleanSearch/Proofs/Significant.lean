import BooleanSearch.Proofs.Canonical

/-!
# Significant tokens

Words, keywords, quote marks and parentheses are the significant tokens of a string.  The tree of
the string depends on these alone: blanks and characters that mean nothing keep other tokens apart,
and that is all they do.

So a string may be written anew with nothing but its significant tokens, a space between any two of
them.  No token changes by that, as no significant token goes on with a space, and a space makes no
token but a run of blanks.

## Main definitions

* `significant` — the significant tokens of a string.
* `spaced` — tokens written with single spaces between them.
* `normalForm` — a string written anew with its significant tokens only.

## Main results

* `withoutBlanks_lexemes_spaced` — spaced tokens are read as they were written.
* `parse_determined_by_significant` — **the tree depends on the significant tokens only.**
-/

namespace BooleanSearch

/-- The significant tokens of a string. -/
def significant (s : String) : List Token :=
  (tokenize s).filter Token.isSignificant

/-- Tokens written with single spaces between them. -/
def spaced (ts : List Token) : String :=
  " ".intercalate (ts.map Token.text)

/-- A string written anew with its significant tokens only. -/
def normalForm (s : String) : String :=
  spaced (significant s)

/-! ### Spaced tokens -/

theorem spaced_nil : spaced [] = "" := rfl

theorem spaced_singleton (t : Token) : spaced [t] = t.text :=
  String.intercalate_singleton

theorem toList_spaced_cons_cons (t u : Token) (ts : List Token) :
    (spaced (t :: u :: ts)).toList = t.text.toList ++ ' ' :: (spaced (u :: ts)).toList := by
  simp [spaced, String.intercalate_cons_cons]

theorem isWhitespace_of_isSignificant {t : Token} (ht : t.isSignificant = true) :
    t.isWhitespace = false := by
  cases t with
  | whitespace text => cases ht
  | _ => rfl

/-- A space ends every significant token. -/
theorem goesOn_space {t : Token} (ht : t.isSignificant = true) : t.goesOn ' ' = false := by
  have hchar : isWordChar ' ' = false := by decide
  rw [Token.goesOn, isWhitespace_of_isSignificant ht, hchar, Bool.and_false]
  rfl

/-- Spaced tokens are read as they were written. -/
theorem withoutBlanks_lexemes_spaced (ts : List Token) :
    (∀ t ∈ ts, t.IsProper ∧ t.isSignificant = true) →
      withoutBlanks (lexemes (spaced ts).toList) = ts := by
  induction ts with
  | nil =>
    intro _
    rw [spaced_nil, String.toList_empty, lexemes_nil]
    rfl
  | cons t ts ih =>
    intro hts
    obtain ⟨⟨hproper, hsig⟩, hts⟩ := List.forall_mem_cons.1 hts
    have hfirst : withoutBlanks [t] = [t] :=
      withoutBlanks_cons (isWhitespace_of_isSignificant hsig) []
    cases ts with
    | nil => rw [spaced_singleton, lexemes_text hproper, hfirst]
    | cons u ts =>
      have hcut : ∀ v ∈ (lexemes t.text.toList).getLast?,
          ∀ c ∈ (' ' :: (spaced (u :: ts)).toList).head?, v.goesOn c = false := by
        intro v hv c hc
        rw [lexemes_text hproper, List.getLast?_singleton, Option.mem_some_iff] at hv
        rw [List.head?_cons, Option.mem_some_iff] at hc
        rw [← hv, ← hc]
        exact goesOn_space hsig
      rw [toList_spaced_cons_cons, lexemes_append hcut, withoutBlanks_append,
        withoutBlanks_lexemes_cons rfl, ih hts, lexemes_text hproper, hfirst]
      rfl

/-! ### Strings -/

/-- The tokens of a string are proper, and those kept are significant. -/
theorem isProper_of_mem_significant {s : String} {t : Token} (ht : t ∈ significant s) :
    t.IsProper ∧ t.isSignificant = true := by
  obtain ⟨hmem, hsig⟩ := List.mem_filter.1 ht
  rw [tokenize_eq] at hmem
  exact ⟨(isCanonical_lexemes s.toList).proper t hmem, hsig⟩

theorem filter_isSignificant_withoutBlanks (ts : List Token) :
    (withoutBlanks ts).filter Token.isSignificant = ts.filter Token.isSignificant := by
  rw [withoutBlanks, List.filter_filter]
  apply List.filter_congr
  intro t _
  cases hsig : t.isSignificant with
  | false => rfl
  | true => rw [isWhitespace_of_isSignificant hsig]; rfl

/-- Strings with the same significant tokens have the same tree. -/
theorem parse_eq_of_significant_eq {s s' : String} (h : significant s = significant s') :
    parse s = parse s' := by
  calc parse s
      = ((tokenize s).foldl Spine.step {}).tree := parse_eq_tree s
    _ = ((significant s).foldl Spine.step {}).tree := by rw [significant, Spine.foldl_step_filter]
    _ = ((significant s').foldl Spine.step {}).tree := by rw [h]
    _ = ((tokenize s').foldl Spine.step {}).tree := by rw [significant, Spine.foldl_step_filter]
    _ = parse s' := (parse_eq_tree s').symm

/-- Written anew, a string has the same significant tokens. -/
theorem significant_normalForm (s : String) :
    significant (normalForm s) = significant s := by
  have htokens := withoutBlanks_lexemes_spaced (significant s) fun t ht =>
    isProper_of_mem_significant ht
  have hsig : (significant s).filter Token.isSignificant = significant s := by
    rw [significant, List.filter_filter]
    simp only [Bool.and_self]
  calc significant (normalForm s)
      = (lexemes (normalForm s).toList).filter Token.isSignificant := by
        rw [significant, tokenize_eq]
    _ = (significant s).filter Token.isSignificant := by
        rw [← filter_isSignificant_withoutBlanks, normalForm, htokens]
    _ = significant s := hsig

/-- **The tree depends on the significant tokens only.**  A string may be written anew with these
and single spaces between them; that changes neither the tree nor the significant tokens, and
doing it again changes nothing. -/
theorem parse_determined_by_significant :
    (∀ s s' : String, significant s = significant s' → parse s = parse s') ∧
      ∀ s : String, parse (normalForm s) = parse s ∧
        significant (normalForm s) = significant s ∧
        normalForm (normalForm s) = normalForm s := by
  refine ⟨fun s s' h => parse_eq_of_significant_eq h, fun s => ?_⟩
  have hsig := significant_normalForm s
  refine ⟨parse_eq_of_significant_eq hsig, hsig, ?_⟩
  rw [normalForm, hsig, ← normalForm]

/-- Blanks, stray characters and the shape of quote marks make no difference. -/
theorem parse_determined_by_significant_figs :
    significant "  apples#3 (“ figs”)" = significant "apples(\"figs\n\")" ∧
      parse "  apples#3 (“ figs”)" = parse "apples(\"figs\n\")" := by
  have h : significant "  apples#3 (“ figs”)" = significant "apples(\"figs\n\")" := by
    rw [significant, significant, tokenize_eq, tokenize_eq]
    decide +kernel
  exact ⟨h, parse_determined_by_significant.1 _ _ h⟩

end BooleanSearch
