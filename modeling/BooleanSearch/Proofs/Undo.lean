import Mathlib.Data.Nat.Find
import BooleanSearch.Proofs.Sessions
import BooleanSearch.Reader
import BooleanSearch.Token.Buffer

/-!
# One step back

A token buffer is a scanner whose last token can be put back.  It keeps up to three things apart
from the source: the character that stopped the last run, the token that was scanned last, and the
token that was put back.  To its user it is a cursor on the tokens that the scanner gives, which can
be moved back by one place, and not by a second one.

A source that never fails has an answer to every call, so the tokens of its scanner form an endless
tape.  From some place on they are ends of the input, as a source runs out of characters.  So
skipping runs of blanks comes to a token at last.

## Main definitions

* `BufferCall`, `TokenBuffer.session` — the calls, and the answers of a buffer to some calls.
* `Tape`, `Tape.significant` — an endless sequence of tokens, and the next one that is not blank.
* `Cursor`, `Cursor.visits` — a place on a tape, and the places that some calls visit.
* `standing` — the visits that are not taken back.
* `TokenBuffer.Stands` — a buffer stands where a cursor does.

## Main results

* `TokenBuffer.Stands.call` — a call leaves a buffer where it leaves the cursor.
* `Tape.covers_visits` — every place that is passed is visited once or blank.
* `tokenBuffer_cursor` — **a token buffer is a cursor with one step of undo.**
-/

namespace BooleanSearch

variable {σ ε : Type}

/-! ### Calls -/

/-- What a token buffer may be asked for. -/
inductive BufferCall
  /-- The next token. -/
  | scan
  /-- The next token that is not a run of blanks. -/
  | scanSignificant
  /-- One step back. -/
  | unscan
  deriving DecidableEq, Repr

namespace TokenBuffer

variable [CharSource σ ε]

/-- The answer to a call, if there is one, and the buffer afterwards. -/
def call (b : TokenBuffer σ) : BufferCall → Option (Except ε Token) × TokenBuffer σ
  | .scan => (some b.scan.1, b.scan.2)
  | .scanSignificant => (some b.scanSignificant.1, b.scanSignificant.2)
  | .unscan => (none, b.unscan)

/-- The answers to some calls, one after the other. -/
def session (b : TokenBuffer σ) : List BufferCall → List (Option (Except ε Token))
  | [] => []
  | c :: calls => (b.call c).1 :: (b.call c).2.session calls

end TokenBuffer

/-! ### Tapes -/

/-- An endless sequence of tokens, among which there is always another one that is not blank. -/
structure Tape where
  /-- The tokens. -/
  token : Nat → Token
  /-- From every place on there is a token that is no run of blanks. -/
  exists_significant (n : Nat) : ∃ m, n ≤ m ∧ (token m).isWhitespace = false

namespace Tape

variable (tape : Tape) {n m : Nat}

/-- The first place from `n` on whose token is not a run of blanks. -/
def significant (n : Nat) : Nat :=
  Nat.find (tape.exists_significant n)

theorem le_significant (n : Nat) : n ≤ tape.significant n :=
  (Nat.find_spec (tape.exists_significant n)).1

theorem isWhitespace_significant (n : Nat) :
    (tape.token (tape.significant n)).isWhitespace = false :=
  (Nat.find_spec (tape.exists_significant n)).2

theorem isWhitespace_of_lt_significant (hle : n ≤ m) (hlt : m < tape.significant n) :
    (tape.token m).isWhitespace = true := by
  have hmin := Nat.find_min (tape.exists_significant n) hlt
  exact eq_true_of_ne_false fun hm => hmin ⟨hle, hm⟩

theorem significant_of_not_blank (h : (tape.token n).isWhitespace = false) :
    tape.significant n = n :=
  Nat.le_antisymm (Nat.find_min' _ ⟨Nat.le_refl n, h⟩) (tape.le_significant n)

/-- Blanks are skipped. -/
theorem significant_of_blank (h : (tape.token n).isWhitespace = true) :
    tape.significant n = tape.significant (n + 1) := by
  have hne : tape.significant n ≠ n := by
    intro heq
    have hblank := tape.isWhitespace_significant n
    rw [heq, h] at hblank
    cases hblank
  apply Nat.le_antisymm
  · apply Nat.find_min'
    exact ⟨Nat.le_of_succ_le (tape.le_significant (n + 1)), tape.isWhitespace_significant (n + 1)⟩
  · apply Nat.find_min'
    exact ⟨Nat.lt_of_le_of_ne (tape.le_significant n) hne.symm, tape.isWhitespace_significant n⟩

end Tape

/-! ### Cursors -/

/-- A place on a tape. -/
structure Cursor where
  /-- The number of the next token. -/
  position : Nat := 0
  /-- Whether a step back can be taken. -/
  back : Bool := false
  deriving DecidableEq, Repr

namespace Cursor

variable (tape : Tape)

/-- The place that a call visits, if there is one, and the cursor afterwards. -/
def visit (c : Cursor) : BufferCall → Option Nat × Cursor
  | .scan => (some c.position, { position := c.position + 1, back := true })
  | .scanSignificant =>
    let place := tape.significant c.position
    (some place, { position := place + 1, back := true })
  | .unscan => (none, if c.back then { position := c.position - 1, back := false } else c)

/-- The places that some calls visit, one after the other. -/
def visits (c : Cursor) : List BufferCall → List (Option Nat)
  | [] => []
  | call :: calls => (c.visit tape call).1 :: (c.visit tape call).2.visits calls

/-- The cursor after some calls. -/
def moved (c : Cursor) (calls : List BufferCall) : Cursor :=
  calls.foldl (fun c call => (c.visit tape call).2) c

end Cursor

/-- Those of some answers that are not taken back, if the answer before them was `last`.  A step
back takes back the answer right before it. -/
def standing {α : Type} (last : Option α) : List (Option α) → List α
  | [] => last.toList
  | none :: answers => standing none answers
  | some a :: answers => last.toList ++ standing (some a) answers

/-- From `n` to `m` some places are visited, each once and in order, and all others are blank. -/
structure Tape.Covers (tape : Tape) (n m : Nat) (places : List Nat) : Prop where
  /-- The way goes forward. -/
  le : n ≤ m
  /-- The places are on the way. -/
  inside : ∀ place ∈ places, n ≤ place ∧ place < m
  /-- Every place is behind the one visited before. -/
  ascending : places.Pairwise (· < ·)
  /-- The other places are blank. -/
  skipped : ∀ place, n ≤ place → place < m → place ∉ places →
    (tape.token place).isWhitespace = true

namespace Tape

variable {tape : Tape} {n m : Nat} {places : List Nat}

theorem Covers.nil (n : Nat) : tape.Covers n n [] where
  le := Nat.le_refl n
  inside := List.forall_mem_nil _
  ascending := .nil
  skipped _ hle hlt _ := absurd hle (Nat.not_le_of_lt hlt)

theorem Covers.cons (h : tape.Covers (n + 1) m places) : tape.Covers n m (n :: places) where
  le := Nat.le_of_succ_le h.le
  inside place hmem := by
    rcases List.mem_cons.1 hmem with rfl | hmem
    · exact ⟨Nat.le_refl _, h.le⟩
    · have hinside := h.inside place hmem
      exact ⟨Nat.le_of_succ_le hinside.1, hinside.2⟩
  ascending := List.pairwise_cons.2 ⟨fun place hmem => (h.inside place hmem).1, h.ascending⟩
  skipped place hle hlt hmem := by
    rw [List.mem_cons, not_or] at hmem
    exact h.skipped place (Nat.lt_of_le_of_ne hle (Ne.symm hmem.1)) hlt hmem.2

/-- Blanks may be passed. -/
theorem Covers.skip (h : tape.Covers (tape.significant n) m places) : tape.Covers n m places where
  le := Nat.le_trans (tape.le_significant n) h.le
  inside place hmem :=
    ⟨Nat.le_trans (tape.le_significant n) (h.inside place hmem).1, (h.inside place hmem).2⟩
  ascending := h.ascending
  skipped place hle hlt hmem := by
    by_cases hplace : place < tape.significant n
    · exact tape.isWhitespace_of_lt_significant hle hplace
    · exact h.skipped place (Nat.le_of_not_lt hplace) hlt hmem

/-- Whatever the calls, what is passed in the end is covered by the visits that stand.  A cursor
that can go back has just been at the place before it, and that visit may still be taken back. -/
theorem covers_visits (calls : List BufferCall) :
    ∀ n, tape.Covers n (Cursor.moved tape { position := n } calls).position
        (standing none (Cursor.visits tape { position := n } calls)) ∧
      tape.Covers n (Cursor.moved tape { position := n + 1, back := true } calls).position
        (standing (some n) (Cursor.visits tape { position := n + 1, back := true } calls)) := by
  induction calls with
  | nil => exact fun n => ⟨.nil n, (Covers.nil (n + 1)).cons⟩
  | cons call calls ih =>
    intro n
    cases call with
    | scan => exact ⟨(ih n).2, (ih (n + 1)).2.cons⟩
    | scanSignificant => exact ⟨(ih _).2.skip, (ih _).2.skip.cons⟩
    | unscan => exact ⟨(ih n).1, (ih n).1⟩

end Tape

/-! ### A buffer stands where a cursor does -/

namespace TokenBuffer

variable [CharSource σ ε]

/-- A buffer stands where a cursor on its tape does, if `s` is its scanner at the beginning. -/
inductive Stands (tape : Tape) (s : Scanner σ) : TokenBuffer σ → Cursor → Prop
  /-- Nothing was asked for yet. -/
  | fresh : Stands tape s { scanner := s } {}
  /-- The last token can be put back. -/
  | taken (n : Nat) : Stands tape s { scanner := s.after (n + 1), last := some (tape.token n) }
      { position := n + 1, back := true }
  /-- The last token was put back. -/
  | putBack (n : Nat) : Stands tape s { scanner := s.after (n + 1), pending := some (tape.token n) }
      { position := n }

variable {tape : Tape} {s : Scanner σ} {b : TokenBuffer σ} {c : Cursor}
  (htape : ∀ n, (s.after n).scan.1 = .ok (tape.token n))

include htape

theorem scan_of_pending_eq_none (n : Nat) (last : Option Token) :
    ({ scanner := s.after n, last } : TokenBuffer σ).scan =
      (.ok (tape.token n), { scanner := s.after (n + 1), last := some (tape.token n) }) := by
  have hscan : (s.after n).scan = (.ok (tape.token n), s.after (n + 1)) := Prod.ext (htape n) rfl
  rw [scan, hscan]

/-- The next token is the one at the cursor. -/
theorem Stands.scan (h : Stands tape s b c) :
    b.scan.1 = .ok (tape.token c.position) ∧
      Stands tape s b.scan.2 { position := c.position + 1, back := true } := by
  cases h with
  | fresh =>
    have hscan := scan_of_pending_eq_none htape 0 none
    rw [Scanner.after] at hscan
    rw [hscan]
    exact ⟨rfl, .taken 0⟩
  | taken n =>
    rw [scan_of_pending_eq_none htape]
    exact ⟨rfl, .taken (n + 1)⟩
  | putBack n => exact ⟨rfl, .taken n⟩

/-- The next token that is not blank is the first one from the cursor on. -/
theorem Stands.scanSignificant (h : Stands tape s b c) :
    b.scanSignificant.1 = .ok (tape.token (tape.significant c.position)) ∧
      Stands tape s b.scanSignificant.2
        { position := tape.significant c.position + 1, back := true } := by
  fun_induction TokenBuffer.scanSignificant b generalizing c with
  | case1 b text b' hscan ih =>
    obtain ⟨htoken, hstands⟩ := h.scan htape
    rw [hscan] at htoken hstands
    have hblank : (tape.token c.position).isWhitespace = true := by
      rw [← Except.ok.inj htoken]
      rfl
    rw [tape.significant_of_blank hblank]
    exact ih hstands
  | case2 b hne =>
    obtain ⟨htoken, hstands⟩ := h.scan htape
    have hblank : (tape.token c.position).isWhitespace = false := by
      cases ht : tape.token c.position with
      | whitespace text =>
        rw [ht] at htoken
        exact (hne text b.scan.2 (Prod.ext htoken rfl)).elim
      | _ => rfl
    rw [tape.significant_of_not_blank hblank]
    exact ⟨htoken, hstands⟩

/-- A call leaves a buffer where it leaves the cursor. -/
theorem Stands.call (h : Stands tape s b c) (call : BufferCall) :
    (b.call call).1 = (c.visit tape call).1.map (fun n => .ok (tape.token n)) ∧
      Stands tape s (b.call call).2 (c.visit tape call).2 := by
  cases call with
  | scan => exact (h.scan htape).imp_left (congrArg some)
  | scanSignificant => exact (h.scanSignificant htape).imp_left (congrArg some)
  | unscan =>
    refine ⟨rfl, ?_⟩
    cases h with
    | fresh => exact .fresh
    | taken n => exact .putBack n
    | putBack n => exact .putBack n

/-- The answers to some calls are the tokens at the places that the calls visit. -/
theorem Stands.session (calls : List BufferCall) :
    ∀ {b : TokenBuffer σ} {c : Cursor}, Stands tape s b c →
      b.session calls = (c.visits tape calls).map (Option.map fun n => .ok (tape.token n)) := by
  induction calls with
  | nil =>
    intro b c _
    rfl
  | cons call calls ih =>
    intro b c h
    obtain ⟨hanswer, hstands⟩ := h.call htape call
    rw [TokenBuffer.session, hanswer, ih hstands]
    rfl

end TokenBuffer

/-! ### The tape of a source -/

/-- A feed fails only if it has a failure ready. -/
theorem Feed.event_ne_fail (n : Nat) : ∀ {feed : Feed ε}, (∀ e, .fail e ∉ feed) →
    ∀ e, CharSource.event feed n ≠ .fail e := by
  induction n with
  | zero =>
    intro feed hfeed e hevent
    rcases feed with _ | ⟨c | _ | e', rest⟩
    · cases hevent
    · cases hevent
    · cases hevent
    · exact hfeed e' List.mem_cons_self
  | succ n ih =>
    intro feed hfeed
    have hrest : ∀ e, .fail e ∉ feed.tail := fun e hmem => hfeed e (List.mem_of_mem_tail hmem)
    rw [← Feed.next_snd] at hrest
    exact ih hrest

namespace Scanner

variable [CharSource σ ε]

/-- Over a source that never fails, every call has a token for an answer. -/
theorem exists_scan_eq_ok {s : Scanner σ} (hfail : ∀ n e, CharSource.event s.source n ≠ .fail e)
    (n : Nat) : ∃ t, (s.after n).scan.1 = .ok t := by
  rcases hscan : (s.after n).scan.1 with e | t
  · obtain ⟨piece, huses⟩ := (s.after n).exists_uses
    have hpulled : .fail e ∈ s.pulledBefore (n + 1) := by
      rw [pulledBefore_succ]
      exact List.mem_append_right _ ((huses.fails e).1 hscan)
    obtain ⟨k, hevents, -⟩ := s.exists_pulledBefore (n + 1)
    rw [hevents, CharSource.events, List.mem_map] at hpulled
    obtain ⟨i, -, hi⟩ := hpulled
    exact absurd hi (hfail i e)
  · exact ⟨t, rfl⟩

/-- As long as blanks go on, the supply gets smaller. -/
theorem exists_isWhitespace_eq_false {s : Scanner σ} {token : Nat → Token}
    (htoken : ∀ n, (s.after n).scan.1 = .ok (token n)) (n : Nat) :
    ∃ m, n ≤ m ∧ (token m).isWhitespace = false := by
  induction hlen : (s.after n).remaining using Nat.strongRecOn generalizing n with
  | ind len ih =>
    subst hlen
    cases hblank : (token n).isWhitespace with
    | false => exact ⟨n, Nat.le_refl n, hblank⟩
    | true =>
      have hscan : (s.after n).scan = (.ok (token n), s.after (n + 1)) := Prod.ext (htoken n) rfl
      have hne : token n ≠ .endOfInput := by
        intro heq
        rw [heq] at hblank
        cases hblank
      obtain ⟨m, hle, hm⟩ := ih _ (remaining_scan_lt hscan hne) (n + 1) rfl
      exact ⟨m, Nat.le_of_succ_le hle, hm⟩

/-- The tokens that a scanner gives over a source that never fails. -/
theorem exists_tape {s : Scanner σ} (hfail : ∀ n e, CharSource.event s.source n ≠ .fail e) :
    ∃ tape : Tape, ∀ n, (s.after n).scan.1 = .ok (tape.token n) := by
  choose token htoken using exists_scan_eq_ok hfail
  exact ⟨{ token, exists_significant := exists_isWhitespace_eq_false htoken }, htoken⟩

end Scanner

/-- **A token buffer is a cursor with one step of undo.**  Over a source that never fails, the
answers to any calls are the tokens at the places that the cursor visits.  Up to the place where the
cursor is in the end, the visits that are not taken back come to every token once and in order, but
for blanks that are skipped.

The supply of the source is finite, as `CharSource` asks for.  Otherwise a run of characters might
never end, or no token but blanks might follow. -/
theorem tokenBuffer_cursor [CharSource σ ε] (source : σ)
    (hfail : ∀ n e, CharSource.event source n ≠ .fail e) :
    ∃ tape : Tape,
      (∀ n, (Scanner.after { source } n).scan.1 = .ok (tape.token n)) ∧
      ∀ calls : List BufferCall,
        (TokenBuffer.ofSource source).session calls
            = (Cursor.visits tape {} calls).map (Option.map fun n => .ok (tape.token n)) ∧
          tape.Covers 0 (Cursor.moved tape {} calls).position
            (standing none (Cursor.visits tape {} calls)) := by
  obtain ⟨tape, htape⟩ := Scanner.exists_tape (s := { source }) hfail
  refine ⟨tape, htape, ?_⟩
  intro calls
  exact ⟨TokenBuffer.Stands.session htape calls .fresh, (tape.covers_visits calls 0).1⟩

/-- A word, the end for a moment, a blank and a parenthesis.  The second step back in a row does
nothing, and a step back behind a blank that was skipped leaves the blank behind. -/
theorem tokenBuffer_cursor_plum :
    let plum : Feed ReadError := [.char 'p', .char 'l', .stop, .char ' ', .char ')']
    let calls : List BufferCall := [.unscan, .scan, .unscan, .unscan, .scanSignificant,
      .scanSignificant, .unscan, .scan, .scan, .unscan, .scan]
    (∃ tape : Tape,
      (∀ n, (Scanner.after { source := plum } n).scan.1 = .ok (tape.token n)) ∧
        (TokenBuffer.ofSource plum).session calls
          = (Cursor.visits tape {} calls).map (Option.map fun n => .ok (tape.token n)) ∧
        tape.Covers 0 (Cursor.moved tape {} calls).position
          (standing none (Cursor.visits tape {} calls))) ∧
      (TokenBuffer.ofSource plum).session calls
        = [none, some (.ok (.literal "pl")), none, none, some (.ok (.literal "pl")),
          some (.ok .rightParen), none, some (.ok .rightParen), some (.ok .endOfInput), none,
          some (.ok .endOfInput)] := by
  intro plum calls
  have hfail : ∀ e, .fail e ∉ plum := by simp [plum]
  obtain ⟨tape, htape, hcalls⟩ := tokenBuffer_cursor plum fun n => Feed.event_ne_fail n hfail
  exact ⟨⟨tape, htape, hcalls calls⟩, by decide +kernel⟩

end BooleanSearch
