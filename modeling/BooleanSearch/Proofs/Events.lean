import BooleanSearch.Proofs.Lexemes

/-!
# The answers of a source

A source answers whenever it is asked, with a character, with the end of the input or with a
failure.  The end need not be the last word, but the characters run out at some point, as there is
a finite supply of them.

An end that comes right behind a character of a word or of a run of blanks only ends the run.  Any
other end is one that reading stops at, and so is a failure.  Of two ends in a row the second is
such an end, so every source comes to an answer at which reading stops.

## Main definitions

* `CharSource.after`, `CharSource.event`, `CharSource.events` — a source after some answers, and
  the answers.
* `EndsInRun` — the texts whose last character belongs to a word or to a run of blanks.
* `Feed.StopsAt`, `Feed.Passes` — the answers at which reading stops, and those at which it does
  not.
* `Feed.text` — the text that answers stand for.

## Main results

* `CharSource.exists_forall_not_isChar` — a source runs out of characters.
* `CharSource.exists_stopsAt` — reading stops somewhere.
-/

namespace BooleanSearch

variable {σ ε : Type}

/-! ### The answers of a source -/

namespace Event

/-- The answer that an event is. -/
def answer : Event ε → Except ε (Option Char)
  | .char c => .ok (some c)
  | .stop => .ok none
  | .fail e => .error e

/-- The event that an answer is. -/
def ofAnswer : Except ε (Option Char) → Event ε
  | .ok (some c) => .char c
  | .ok none => .stop
  | .error e => .fail e

@[simp] theorem answer_ofAnswer (a : Except ε (Option Char)) : (ofAnswer a).answer = a := by
  rcases a with e | _ | c <;> rfl

/-- Whether an event is a character. -/
def isChar : Event ε → Bool
  | .char _ => true
  | .stop | .fail _ => false

/-- The characters since the last end or failure, one event later. -/
def extend (piece : List Char) : Event ε → List Char
  | .char c => piece ++ [c]
  | .stop | .fail _ => []

/-- The characters that an event stands for.  An end of the input stands for a space. -/
def text : Event ε → List Char
  | .char c => [c]
  | .stop => [' ']
  | .fail _ => []

/-- What comes of a reading that stops at an event, if it gives `a` unless it fails. -/
def outcome {α : Type} (a : α) : Event ε → Except ε α
  | .fail e => .error e
  | .char _ | .stop => .ok a

theorem map_outcome {α β : Type} (f : α → β) (a : α) (event : Event ε) :
    (event.outcome a).map f = event.outcome (f a) := by
  cases event <;> rfl

end Event

namespace CharSource

variable [CharSource σ ε]

/-- A source as it stands after `n` answers. -/
def after (s : σ) : Nat → σ
  | 0 => s
  | n + 1 => after (next s).2 n

/-- Answer number `n` of a source, counted from zero. -/
def event (s : σ) (n : Nat) : Event ε :=
  .ofAnswer (next (after s n)).1

/-- The first `n` answers of a source. -/
def events (s : σ) (n : Nat) : Feed ε :=
  (List.range n).map (event s)

theorem events_succ (s : σ) (n : Nat) :
    events s (n + 1) = event s 0 :: events (next s).2 n := by
  rw [events, List.range_succ_eq_map, List.map_cons, List.map_map]
  rfl

theorem events_concat (s : σ) (n : Nat) : events s (n + 1) = events s n ++ [event s n] := by
  rw [events, List.range_succ, List.map_append]
  rfl

/-- Answers that are cut before one of them. -/
theorem events_eq_append {e : Event ε} {after : Feed ε} (before : Feed ε) :
    ∀ (s : σ) (n : Nat), events s n = before ++ e :: after →
      before.length < n ∧ before = events s before.length ∧ e = event s before.length := by
  induction before with
  | nil =>
    intro s n h
    cases n with
    | zero => cases h
    | succ n =>
      rw [events_succ] at h
      exact ⟨Nat.succ_pos n, rfl, (List.cons.inj h).1.symm⟩
  | cons e' before ih =>
    intro s n h
    cases n with
    | zero => cases h
    | succ n =>
      rw [events_succ] at h
      obtain ⟨hhead, htail⟩ := List.cons.inj h
      obtain ⟨hlt, hbefore, he⟩ := ih (next s).2 n htail
      refine ⟨Nat.succ_lt_succ hlt, ?_, he⟩
      rw [List.length_cons, events_succ, ← hhead, ← hbefore]

theorem after_add (m n : Nat) : ∀ s : σ, after s (m + n) = after (after s m) n := by
  induction m with
  | zero =>
    intro s
    rw [Nat.zero_add]
    rfl
  | succ m ih =>
    intro s
    rw [Nat.succ_add]
    exact ih (next s).2

theorem event_add (s : σ) (m n : Nat) : event s (m + n) = event (after s m) n := by
  rw [event, after_add, event]

theorem events_add (s : σ) (m n : Nat) : events s (m + n) = events s m ++ events (after s m) n := by
  induction n with
  | zero => exact (List.append_nil _).symm
  | succ n ih =>
    rw [← Nat.add_assoc, events_concat, ih, events_concat, event_add, List.append_assoc]

theorem remaining_after_le (n : Nat) : ∀ s : σ, remaining (after s n) ≤ remaining s := by
  induction n with
  | zero =>
    intro s
    exact Nat.le_refl _
  | succ n ih =>
    intro s
    exact Nat.le_trans (ih (next s).2) (remaining_next_le s)

/-- Every character is taken from the supply. -/
theorem remaining_after_succ_lt {s : σ} {n : Nat} (h : (event s n).isChar = true) :
    remaining (after s (n + 1)) < remaining s := by
  have hnext : ∃ c, (next (after s n)).1 = .ok (some c) := by
    rw [event] at h
    rcases hs : (next (after s n)).1 with e | _ | c <;> rw [hs] at h
    · cases h
    · cases h
    · exact ⟨c, rfl⟩
  obtain ⟨c, hc⟩ := hnext
  rw [after_add]
  exact Nat.lt_of_lt_of_le (remaining_next_lt (after s n) c hc) (remaining_after_le n s)

/-- A source runs out of characters. -/
theorem exists_forall_not_isChar (s : σ) : ∃ n, ∀ m, n ≤ m → (event s m).isChar = false := by
  induction hlen : remaining s using Nat.strongRecOn generalizing s with
  | ind len ih =>
    subst hlen
    by_cases hchar : ∃ n, (event s n).isChar = true
    · -- after a character the supply is smaller
      obtain ⟨n, hn⟩ := hchar
      obtain ⟨k, hk⟩ := ih _ (remaining_after_succ_lt hn) (after s (n + 1)) rfl
      refine ⟨n + 1 + k, ?_⟩
      intro m hm
      obtain ⟨j, rfl⟩ := Nat.exists_eq_add_of_le hm
      rw [Nat.add_assoc, event_add]
      exact hk (k + j) (Nat.le_add_right k j)
    · refine ⟨0, ?_⟩
      intro m _
      exact Bool.eq_false_iff.2 fun hm => hchar ⟨m, hm⟩

end CharSource

/-! ### Where reading stops -/

/-- The last character of a text belongs to a word, to a keyword or to a run of blanks. -/
def EndsInRun (s : String) : Prop :=
  ∃ t ∈ (tokenize s).getLast?, t.isRun = true

theorem endsInRun_ofList (cs : List Char) :
    EndsInRun (String.ofList cs) ↔ ∃ t ∈ (lexemes cs).getLast?, t.isRun = true := by
  rw [EndsInRun, tokenize_eq, String.toList_ofList]

theorem not_endsInRun_nil : ¬EndsInRun (String.ofList []) := by
  rw [endsInRun_ofList, lexemes_nil]
  rintro ⟨t, ht, -⟩
  cases ht

theorem endsInRun_run {c : Char} {cs : List Char} (hrest : (lexeme c cs).2 = [])
    (hrun : (lexeme c cs).1.isRun = true) : EndsInRun (String.ofList (c :: cs)) := by
  rw [endsInRun_ofList, lexemes_cons, hrest, lexemes_nil]
  exact ⟨_, rfl, hrun⟩

/-- What a text ends in is seen behind its first token, unless that is a run and there is no
other token. -/
theorem endsInRun_cons {c : Char} {cs : List Char}
    (h : ¬((lexeme c cs).2 = [] ∧ (lexeme c cs).1.isRun = true)) :
    EndsInRun (String.ofList (c :: cs)) ↔ EndsInRun (String.ofList (lexeme c cs).2) := by
  rw [endsInRun_ofList, endsInRun_ofList, lexemes_cons]
  cases hrest : (lexeme c cs).2 with
  | nil =>
    have hrun : ¬(lexeme c cs).1.isRun = true := fun hrun => h ⟨hrest, hrun⟩
    simp [hrun]
  | cons d ds => rw [lexemes_cons, List.getLast?_cons_cons]

namespace Feed

/-- The characters since the last end or failure. -/
def lastPiece (feed : Feed ε) : List Char :=
  feed.foldl Event.extend []

/-- Whether reading stops at an event, after the events in `before`.  An end of the input that
comes right behind a character of a run only ends the run. -/
def StopsAt (before : Feed ε) : Event ε → Prop
  | .char _ => False
  | .stop => ¬EndsInRun (String.ofList before.lastPiece)
  | .fail _ => True

/-- Reading stops at none of some events. -/
def Passes (feed : Feed ε) : Prop :=
  ∀ (before : Feed ε) (event : Event ε) (after : Feed ε),
    feed = before ++ event :: after → ¬StopsAt before event

/-- The text that events stand for. -/
def text (feed : Feed ε) : String :=
  String.ofList (feed.flatMap Event.text)

theorem lastPiece_map_char (cs : List Char) : lastPiece (cs.map .char : Feed ε) = cs := by
  have hfold : ∀ piece : List Char,
      (cs.map Event.char : Feed ε).foldl Event.extend piece = piece ++ cs := by
    induction cs with
    | nil => intro piece; simp
    | cons c cs ih =>
      intro piece
      rw [List.map_cons, List.foldl_cons, ih, Event.extend, List.append_assoc]
      rfl
  exact hfold []

/-- What comes before an end does not matter behind it. -/
theorem lastPiece_append_stop (before after : Feed ε) :
    lastPiece (before ++ .stop :: after) = lastPiece after := by
  rw [lastPiece, List.foldl_append, List.foldl_cons]
  rfl

theorem stopsAt_append_stop (before after : Feed ε) (event : Event ε) :
    StopsAt (before ++ .stop :: after) event ↔ StopsAt after event := by
  cases event with
  | stop => rw [StopsAt, StopsAt, lastPiece_append_stop]
  | char c => exact Iff.rfl
  | fail e => exact Iff.rfl

theorem Passes.of_append_stop {before after : Feed ε} (h : (before ++ .stop :: after).Passes) :
    after.Passes := by
  intro l event r hafter
  rw [← stopsAt_append_stop before]
  apply h _ event r
  rw [hafter, List.append_assoc, List.cons_append]

/-- A feed is all characters, or characters up to an end or a failure. -/
theorem eq_map_char_or (feed : Feed ε) :
    (∃ cs : List Char, feed = cs.map .char) ∨
      ∃ (cs : List Char) (event : Event ε) (rest : Feed ε),
        feed = cs.map .char ++ event :: rest ∧ event.isChar = false := by
  induction feed with
  | nil => exact Or.inl ⟨[], rfl⟩
  | cons event feed ih =>
    cases event with
    | char c =>
      rcases ih with ⟨cs, rfl⟩ | ⟨cs, event, rest, rfl, hevent⟩
      · exact Or.inl ⟨c :: cs, rfl⟩
      · exact Or.inr ⟨c :: cs, event, rest, rfl, hevent⟩
    | stop => exact Or.inr ⟨[], .stop, feed, rfl, rfl⟩
    | fail e => exact Or.inr ⟨[], .fail e, feed, rfl, rfl⟩

theorem toList_text_map_char (cs : List Char) : (text (cs.map .char : Feed ε)).toList = cs := by
  induction cs with
  | nil => rfl
  | cons c cs ih => simpa [text, Event.text] using ih

theorem toList_text_append_stop (cs : List Char) (rest : Feed ε) :
    (text (cs.map .char ++ .stop :: rest)).toList = cs ++ ' ' :: (text rest).toList := by
  induction cs with
  | nil => simp [text, Event.text]
  | cons c cs ih => simpa [text, Event.text] using ih

/-- An end of the input separates words as a space does. -/
theorem withoutBlanks_text_append_stop (cs : List Char) (rest : Feed ε) :
    withoutBlanks (lexemes (text (cs.map .char ++ .stop :: rest)).toList)
      = withoutBlanks (lexemes cs) ++ withoutBlanks (lexemes rest.text.toList) := by
  have hspace : ∀ t ∈ (lexemes cs).getLast?, t.isWordRun = true →
      ∀ d ∈ (' ' :: rest.text.toList).head?, isWordChar d = false := by
    intro _ _ _ d hd
    cases hd
    decide
  rw [toList_text_append_stop, withoutBlanks_lexemes_append hspace, withoutBlanks_lexemes_cons rfl]

end Feed

/-- Reading stops at no answer before the first at which it stops. -/
theorem CharSource.passes_events [CharSource σ ε] {source : σ} {n : Nat}
    (h : ∀ m < n, ¬(events source m).StopsAt (event source m)) : (events source n).Passes := by
  intro before e after hevents
  obtain ⟨hlt, hbefore, he⟩ := events_eq_append before source n hevents
  rw [hbefore, he]
  exact h before.length hlt

/-- Reading stops somewhere. -/
theorem CharSource.exists_stopsAt [CharSource σ ε] (source : σ) :
    ∃ n, (events source n).StopsAt (event source n) := by
  obtain ⟨n, hn⟩ := exists_forall_not_isChar source
  have hfirst := hn n (Nat.le_refl n)
  have hsecond := hn (n + 1) (Nat.le_succ n)
  -- of two ends in a row the second interrupts nothing
  cases h : event source n with
  | char c => rw [h] at hfirst; cases hfirst
  | fail e =>
    refine ⟨n, ?_⟩
    rw [h]
    trivial
  | stop =>
    refine ⟨n + 1, ?_⟩
    rw [events_concat, h]
    cases h' : event source (n + 1) with
    | char c => rw [h'] at hsecond; cases hsecond
    | fail e => trivial
    | stop =>
      rw [Feed.stopsAt_append_stop]
      exact not_endsInRun_nil

end BooleanSearch
