import BooleanSearch.Proofs.Canonical
import BooleanSearch.Proofs.Events
import BooleanSearch.Proofs.Sources

/-!
# Sessions with a scanner

A scanner may be asked for tokens as often as one likes, also behind an end of the input and behind
a failure.  Between two calls it has one character in hand at most, the one that stopped the last
run.  So every character that it takes from its source is used by one call: it becomes part of the
token that the call answers, or it is lost with the run that a failure strikes.

To see what a call takes from a source, the source is replaced by one that keeps a record of its
answers.  The scanner does not notice the difference.

## Main definitions

* `Recorder` — a source that keeps a record of its answers.
* `Scanner.after`, `Scanner.pulled`, `Scanner.pulledBefore` — a scanner after some calls, and what
  a call and all calls before it take from the source.
* `Token.IsRunOf` — the characters of a run.
* `Call` — what one call may come to.
* `Scanner.Uses` — what becomes of the characters of a call.

## Main results

* `Scanner.scan_induction` — what every answer of a source preserves, a call preserves.
* `Scanner.exists_call` — what a call does is one of the cases.
* `scanner_conserves` — **no character is lost, repeated or moved in a session.**
-/

namespace BooleanSearch

variable {σ ε : Type}

/-! ### Recording a source -/

/-- A source that keeps a record of its answers. -/
structure Recorder (σ ε : Type) where
  /-- The source. -/
  source : σ
  /-- Its answers so far. -/
  record : Feed ε := []

namespace Recorder

variable [CharSource σ ε]

/-- A recorder that has no answer on record. -/
def start (source : σ) : Recorder σ ε where
  source := source

instance : CharSource (Recorder σ ε) ε where
  next r :=
    let (answer, source) := CharSource.next r.source
    (answer, { source, record := r.record ++ [.ofAnswer answer] })
  remaining r := CharSource.remaining r.source
  remaining_next_le r := CharSource.remaining_next_le r.source
  remaining_next_lt r := CharSource.remaining_next_lt r.source

/-- A recorder answers what its source answers. -/
theorem keepsAnswers_source : KeepsAnswers (source : Recorder σ ε → σ) :=
  fun _ => rfl

/-- What is on record are the first answers of `first`, and the source is `first` after them. -/
def Records (first : σ) (r : Recorder σ ε) : Prop :=
  ∃ k, r.record = CharSource.events first k ∧ r.source = CharSource.after first k

theorem records_start (first : σ) : Records first (start first : Recorder σ ε) :=
  ⟨0, rfl, rfl⟩

theorem Records.next {first : σ} {r : Recorder σ ε} (h : r.Records first) :
    (CharSource.next r).2.Records first := by
  obtain ⟨k, hrecord, hsource⟩ := h
  refine ⟨k + 1, ?_, ?_⟩
  · rw [CharSource.events_concat, ← hrecord, CharSource.event, ← hsource]
    rfl
  · rw [CharSource.after_add, ← hsource]
    rfl

end Recorder

/-! ### Calls -/

namespace Scanner

variable [CharSource σ ε]

/-- A scanner as it stands after `n` calls. -/
def after (s : Scanner σ) : Nat → Scanner σ
  | 0 => s
  | n + 1 => (after s n).scan.2

/-- What the next call takes from the source. -/
def pulled (s : Scanner σ) : Feed ε :=
  (s.map (Recorder.start (ε := ε))).scan.2.source.record

/-- What the first `n` calls take from the source. -/
def pulledBefore (s : Scanner σ) (n : Nat) : Feed ε :=
  (List.range n).flatMap fun i => (s.after i).pulled

variable {P : σ → Prop}

theorem read_induction (hP : ∀ source, P source → P (CharSource.next source).2) {s : Scanner σ}
    (h : P s.source) : P s.read.2.source := by
  obtain ⟨source, pending⟩ := s
  cases pending with
  | some c => exact h
  | none => exact hP source h

/-- What every answer of a source preserves, a call preserves. -/
theorem scan_induction (hP : ∀ source, P source → P (CharSource.next source).2) {s : Scanner σ}
    (h : P s.source) : P s.scan.2.source := by
  have hrun (member : Char → Bool) (text : String) (s : Scanner σ) (h : P s.source) :
      P (s.readRun member text).2.source := by
    fun_induction readRun member text s with
    | case1 text s e s' hread => simpa [hread] using read_induction hP h
    | case2 text s s' hread => simpa [hread] using read_induction hP h
    | case3 text s c s' hread hc ih =>
      apply ih
      simpa [hread] using read_induction hP h
    | case4 text s c s' hread hc => simpa [hread] using read_induction hP h
  have hread := read_induction hP h
  rw [scan]
  split
  · next heq => rwa [heq] at hread
  · next heq => rwa [heq] at hread
  · next heq =>
    rw [heq] at hread
    split
    · exact hrun _ _ _ hread
    split
    · exact hrun _ _ _ hread
    · exact hread

end Scanner

/-- The characters of a run, and the token that they make. -/
inductive Token.IsRunOf : Token → List Char → Prop
  /-- A run of blanks. -/
  | blanks (c : Char) (cs : List Char) (hc : isBlank c = true) (hcs : ∀ d ∈ cs, isBlank d = true) :
    IsRunOf (.whitespace (String.ofList (c :: cs))) (c :: cs)
  /-- A run of word characters. -/
  | word (c : Char) (cs : List Char) (hc : isLetter c = true)
    (hcs : ∀ d ∈ cs, isWordChar d = true) : IsRunOf (.ofWord (String.ofList (c :: cs))) (c :: cs)

/-- The character that an event is. -/
def Event.char? : Event ε → Option Char
  | .char c => some c
  | .stop | .fail _ => none

/-- What one call may come to: the events that it has before it, the first of which may be in hand;
the characters that it uses; its answer; and the character in hand afterwards. -/
inductive Call : Feed ε → List Char → Except ε Token → Option Char → Prop
  /-- There is an end before any character. -/
  | finished : Call [.stop] [] (.ok .endOfInput) none
  /-- There is a failure before any character. -/
  | failed (e : ε) : Call [.fail e] [] (.error e) none
  /-- A character is a token by itself. -/
  | mark (c : Char) (hblank : isBlank c = false) (hletter : isLetter c = false) :
    Call [.char c] [c] (.ok (.ofMark c)) none
  /-- A run is stopped by a character, which is kept. -/
  | cut (t : Token) (cs : List Char) (d : Char) (hrun : t.IsRunOf cs) (hd : t.goesOn d = false) :
    Call (cs.map .char ++ [.char d]) cs (.ok t) (some d)
  /-- A run is stopped by an end, which is used up. -/
  | ended (t : Token) (cs : List Char) (hrun : t.IsRunOf cs) :
    Call (cs.map .char ++ [.stop]) cs (.ok t) none
  /-- A run is struck by a failure, and lost. -/
  | lost (t : Token) (cs : List Char) (e : ε) (hrun : t.IsRunOf cs) :
    Call (cs.map .char ++ [.fail e]) cs (.error e) none

namespace Scanner

variable [CharSource σ ε]

/-- Reading takes one event, unless that is in hand. -/
theorem exists_read (s : Scanner (Recorder σ ε)) :
    ∃ pulled : Feed ε, s.read.2.source.record = s.source.record ++ pulled ∧
      s.pending.toList.map .char ++ pulled = [.ofAnswer s.read.1] := by
  obtain ⟨source, pending⟩ := s
  cases pending with
  | some c => exact ⟨[], (List.append_nil _).symm, rfl⟩
  | none => exact ⟨_, rfl, rfl⟩

theorem pending_of_read {s s' : Scanner (Recorder σ ε)} {answer : Except ε (Option Char)}
    (h : s.read = (answer, s')) : s'.pending = none := by
  have hnone := s.pending_read
  rwa [h] at hnone

theorem record_read {s s' : Scanner (Recorder σ ε)} {answer : Except ε (Option Char)}
    (hpending : s.pending = none) (h : s.read = (answer, s')) :
    s'.source.record = s.source.record ++ [.ofAnswer answer] := by
  obtain ⟨pulled, hrecord, hpulled⟩ := s.exists_read
  rw [hpending, h] at hpulled
  rw [h] at hrecord
  exact hpulled ▸ hrecord

/-- The rest of a run, the first characters of which have been read. -/
theorem exists_call_readRun {member : Char → Bool} {make : String → Token} {c : Char}
    (hrun : ∀ cs : List Char, (∀ d ∈ cs, member d = true) →
      (make (String.ofList (c :: cs))).IsRunOf (c :: cs))
    (hgoes : ∀ word, (make word).goesOn = member) (text : String) (s : Scanner (Recorder σ ε))
    (hpending : s.pending = none) (ds : List Char) (hds : ∀ d ∈ ds, member d = true)
    (htext : text = String.ofList (c :: ds)) :
    ∃ (pulled : Feed ε) (piece : List Char),
      (s.readRun member text).2.source.record = s.source.record ++ pulled ∧
        Call ((c :: ds).map .char ++ pulled) piece ((s.readRun member text).1.map make)
          (s.readRun member text).2.pending := by
  fun_induction readRun member text s generalizing ds with
  | case1 text s e s' h =>
    subst htext
    refine ⟨[.fail e], c :: ds, record_read hpending h, ?_⟩
    rw [pending_of_read h]
    exact .lost _ (c :: ds) e (hrun ds hds)
  | case2 text s s' h =>
    subst htext
    refine ⟨[.stop], c :: ds, record_read hpending h, ?_⟩
    rw [pending_of_read h]
    exact .ended _ (c :: ds) (hrun ds hds)
  | case3 text s d s' h hd ih =>
    -- the character goes on with the run
    subst htext
    have hmember : ∀ d' ∈ ds ++ [d], member d' = true :=
      List.forall_mem_append.2 ⟨hds, List.forall_mem_singleton.2 hd⟩
    have htext' : (String.ofList (c :: ds)).push d = String.ofList (c :: (ds ++ [d])) := by
      rw [← List.cons_append, String.ofList_append, String.push_eq_append]
      rfl
    obtain ⟨pulled, piece, hrecord, hcall⟩ := ih (pending_of_read h) (ds ++ [d]) hmember htext'
    refine ⟨.char d :: pulled, piece, ?_, ?_⟩
    · rw [hrecord, record_read hpending h, List.append_assoc]
      rfl
    · rw [← List.cons_append, List.map_append, List.append_assoc] at hcall
      exact hcall
  | case4 text s d s' h hd =>
    subst htext
    refine ⟨[.char d], c :: ds, record_read hpending h, ?_⟩
    apply Call.cut _ (c :: ds) d (hrun ds hds)
    rw [hgoes]
    exact Bool.eq_false_iff.2 hd

/-- A run, the first character of which is read. -/
theorem exists_call_run {member : Char → Bool} {make : String → Token} {c : Char}
    {s s' : Scanner (Recorder σ ε)} (h : s.read = (.ok (some c), s'))
    (hrun : ∀ cs : List Char, (∀ d ∈ cs, member d = true) →
      (make (String.ofList (c :: cs))).IsRunOf (c :: cs))
    (hgoes : ∀ word, (make word).goesOn = member) :
    ∃ (pulled : Feed ε) (piece : List Char),
      (s'.readRun member (String.singleton c)).2.source.record = s.source.record ++ pulled ∧
        Call (s.pending.toList.map .char ++ pulled) piece
          ((s'.readRun member (String.singleton c)).1.map make)
          (s'.readRun member (String.singleton c)).2.pending := by
  obtain ⟨first, hrecord, hfirst⟩ := s.exists_read
  rw [h] at hrecord hfirst
  obtain ⟨rest, piece, hrest, hcall⟩ := exists_call_readRun hrun hgoes (String.singleton c) s'
    (pending_of_read h) [] (List.forall_mem_nil _) rfl
  refine ⟨first ++ rest, piece, ?_, ?_⟩
  · rw [hrest, hrecord, List.append_assoc]
  · rw [← List.append_assoc, hfirst]
    exact hcall

/-- What a call on a recorder does is one of the cases. -/
theorem exists_call_recorder (s : Scanner (Recorder σ ε)) :
    ∃ (pulled : Feed ε) (piece : List Char),
      s.scan.2.source.record = s.source.record ++ pulled ∧
        Call (s.pending.toList.map .char ++ pulled) piece s.scan.1 s.scan.2.pending := by
  obtain ⟨pulled, hrecord, hpulled⟩ := s.exists_read
  rcases h : s.read with ⟨e | _ | c, s'⟩
  all_goals rw [h] at hrecord hpulled
  · refine ⟨pulled, [], ?_, ?_⟩
    · simpa only [scan, h] using hrecord
    · simp only [scan, h, hpulled, pending_of_read h]
      exact .failed e
  · refine ⟨pulled, [], ?_, ?_⟩
    · simpa only [scan, h] using hrecord
    · simp only [scan, h, hpulled, pending_of_read h]
      exact .finished
  · simp only [scan, h]
    by_cases hblank : isBlank c = true
    · simp only [if_pos hblank]
      exact exists_call_run h (fun cs hcs => .blanks c cs hblank hcs) Token.goesOn_whitespace
    by_cases hletter : isLetter c = true
    · simp only [if_neg hblank, if_pos hletter]
      exact exists_call_run h (fun cs hcs => .word c cs hletter hcs) Token.goesOn_ofWord
    · simp only [if_neg hblank, if_neg hletter]
      refine ⟨pulled, [c], hrecord, ?_⟩
      rw [hpulled, pending_of_read h]
      exact .mark c (Bool.eq_false_iff.2 hblank) (Bool.eq_false_iff.2 hletter)

/-- What a call does is one of the cases. -/
theorem exists_call (s : Scanner σ) :
    ∃ piece, Call (s.pending.toList.map .char ++ s.pulled) piece s.scan.1 s.scan.2.pending := by
  obtain ⟨pulled, piece, hrecord, hcall⟩ :=
    (s.map (Recorder.start (ε := ε))).exists_call_recorder
  have hscan : s.scan = _ := Recorder.keepsAnswers_source.scan (s.map (Recorder.start (ε := ε)))
  have hpulled : s.pulled = pulled := hrecord
  rw [hpulled, hscan]
  exact ⟨piece, hcall⟩

/-- What a call takes from the source are the answers of the source. -/
theorem exists_pulled (s : Scanner σ) :
    ∃ k, s.pulled = CharSource.events s.source k ∧
      s.scan.2.source = CharSource.after s.source k := by
  have hscan : s.scan = _ := Recorder.keepsAnswers_source.scan (s.map (Recorder.start (ε := ε)))
  have hstart : (s.map (Recorder.start (ε := ε))).source.Records s.source :=
    Recorder.records_start s.source
  rw [hscan]
  exact scan_induction (fun _ => Recorder.Records.next) hstart

end Scanner

/-! ### What becomes of the characters -/

/-- The characters among some events. -/
def Feed.chars (feed : Feed ε) : List Char :=
  feed.filterMap Event.char?

theorem Feed.chars_map_char_append (cs : List Char) (feed : Feed ε) :
    chars (cs.map .char ++ feed) = cs ++ feed.chars := by
  induction cs with
  | nil => rfl
  | cons c cs ih => exact congrArg (c :: ·) ih

theorem Feed.chars_append (feed feed' : Feed ε) :
    chars (feed ++ feed') = feed.chars ++ feed'.chars :=
  List.filterMap_append

theorem Token.IsRunOf.text_eq {t : Token} {cs : List Char} (h : t.IsRunOf cs) :
    t.text.toList = cs.map straight := by
  have hlexemes : lexemes cs = [t] := by
    cases h with
    | blanks c cs hc hcs => exact lexemes_of_isBlank hc hcs
    | word c cs hc hcs => exact lexemes_of_isLetter hc hcs
  rw [← text_lexemes, hlexemes, toList_textOf_cons]
  exact (List.append_nil _).symm

namespace Call

variable {feed : Feed ε} {piece : List Char} {answer : Except ε Token} {kept : Option Char}

/-- No character is lost or made up. -/
theorem chars_eq (h : Call feed piece answer kept) : feed.chars = piece ++ kept.toList := by
  cases h with
  | finished => rfl
  | failed e => rfl
  | mark c hblank hletter => rfl
  | cut t _ d hrun hd => exact Feed.chars_map_char_append piece [.char d]
  | ended t _ hrun =>
    exact (Feed.chars_map_char_append piece [.stop]).trans rfl
  | lost t _ e hrun => exact (Feed.chars_map_char_append piece [.fail e]).trans rfl

theorem text_eq {t : Token} (h : Call feed piece (.ok t) kept) :
    t.text.toList = piece.map straight := by
  cases h with
  | finished => rfl
  | mark c hblank hletter => exact text_ofMark c
  | cut t cs d hrun hd => exact hrun.text_eq
  | ended t cs hrun => exact hrun.text_eq

/-- A call fails with the failure that it meets. -/
theorem eq_error_iff (h : Call feed piece answer kept) (e : ε) :
    answer = .error e ↔ .fail e ∈ feed := by
  cases h with
  | _ => simp [eq_comm]

theorem of_error {e : ε} (h : Call feed piece (.error e) kept) :
    kept = none ∧ (piece = [] ∨ ∃ t : Token, t.IsRunOf piece) := by
  cases h with
  | failed e => exact ⟨rfl, Or.inl rfl⟩
  | lost t cs e hrun => exact ⟨rfl, Or.inr ⟨t, hrun⟩⟩

/-- A run goes up to a character that it does not go on with, or up to an end. -/
theorem of_isRun {t : Token} (h : Call feed piece (.ok t) kept) (ht : t.isRun = true) :
    (∃ c, kept = some c ∧ t.goesOn c = false) ∨ (kept = none ∧ feed.getLast? = some .stop) := by
  cases h with
  | finished => cases ht
  | mark c hblank hletter =>
    rw [Token.isRun, Token.isWhitespace_ofMark, Token.isWordRun_ofMark] at ht
    cases ht
  | cut t cs d hrun hd => exact Or.inl ⟨d, rfl, hd⟩
  | ended t cs hrun => exact Or.inr ⟨rfl, List.getLast?_concat⟩

/-- Everything before the last event is characters. -/
theorem isChar_of_mem_dropLast (h : Call feed piece answer kept) :
    ∀ event ∈ feed.dropLast, event.isChar = true := by
  have hchars (cs : List Char) (last : Event ε) :
      ∀ event ∈ (cs.map Event.char ++ [last]).dropLast, event.isChar = true := by
    intro event hevent
    rw [List.dropLast_concat] at hevent
    obtain ⟨c, -, rfl⟩ := List.mem_map.1 hevent
    rfl
  cases h with
  | finished => exact List.forall_mem_nil _
  | failed e => exact List.forall_mem_nil _
  | mark c hblank hletter => exact List.forall_mem_nil _
  | cut t _ d hrun hd => exact hchars piece _
  | ended t _ hrun => exact hchars piece _
  | lost t _ e hrun => exact hchars piece _

end Call

/-- What becomes of the characters of a call: those in `piece` are used. -/
structure Scanner.Uses [CharSource σ ε] (s : Scanner σ) (piece : List Char) : Prop where
  /-- What was in hand and what is taken is used, but for what is in hand then. -/
  conserved : s.pending.toList ++ s.pulled.chars = piece ++ s.scan.2.pending.toList
  /-- The text of the token is what is used. -/
  token : ∀ t, s.scan.1 = .ok t → t.text.toList = piece.map straight
  /-- The call fails if it takes a failure, with that failure, and only then. -/
  fails : ∀ e, s.scan.1 = .error e ↔ .fail e ∈ s.pulled
  /-- What is used by a call that fails is the run that was under way, and nothing is in hand
  then. -/
  lost : ∀ e, s.scan.1 = .error e →
    s.scan.2.pending = none ∧ (piece = [] ∨ ∃ t : Token, t.IsRunOf piece)
  /-- A run goes up to a character that it does not go on with, or up to an end. -/
  stopped : ∀ t, s.scan.1 = .ok t → t.isRun = true →
    (∃ c, s.scan.2.pending = some c ∧ t.goesOn c = false) ∨
      (s.scan.2.pending = none ∧ s.pulled.getLast? = some .stop)
  /-- Only the last event that is taken may be an end or a failure. -/
  unbroken : ∀ event ∈ s.pulled.dropLast, event.isChar = true

namespace Scanner

variable [CharSource σ ε]

/-- Every call uses some characters, in the way that the cases of a call tell. -/
theorem exists_uses (s : Scanner σ) : ∃ piece, s.Uses piece := by
  obtain ⟨piece, hcall⟩ := s.exists_call
  have hinHand : ∀ event ∈ s.pending.toList.map Event.char, (event : Event ε).isChar = true := by
    intro event hevent
    obtain ⟨c, -, rfl⟩ := List.mem_map.1 hevent
    rfl
  refine ⟨piece, ?_, ?_, ?_, ?_, ?_, ?_⟩
  · rw [← hcall.chars_eq, Feed.chars_map_char_append]
  · intro t ht
    rw [ht] at hcall
    exact hcall.text_eq
  · intro e
    rw [hcall.eq_error_iff, List.mem_append]
    refine ⟨fun hmem => hmem.resolve_left fun hfail => ?_, Or.inr⟩
    cases hinHand _ hfail
  · intro e he
    rw [he] at hcall
    exact hcall.of_error
  · intro t ht hrun
    rw [ht] at hcall
    refine (hcall.of_isRun hrun).imp_right fun ⟨hkept, hlast⟩ => ⟨hkept, ?_⟩
    -- a character in hand is no end
    rw [List.getLast?_append, Option.or_eq_some_iff] at hlast
    rcases hlast with hlast | ⟨-, hlast⟩
    · exact hlast
    · cases hinHand _ (List.mem_of_getLast? hlast)
  · intro event hevent
    have hne : s.pulled ≠ [] := by
      intro hnil
      rw [hnil] at hevent
      cases hevent
    apply hcall.isChar_of_mem_dropLast
    rw [List.dropLast_append_of_ne_nil hne]
    exact List.mem_append_right _ hevent

theorem pulledBefore_succ (s : Scanner σ) (n : Nat) :
    s.pulledBefore (n + 1) = s.pulledBefore n ++ (s.after n).pulled := by
  rw [pulledBefore, List.range_succ, List.flatMap_append, List.flatMap_singleton]
  rfl

/-- What the calls take from the source, one after the other, are the answers of the source. -/
theorem exists_pulledBefore (s : Scanner σ) (n : Nat) :
    ∃ k, s.pulledBefore n = CharSource.events s.source k ∧
      (s.after n).source = CharSource.after s.source k := by
  induction n with
  | zero => exact ⟨0, rfl, rfl⟩
  | succ n ih =>
    obtain ⟨k, hbefore, hsource⟩ := ih
    obtain ⟨k', hpulled, hsource'⟩ := (s.after n).exists_pulled
    refine ⟨k + k', ?_, ?_⟩
    · rw [pulledBefore_succ, hbefore, hpulled, hsource, CharSource.events_add]
    · rw [after, hsource', hsource, CharSource.after_add]

/-- If every call uses its piece, then the calls together use the pieces in order. -/
theorem chars_pulledBefore {s : Scanner σ} {piece : Nat → List Char}
    (huses : ∀ n, (s.after n).Uses (piece n)) (n : Nat) :
    s.pending.toList ++ (s.pulledBefore n).chars
      = (List.range n).flatMap piece ++ (s.after n).pending.toList := by
  induction n with
  | zero => exact List.append_nil _
  | succ n ih =>
    rw [pulledBefore_succ, Feed.chars_append, ← List.append_assoc, ih, List.append_assoc,
      (huses n).conserved, List.range_succ, List.flatMap_append, List.flatMap_singleton,
      List.append_assoc]
    rfl

end Scanner

/-- **No character is lost, repeated or moved in a session.**  Over any source, which may come to an
end for a moment or fail as often as it likes, the calls use the characters of the source piece by
piece, and after any number of calls the pieces and the character in hand, if there is one, are the
characters that were taken so far.  What was taken so far are the first answers of the source, and
every call uses its piece in the way that `Scanner.Uses` tells.  The supply of the source is finite,
as `CharSource` asks for, and so every call has a result. -/
theorem scanner_conserves [CharSource σ ε] (source : σ) :
    ∃ piece : Nat → List Char,
      (∀ n, (Scanner.pulledBefore { source } n).chars
        = (List.range n).flatMap piece ++ (Scanner.after { source } n).pending.toList) ∧
      (∀ n, (Scanner.after { source } n).Uses (piece n)) ∧
      ∀ n, ∃ k, Scanner.pulledBefore { source } n = CharSource.events source k ∧
        (Scanner.after { source } n).source = CharSource.after source k := by
  choose piece huses using fun n => (Scanner.after { source } n).exists_uses
  exact ⟨piece, Scanner.chars_pulledBefore huses, huses, Scanner.exists_pulledBefore { source }⟩

end BooleanSearch
