import BooleanSearch.Proofs.Reading

/-!
# Scanning a feed

A scanner over a feed has one character of the feed in hand at most.  Put back in front, it gives
the feed that is still ahead, and the next token depends on nothing else: a run is the longest list
of characters of its class that the feed begins with, and what stops it stays ahead, unless it is
an end of the input.

## Main definitions

* `Scanner.ahead` — what is ahead of a scanner.
* `Feed.splitRun` — the run that a feed begins with, and the rest.
* `Feed.scan` — the next token, and what is ahead then.

## Main results

* `Scanner.scan_eq` — a scanner gives the next token of what is ahead.
-/

namespace BooleanSearch

variable {ε : Type}

namespace Feed

/-- The run of members that a feed begins with, and what comes after it. -/
def splitRun (member : Char → Bool) : Feed ε → List Char × Feed ε
  | .char c :: rest =>
    if member c then (c :: (splitRun member rest).1, (splitRun member rest).2)
    else ([], .char c :: rest)
  | feed => ([], feed)

/-- Ends a run, given the token it makes and what comes after it. -/
def endRun (t : Token) : Feed ε → Except ε Token × Feed ε
  | .fail e :: rest => (.error e, rest)
  | .stop :: rest => (.ok t, rest)
  | feed => (.ok t, feed)

/-- The next token of a feed, and what is ahead then. -/
def scan : Feed ε → Except ε Token × Feed ε
  | [] => (.ok .endOfInput, [])
  | .stop :: rest => (.ok .endOfInput, rest)
  | .fail e :: rest => (.error e, rest)
  | .char c :: rest =>
    if isBlank c then
      let (run, rest) := splitRun isBlank rest
      endRun (.whitespace (String.ofList (c :: run))) rest
    else if isLetter c then
      let (run, rest) := splitRun isWordChar rest
      endRun (.ofWord (String.ofList (c :: run))) rest
    else (.ok (.ofMark c), rest)

/-- A run does not reach into a feed that begins with no run. -/
theorem splitRun_append {member : Char → Bool} {feed : Feed ε}
    (hfeed : splitRun member feed = ([], feed)) (cs : List Char) :
    splitRun member (cs.map .char ++ feed)
      = (cs.takeWhile member, (cs.dropWhile member).map .char ++ feed) := by
  induction cs with
  | nil => exact hfeed
  | cons c cs ih =>
    rw [List.map_cons, List.cons_append, splitRun, ih]
    cases h : member c <;> simp [h]

theorem splitRun_map_char (member : Char → Bool) (cs : List Char) :
    splitRun member (cs.map .char : Feed ε)
      = (cs.takeWhile member, (cs.dropWhile member).map .char) := by
  have hnil : splitRun member ([] : Feed ε) = ([], []) := rfl
  have h := splitRun_append hnil cs
  rwa [List.append_nil, List.append_nil] at h

end Feed

namespace Scanner

/-- What is ahead of a scanner. -/
def ahead (s : Scanner (Feed ε)) : Feed ε :=
  s.pending.toList.map .char ++ s.source

theorem read_eq (s : Scanner (Feed ε)) :
    s.read = (s.ahead.next.1, { source := s.ahead.next.2 }) := by
  obtain ⟨source, pending⟩ := s
  cases pending <;> rfl

@[simp] theorem ahead_of_source (source : Feed ε) :
    ahead ({ source } : Scanner (Feed ε)) = source := rfl

@[simp] theorem ahead_of_pending (c : Char) (source : Feed ε) :
    ahead ({ source, pending := some c } : Scanner (Feed ε)) = .char c :: source := rfl

/-- Goes on with a run, given what is ahead. -/
theorem readRun_eq (member : Char → Bool) (make : String → Token) (text : String)
    (s : Scanner (Feed ε)) :
    ((s.readRun member text).1.map make, (s.readRun member text).2.ahead)
      = Feed.endRun (make (text ++ String.ofList (Feed.splitRun member s.ahead).1))
          (Feed.splitRun member s.ahead).2 := by
  fun_induction readRun member text s with
  | case1 text s e s' h =>
    rw [read_eq] at h
    rcases hs : s.ahead with _ | ⟨_ | _ | _, rest⟩ <;> rw [hs] at h <;> cases h
    rfl
  | case2 text s s' h =>
    rw [read_eq] at h
    rcases hs : s.ahead with _ | ⟨_ | _ | _, rest⟩ <;> rw [hs] at h <;> cases h
    · simp [Feed.splitRun, Feed.endRun, Except.map]
    · simp [Feed.splitRun, Feed.endRun, Except.map]
  | case3 text s c s' h hc ih =>
    rw [read_eq] at h
    rcases hs : s.ahead with _ | ⟨_ | _ | _, rest⟩ <;> rw [hs] at h <;> cases h
    rw [ih, Feed.splitRun, if_pos hc, ahead_of_source, String.ofList_cons, ← String.append_assoc]
    rfl
  | case4 text s c s' h hc =>
    -- the character that stops the run is in hand then, and so is still ahead
    rw [read_eq] at h
    rcases hs : s.ahead with _ | ⟨_ | _ | _, rest⟩ <;> rw [hs] at h <;> cases h
    simp [Feed.splitRun, hc, Feed.endRun, Except.map]

/-- A scanner gives the next token of what is ahead. -/
theorem scan_eq (s : Scanner (Feed ε)) : (s.scan.1, s.scan.2.ahead) = Feed.scan s.ahead := by
  rcases hs : s.ahead with _ | ⟨c | _ | e, rest⟩
  · simp [scan, read_eq, hs, Feed.scan]
  · simp only [scan, read_eq, hs, Feed.next_char_cons, Feed.scan]
    split
    · rw [String.ofList_cons]
      exact readRun_eq isBlank .whitespace (String.singleton c) { source := rest }
    split
    · rw [String.ofList_cons]
      exact readRun_eq isWordChar .ofWord (String.singleton c) { source := rest }
    · rfl
  · simp [scan, read_eq, hs, Feed.scan]
  · simp [scan, read_eq, hs, Feed.scan]

end Scanner

end BooleanSearch
