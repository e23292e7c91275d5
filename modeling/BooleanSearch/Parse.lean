import BooleanSearch.Notice
import BooleanSearch.Source.Bytes
import BooleanSearch.Token.Buffer

/-!
# Reading search strings

Everything from the characters to the tree.  Only a source can fail; what it gives is always a
search string.

## Main definitions

* `Reading` — a tree, and the notices on the way to it.
* `readSource` — reads from a source, which is handed back.
* `readString`, `parse` — what a string reads as.
* `parseReader` — the tree of the bytes of a reader.
-/

namespace BooleanSearch

/-- What a search string was read as. -/
structure Reading where
  /-- The tree. -/
  query : Query
  /-- The notices, in order. -/
  notices : Array Notice

namespace Draft

variable {σ ε : Type} [CharSource σ ε]

/-- Takes the tokens of a buffer up to the end of the input into a draft, and what there is to say
of them into `notices`. -/
def readAll (d : Draft) (notices : Array Notice) (b : TokenBuffer σ) :
    Except ε Reading × TokenBuffer σ :=
  match _h : b.scanSignificant with
  | (.error e, b') => (.error e, b')
  | (.ok t, b') =>
    if _ht : t = .endOfInput then
      let notices := notices ++ d.closingNotices
      (.ok { query := d.query, notices }, b')
    else
      -- the notice is about the draft before the token, so it comes first
      let notices := notices ++ (d.notice? t).toList
      readAll (d.step t) notices b'
termination_by b.remaining
decreasing_by exact TokenBuffer.remaining_scanSignificant_lt _h _ht

end Draft

/-- Reads from a source up to the first end of the input between two tokens, and gives the source
back as it stands then. -/
def readSource {σ ε : Type} [CharSource σ ε] (source : σ) : Except ε Reading × σ :=
  let (answer, b) := Draft.readAll {} #[] (.ofSource source)
  (answer, b.scanner.source)

/-- What a string reads as. -/
def readString (s : String) : Reading :=
  match (readSource (Feed.ofString s : Feed Empty)).1 with
  | .ok reading => reading
  | .error e => nomatch e

/-- The tree of a search string. -/
def parse (s : String) : Query :=
  (readString s).query

/-- The tree of the search string that a reader gives as UTF-8. -/
def parseReader (reader : Reader) : Except ReadError Query :=
  (readSource (ByteSource.ofReader reader)).1.map Reading.query

end BooleanSearch
