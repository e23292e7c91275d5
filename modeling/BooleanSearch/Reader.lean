/-!
# Byte readers

A reader hands out bytes in pieces of its own choosing.  It is given by the answers that it has
ready: data, of which one read takes no more than it asks for, and errors, each of which makes one
read fail.  A read that comes back without any byte says that the input is at its end, but only for
the moment, as more data may follow.

## Main definitions

* `ErrorKind`, `ReadError` — why a read failed; `ReadError.reason` and `ReadError.message` say so
  in words.
* `Chunk`, `Reader` — the answers of a reader.
* `Reader.read` — one read.
* `Reader.fill` — the next block of data, where an interruption is no failure.
-/

namespace BooleanSearch

/-- The kinds of failure of a read.  These are some of those that a system may report.  The others
are left out: only an interruption is treated in a way of its own, and of any other kind no more is
used than its description. -/
inductive ErrorKind
  /-- A failure of no particular kind. -/
  | other
  /-- The other side closed the connection. -/
  | connectionReset
  /-- The read took too long. -/
  | timedOut
  /-- The data ended too early. -/
  | unexpectedEof
  /-- The data may not be read. -/
  | permissionDenied
  /-- The data is not well formed. -/
  | invalidData
  /-- Nobody writes the data any more. -/
  | brokenPipe
  /-- No data is ready. -/
  | wouldBlock
  /-- There is no data of this name. -/
  | notFound
  /-- The read was interrupted and may be tried again. -/
  | interrupted
  deriving DecidableEq, Repr, Inhabited

namespace ErrorKind

/-- What a kind says of a failure about which nothing else is known. -/
def description : ErrorKind → String
  | other => "other error"
  | connectionReset => "connection reset"
  | timedOut => "timed out"
  | unexpectedEof => "unexpected end of file"
  | permissionDenied => "permission denied"
  | invalidData => "invalid data"
  | brokenPipe => "broken pipe"
  | wouldBlock => "operation would block"
  | notFound => "entity not found"
  | interrupted => "operation interrupted"

end ErrorKind

/-- A failure of a read. -/
structure ReadError where
  /-- The kind of failure. -/
  kind : ErrorKind
  /-- What is known about this failure in particular. -/
  detail? : Option String := none
  deriving DecidableEq, Repr, Inhabited

namespace ReadError

/-- Why the read failed. -/
def reason (e : ReadError) : String :=
  e.detail?.getD e.kind.description

/-- The message that reports the failure. -/
def message (e : ReadError) : String :=
  "failed to read query input: " ++ e.reason

end ReadError

/-- An answer that a reader has ready. -/
inductive Chunk
  /-- Some bytes, possibly none. -/
  | data (bytes : List UInt8)
  /-- A failure. -/
  | fail (e : ReadError)
  deriving Repr

/-- The answers that a reader has ready.  After the last of them it is at its end for ever. -/
abbrev Reader := List Chunk

namespace Reader

/-- The number of bytes that a reader has ready. -/
def size : Reader → Nat
  | [] => 0
  | .data bytes :: rest => bytes.length + size rest
  | .fail _ :: rest => size rest

@[simp] theorem size_nil : size [] = 0 := rfl

@[simp] theorem size_data_cons (bytes : List UInt8) (rest : Reader) :
    size (.data bytes :: rest) = bytes.length + size rest := rfl

@[simp] theorem size_fail_cons (e : ReadError) (rest : Reader) :
    size (.fail e :: rest) = size rest := rfl

/-- Asks for up to `limit` bytes.  An answer of data that does not fit is taken in part. -/
def read (limit : Nat) : Reader → Except ReadError (List UInt8) × Reader
  | [] => (.ok [], [])
  | .fail e :: rest => (.error e, rest)
  | .data bytes :: rest =>
    let left := bytes.drop limit
    (.ok (bytes.take limit), if left.isEmpty then rest else .data left :: rest)

/-- The number of bytes that are asked for at a time. -/
def blockSize : Nat := 8192

/-- The next block of data.  A read that is interrupted is tried again. -/
def fill : Reader → Except ReadError (List UInt8) × Reader
  | .fail e :: rest => if e.kind = .interrupted then fill rest else (.error e, rest)
  | reader => reader.read blockSize

/-- A block takes as many bytes from the reader as it holds. -/
theorem size_read (limit : Nat) (reader : Reader) :
    ((read limit reader).1.toOption.getD []).length + size (read limit reader).2 = size reader := by
  cases reader with
  | nil => rfl
  | cons chunk rest =>
    cases chunk with
    | fail e => simp [read, Except.toOption]
    | data bytes =>
      have h : (bytes.take limit).length + (bytes.drop limit).length = bytes.length := by
        rw [← List.length_append, List.take_append_drop]
      by_cases hl : (bytes.drop limit).isEmpty
      · have : (bytes.drop limit).length = 0 := List.length_eq_zero_iff.2 (List.isEmpty_iff.1 hl)
        simp only [read, hl, if_true, Except.toOption, Option.getD_some, size_data_cons]
        omega
      · simp only [read, hl, Bool.false_eq_true, if_false, Except.toOption, Option.getD_some,
          size_data_cons]
        omega

theorem size_fill (reader : Reader) :
    ((fill reader).1.toOption.getD []).length + size (fill reader).2 = size reader := by
  fun_induction fill reader with
  | case1 e rest h ih => simpa using ih
  | case2 e rest h => simp [Except.toOption]
  | case3 reader h => exact size_read blockSize reader

end Reader

end BooleanSearch
