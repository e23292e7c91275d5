import BooleanSearch.Proofs.Sources

/-!
# What a reader delivers

A reader that never pauses delivers the characters of its bytes, or else its first failure.  How
the bytes were cut into pieces, where the blocks of the source end and where a read was interrupted
makes no difference.

## Main definitions

* `Reader.bytes`, `Reader.failure?` — all bytes of a reader, and its first failure.
* `Reader.NeverPauses` — no end of the input comes before the last one.

## Main results

* `readSource_decode` — a byte source reads as the answers that its events are decoded to.
* `parseReader_delivered` — **the tree of a reader is that of the characters of its bytes.**
-/

namespace BooleanSearch

namespace Reader

/-- All bytes of a reader. -/
def bytes : Reader → List UInt8
  | [] => []
  | .data piece :: rest => piece ++ bytes rest
  | .fail _ :: rest => bytes rest

/-- The first failure that is no interruption. -/
def failure? : Reader → Option ReadError
  | [] => none
  | .data _ :: rest => failure? rest
  | .fail e :: rest => if e.kind = .interrupted then failure? rest else some e

/-- No piece is without bytes, so the input is not at its end before the last piece. -/
def NeverPauses (reader : Reader) : Prop :=
  ∀ chunk ∈ reader, chunk ≠ .data []

/-- Without a failure, the events are the bytes. -/
theorem events_of_failure?_eq_none {reader : Reader} (hpause : reader.NeverPauses)
    (hfail : reader.failure? = none) : reader.events = reader.bytes.map .byte := by
  induction reader with
  | nil => rfl
  | cons chunk rest ih =>
    obtain ⟨hchunk, hrest⟩ := List.forall_mem_cons.1 hpause
    cases chunk with
    | data piece =>
      have hpiece : piece ≠ [] := fun h => hchunk (congrArg Chunk.data h)
      rw [events_data hpiece, ih hrest hfail, bytes, List.map_append]
    | fail e =>
      rw [failure?] at hfail
      split at hfail
      · next he => rw [events, if_pos he, ih hrest hfail, bytes]
      · cases hfail

/-- The first failure is met after some bytes. -/
theorem events_of_failure?_eq_some {reader : Reader} (hpause : reader.NeverPauses)
    {e : ReadError} (hfail : reader.failure? = some e) :
    ∃ (before : List UInt8) (rest : ByteFeed),
      reader.events = before.map .byte ++ .fail e :: rest := by
  induction reader with
  | nil => cases hfail
  | cons chunk rest ih =>
    obtain ⟨hchunk, hrest⟩ := List.forall_mem_cons.1 hpause
    cases chunk with
    | data piece =>
      have hpiece : piece ≠ [] := fun h => hchunk (congrArg Chunk.data h)
      obtain ⟨before, after, hevents⟩ := ih hrest hfail
      refine ⟨piece ++ before, after, ?_⟩
      rw [events_data hpiece, hevents, List.map_append, List.append_assoc]
    | fail e' =>
      rw [failure?] at hfail
      split at hfail
      · next he =>
        rw [events, if_pos he]
        exact ih hrest hfail
      · next he =>
        cases hfail
        exact ⟨[], events rest, by rw [events, if_neg he]; rfl⟩

end Reader

/-! ### Reading what is delivered -/

/-- A byte source reads as the answers that its events are decoded to. -/
theorem readSource_decode (reader : Reader) :
    (readSource (ByteSource.ofReader reader)).1 = (readSource reader.events.decode).1 := by
  have h := ByteSource.keepsAnswers_decode.readSource (ByteSource.ofReader reader)
  have hevents : (ByteSource.ofReader reader).events = reader.events := rfl
  rw [hevents] at h
  rw [h]

/-- Characters read as the string that they make up. -/
theorem readSource_map_char {ε : Type} (cs : List Char) :
    (readSource (cs.map .char : Feed ε)).1 = .ok (readString (String.ofList cs)) := by
  have h : (Scanner.tokens { source := (cs.map .char : Feed ε) }).1 = .ok (lexemes cs) :=
    tokens_eq_lexemes rfl
  rw [readSource_eq, h, readString_eq, tokenize_eq, String.toList_ofList]
  rfl

/-- A failure ahead is what is read. -/
theorem readSource_fail {ε : Type} (cs : List Char) (e : ε) (rest : Feed ε) :
    (readSource (cs.map .char ++ .fail e :: rest)).1 = .error e := by
  have h : (Scanner.tokens { source := cs.map .char ++ .fail e :: rest }).1 = .error e :=
    Scanner.tokens_fail rfl
  rw [readSource_eq, h]
  rfl

theorem parseReader_of_failure?_eq_none {reader : Reader} (hpause : reader.NeverPauses)
    (hfail : reader.failure? = none) :
    parseReader reader = .ok (parse (String.ofList (Utf8.characters reader.bytes))) := by
  rw [parseReader, readSource_decode, Reader.events_of_failure?_eq_none hpause hfail,
    ByteFeed.decode_bytes, readSource_map_char]
  rfl

theorem parseReader_of_failure?_eq_some {reader : Reader} (hpause : reader.NeverPauses)
    {e : ReadError} (hfail : reader.failure? = some e) : parseReader reader = .error e := by
  obtain ⟨before, rest, hevents⟩ := Reader.events_of_failure?_eq_some hpause hfail
  obtain ⟨cs, rest', hdecode⟩ := ByteFeed.decode_fail before e rest
  rw [parseReader, readSource_decode, hevents, hdecode, readSource_fail]
  rfl

/-- The bytes of a string are delivered as the string. -/
theorem characters_toUTF8 (s : String) :
    String.ofList (Utf8.characters s.toUTF8.data.toList) = s := by
  have hbytes : s.toUTF8.data.toList = s.toList.flatMap String.utf8EncodeChar := by
    rw [String.toUTF8_eq_toByteArray, ← String.utf8Encode_toList, List.utf8Encode,
      List.toList_data_toByteArray]
  rw [hbytes, Utf8.characters_flatMap_encode, String.ofList_toList]

/-- **The tree of a reader is that of the characters of its bytes**, or its first failure.  Cuts
and interruptions make no difference, and the bytes of a string give the tree of the string. -/
theorem parseReader_delivered :
    (∀ reader : Reader, reader.NeverPauses →
      parseReader reader
        = match reader.failure? with
          | some e => .error e
          | none => .ok (parse (String.ofList (Utf8.characters reader.bytes)))) ∧
      (∀ reader reader' : Reader, reader.NeverPauses → reader'.NeverPauses →
        reader.bytes = reader'.bytes → reader.failure? = reader'.failure? →
          parseReader reader = parseReader reader') ∧
      ∀ (s : String) (reader : Reader), reader.NeverPauses →
        reader.bytes = s.toUTF8.data.toList → reader.failure? = none →
          parseReader reader = .ok (parse s) := by
  have hmain (reader : Reader) (hpause : reader.NeverPauses) :
      parseReader reader
        = match reader.failure? with
          | some e => .error e
          | none => .ok (parse (String.ofList (Utf8.characters reader.bytes))) := by
    cases hfail : reader.failure? with
    | none => exact parseReader_of_failure?_eq_none hpause hfail
    | some e => exact parseReader_of_failure?_eq_some hpause hfail
  refine ⟨hmain, ?_, ?_⟩
  · intro reader reader' hpause hpause' hbytes hfail
    rw [hmain reader hpause, hmain reader' hpause', hbytes, hfail]
  · intro s reader hpause hbytes hfail
    rw [parseReader_of_failure?_eq_none hpause hfail, hbytes, characters_toUTF8]

/-- A character cut by an interruption, and a failure behind one. -/
theorem parseReader_delivered_cafe :
    parseReader [.data [0x63, 0x61, 0x66, 0xC3], .fail { kind := .interrupted }, .data [0xA9]]
        = .ok (parse "café") ∧
      parseReader [.data [0x63, 0x61, 0x66, 0xC3], .fail { kind := .interrupted }, .data [0xA9]]
        = parseReader [.data [0x63, 0x61, 0x66, 0xC3, 0xA9]] ∧
      parseReader [.fail { kind := .interrupted }, .data [0x63], .fail { kind := .timedOut }]
        = .error { kind := .timedOut } := by
  have hcut : Reader.NeverPauses
      [.data [0x63, 0x61, 0x66, 0xC3], .fail { kind := .interrupted }, .data [0xA9]] := by
    simp [Reader.NeverPauses]
  have hwhole : Reader.NeverPauses [.data [0x63, 0x61, 0x66, 0xC3, 0xA9]] := by
    simp [Reader.NeverPauses]
  have hlate : Reader.NeverPauses
      [.fail { kind := .interrupted }, .data [0x63], .fail { kind := .timedOut }] := by
    simp [Reader.NeverPauses]
  refine ⟨?_, ?_, ?_⟩
  · exact parseReader_delivered.2.2 "café" _ hcut (by decide +kernel) rfl
  · exact parseReader_delivered.2.1 _ _ hcut hwhole rfl rfl
  · exact parseReader_delivered.1 _ hlate

end BooleanSearch
