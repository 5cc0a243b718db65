import DockerfileLint.Proofs.Cursors
import DockerfileLint.Proofs.Splicing

/-!
# The stream before a cursor

A cursor reads what lies between its place and its bound, less the continuations in
between: its stream, in which every character has its offset.  On the stream the operations
are those of lists.  A word is the longest prefix without white space; whatever a cursor
goes past, it is left before the first character of the stream that it did not take, or at
its bound.

Dropping continuations is done once, from left to right.  What is dropped can leave an escape
character in front of a line break, and this pair is read as two characters.  Of a line break
that runs across the bound only the part within counts.

* `readWhile_taken_spliced`, `readWhile_stop_spliced`, `spliced_readWhile_rest`: a movement
  divides the stream of what is left of a text;
* `InBounds.readWhile_consumes`: and so does every movement of a cursor;
* `operations_on_stream`: the three operations.
-/

namespace DockerfileLint

/-! ## What a movement does to the stream -/

/-- A movement takes the longest prefix of wanted characters, with their offsets. -/
theorem readWhile_taken_spliced (esc : Escape) (keep : Char → Bool) (off : Nat)
    (cs : List Char) :
    (readWhile esc keep off cs).taken = (spliced esc off cs).takeWhile fun p => keep p.1 := by
  induction off, cs using splicing_induction esc with
  | splice off cs n rest h ih =>
      rw [readWhile_of_continuation? h, spliced_of_continuation? h, ih]
  | nil off => simp
  | char off c cs h ih =>
      rw [spliced_cons h]
      cases hk : keep c with
      | true => simp [readWhile_cons_of_keep h hk, hk, ih]
      | false => simp [readWhile_cons_of_not_keep h hk, hk]

/-- What it leaves of the text has the rest of the stream. -/
theorem spliced_readWhile_rest (esc : Escape) (keep : Char → Bool) (off : Nat)
    (cs : List Char) :
    spliced esc (readWhile esc keep off cs).stop (readWhile esc keep off cs).rest =
      (spliced esc off cs).dropWhile fun p => keep p.1 := by
  induction off, cs using splicing_induction esc with
  | splice off cs n rest h ih =>
      rw [readWhile_of_continuation? h, spliced_of_continuation? h, ih]
  | nil off => simp
  | char off c cs h ih =>
      cases hk : keep c with
      | true => simp [spliced_cons h, readWhile_cons_of_keep h hk, hk, ih]
      | false => simp [spliced_cons h, readWhile_cons_of_not_keep h hk, hk]

/-- The offset of the first character of what is left of a stream, and `stop` if nothing
is. -/
def firstOffset (stop : Nat) (left : List (Char × Nat)) : Nat :=
  left.head?.elim stop Prod.snd

/-- A movement stops at the first character that it does not take. -/
theorem readWhile_stop_spliced (esc : Escape) (keep : Char → Bool) (off : Nat)
    (cs : List Char) :
    (readWhile esc keep off cs).stop =
      firstOffset (off + cs.length) ((spliced esc off cs).dropWhile fun p => keep p.1) := by
  have hlength := readWhile_stop_add esc keep off cs
  rw [← spliced_readWhile_rest]
  cases hrest : (readWhile esc keep off cs).rest with
  | nil =>
      rw [hrest, List.length_nil, Nat.add_zero] at hlength
      rw [spliced_nil, hlength]
      rfl
  | cons c rest =>
      -- No continuation stands where a movement stops, so the stream starts right there.
      rw [spliced_cons (readWhile_rest_head hrest).1]
      rfl

namespace Cursor

/-! ## What a cursor does to its stream -/

/-- The characters from a cursor to its bound, with their offsets, less the continuations.
An escape that is not a single character continues nothing. -/
def stream (c : Cursor) : List (Char × Nat) :=
  spliced c.esc c.offset ((c.text.take c.stop).drop c.offset)

/-- From one cursor to the other the longest prefix of wanted characters of the stream is
gone past: the second one stands before the first of the others, or at the bound. -/
structure Consumes (c : Cursor) (keep : Char → Bool) (d : Cursor) : Prop where
  place : d = c.seek (firstOffset c.stop (c.stream.dropWhile fun p => keep p.1))
  stream : d.stream = c.stream.dropWhile fun p => keep p.1
  le_offset : c.offset ≤ d.offset
  offset_le : d.offset ≤ c.stop

/-- Every movement of a cursor within its bounds takes the longest prefix of wanted
characters. -/
theorem InBounds.readWhile_consumes {c : Cursor} (h : c.InBounds) (keep : Char → Bool) :
    ∃ d, c.readWhile keep = .ok (c.stream.takeWhile fun p => keep p.1, d) ∧
      c.Consumes keep d := by
  have hreads := h.reads
  have honward := onward_readWhile c.esc keep c.offset ((c.text.take c.stop).drop c.offset)
  have hbehind := hreads.seek honward
  have hstop := readWhile_stop_spliced c.esc keep c.offset ((c.text.take c.stop).drop c.offset)
  rw [hreads.add_length] at hstop
  refine ⟨_, ?_, congrArg c.seek hstop, ?_, honward.le, hbehind.offset_le⟩
  · rw [hreads.readWhile, readWhile_taken_spliced]
    rfl
  · unfold Cursor.stream
    rw [← spliced_readWhile_rest, hbehind.rest_eq]
    rfl

/-- **The operations of a cursor on its stream.**  Of a cursor that stands within its bound,
and its bound within the text, whatever its escape: reading a word gives the characters of
the longest prefix of the stream without white space, and the offset just past the last of
them, or where the cursor stood if there is none; the other two operations go past the
characters of the stream up to a line break, and past blanks.  Each of the three leaves the
cursor before the first character of the stream that it did not go past, and at the bound
if there is none. -/
theorem operations_on_stream (text : List Char) (escape : String) {offset stop : Nat}
    (hoffset : offset ≤ stop) (hstop : stop ≤ text.length) :
    let c : Cursor := ⟨text, escape, offset, stop⟩
    let word := c.stream.takeWhile fun p => !isSpace p.1
    (∃ d, c.readWord = .ok ((String.ofList (word.map Prod.fst),
        word.getLast?.elim offset fun p => p.2 + 1), d) ∧
      c.Consumes (fun ch => !isSpace ch) d) ∧
      (∃ d, c.skipToLineBreak = .ok d ∧ c.Consumes (fun ch => !isBreak ch) d) ∧
      ∃ d, c.skipBlanks = .ok d ∧ c.Consumes isBlank d := by
  intro c word
  have hbounds : c.InBounds := ⟨hoffset, hstop⟩
  refine ⟨?_, ?_, ?_⟩
  · obtain ⟨d, hread, hconsumes⟩ := hbounds.readWhile_consumes fun ch => !isSpace ch
    refine ⟨d, ?_, hconsumes⟩
    unfold Cursor.readWord
    rw [hread]
    show Except.ok _ = Except.ok _
    cases hlast : word.getLast? <;> simp [word, hlast, c]
  · obtain ⟨d, hread, hconsumes⟩ := hbounds.readWhile_consumes fun ch => !isBreak ch
    refine ⟨d, ?_, hconsumes⟩
    unfold Cursor.skipToLineBreak
    rw [hread]
    rfl
  · obtain ⟨d, hread, hconsumes⟩ := hbounds.readWhile_consumes isBlank
    refine ⟨d, ?_, hconsumes⟩
    unfold Cursor.skipBlanks
    rw [hread]
    rfl

/-- Two escape characters in front of two line feeds, and a continuation whose line break is
two characters. -/
def doubledEscapes : List Char := "a\\\\\n\nb\\\r\n".toList

/-- In `doubledEscapes` one of the two escape characters continues the line; the other one
then stands in front of a line feed in the stream, which ends the word.  A bound within the
last line break leaves a continuation in front of it. -/
theorem operations_on_stream_doubledEscapes :
    let c : Cursor := ⟨doubledEscapes, "\\", 0, 8⟩
    let d : Cursor := ⟨doubledEscapes, "\\", 5, 8⟩
    0 ≤ 8 ∧ 5 ≤ 8 ∧ 8 ≤ doubledEscapes.length ∧
      c.stream = [('a', 0), ('\\', 1), ('\n', 4), ('b', 5)] ∧
      c.readWord = .ok (("a\\", 2), c.seek 4) ∧ c.skipToLineBreak = .ok (c.seek 4) ∧
      d.stream = [('b', 5)] ∧ d.readWord = .ok (("b", 6), d.seek 8) := by
  intro c d
  have hbound : 8 ≤ doubledEscapes.length := by
    decide
  have hstream : c.stream = [('a', 0), ('\\', 1), ('\n', 4), ('b', 5)] := by
    decide +kernel
  have hstream' : d.stream = [('b', 5)] := by
    decide +kernel
  obtain ⟨⟨c', hword, hplace⟩, ⟨c'', hline, hplace'⟩, -⟩ :=
    operations_on_stream doubledEscapes "\\" (Nat.zero_le 8) hbound
  obtain ⟨⟨d', hword', hbehind⟩, -⟩ :=
    operations_on_stream doubledEscapes "\\" (by decide : 5 ≤ 8) hbound
  have hplace := hplace.place
  have hplace' := hplace'.place
  have hbehind := hbehind.place
  rw [hstream] at hword hplace hplace'
  rw [hstream'] at hword' hbehind
  rw [hplace] at hword
  rw [hplace'] at hline
  rw [hbehind] at hword'
  exact ⟨by decide, by decide, hbound, hstream, hword, hline, hstream', hword'⟩

end Cursor

end DockerfileLint
