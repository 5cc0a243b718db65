import DockerfileLint.Instruction.Argument
import DockerfileLint.Proofs.Cursors
import DockerfileLint.Proofs.Places

/-!
# The parser along a cursor

The parser and the search for arguments once more, as loops that move a cursor and read
one character after the other.  Each comes to the result that the recursion over what is
left of the text has: it ends, no character is missing, and the cursor goes onward and
stays within its bound.
-/

namespace DockerfileLint

variable {c : Cursor} {esc : Escape} {off : Nat} {cs : List Char}

/-! ## Instructions -/

/-- One round of the parser: white space, a comment, a word that is none, or an
instruction.  The instructions found before come last first. -/
def parseRound (s : List Instruction × Cursor) :
    Attempt (List Instruction × Cursor ⊕ List Instruction) := do
  let (found, c) := s
  if c.done then
    return .inr found.reverse
  let ch ← c.char
  if isSpace ch then
    return .inl (found, ← c.moveTo (c.advance 1))
  else if ch = '#' then
    return .inl (found, ← c.moveTo (← c.skipToLineBreak))
  else
    let ((word, nameStop), behind) ← c.readWord
    let behind ← c.moveTo behind
    if word = "" then
      return .inl (found, behind)
    else
      let last ← behind.moveTo (← behind.skipToLineBreak)
      let i : Instruction :=
        { written := word
          content := (c.text.drop c.offset).take (last.offset - c.offset)
          span := ⟨c.offset, last.offset⟩
          nameSpan := ⟨c.offset, nameStop⟩ }
      return .inl (i :: found, last)

/-- A word is empty if nothing was taken for it. -/
theorem Reading.text_eq_empty_iff (r : Reading) : r.text = "" ↔ r.taken = [] := by
  rw [← String.toList_inj]
  simp [Reading.text]

/-- The text under a span that a cursor may read is what is left there. -/
theorem Cursor.Reads.slice {stop : Nat} {rest : List Char} (h : c.Reads esc off cs)
    (honward : Onward off cs stop rest) :
    (c.text.drop off).take (stop - off) = cs.take (stop - off) := by
  have hstop := (h.seek honward).offset_le
  rw [Cursor.seek_offset, Cursor.seek_stop] at hstop
  rw [← h.rest_eq, h.offset_eq, List.drop_take, List.take_take, Nat.min_eq_left (by omega)]

/-- **Parsing along a cursor** finds the instructions of what is left of the text. -/
theorem loop_parseRound (h : c.Reads esc off cs) (found : List Instruction) :
    loop parseRound (found, c) = pure (found.reverse ++ instructionsFrom esc off cs) := by
  induction off, cs using parsing_induction esc generalizing c found with
  | nil off =>
      rw [instructionsFrom_nil, List.append_nil]
      refine loop_done ?_
      simp only [parseRound, h.done_nil, if_true]
  | space off ch cs hspace ih =>
      rw [instructionsFrom_of_isSpace hspace, ← ih h.advance]
      refine loop_again ?_
      simp [parseRound, h.done_cons, h.char, hspace, h.advance_eq, h.moveTo_advance]
  | comment off cs ih =>
      have honward := onward_readLine esc off ('#' :: cs)
      rw [instructionsFrom_of_mark, ← ih (h.seek honward)]
      refine loop_again ?_
      simp [parseRound, h.done_cons, h.char, show isSpace '#' = false from rfl,
        h.skipToLineBreak, h.moveTo honward]
  | joint off ch cs hspace hmark hword ih =>
      have honward := onward_readWord esc off (ch :: cs)
      rw [instructionsFrom_of_joint hspace hmark hword, ← ih (h.seek honward)]
      refine loop_again ?_
      simp [parseRound, h.done_cons, h.char, hspace, hmark, h.readWord, h.moveTo honward,
        Reading.text_eq_empty_iff, hword]
  | word off ch cs hspace hmark hword ih =>
      have honward := onward_readWord esc off (ch :: cs)
      have hline := onward_readLine esc off (ch :: cs)
      have hbehind := h.seek honward
      have hlast := hbehind.moveTo (onward_readLine esc _ _)
      rw [(readLine_behind_word esc off (ch :: cs)).1] at hlast
      have hslice := h.slice hline
      have hfound : found.reverse ++ readInstruction esc off (ch :: cs) ::
          instructionsFrom esc (readLine esc off (ch :: cs)).stop
            (readLine esc off (ch :: cs)).rest =
          (readInstruction esc off (ch :: cs) :: found).reverse ++
            instructionsFrom esc (readLine esc off (ch :: cs)).stop
              (readLine esc off (ch :: cs)).rest := by
        rw [List.reverse_cons, List.append_assoc, List.singleton_append]
      rw [instructionsFrom_of_word hspace hmark hword, hfound, ← ih (h.seek hline)]
      refine loop_again ?_
      simp [parseRound, h.done_cons, h.char, hspace, hmark, h.readWord, h.moveTo honward,
        Reading.text_eq_empty_iff, hword, hbehind.skipToLineBreak,
        (readLine_behind_word esc off (ch :: cs)).1, hlast, h.offset_eq, hslice, readInstruction]
      rfl

/-- Parses a text along a cursor. -/
noncomputable def Dockerfile.parseAlong (text : List Char) : Attempt Dockerfile := do
  let directive := Directive.parse? text
  let body := DockerfileLint.bodyOffset directive
  let start := Cursor.onText text (escapeOf directive) body text.length
  return { directive, instructions := ← loop parseRound ([], start) }

/-- **The parser along a cursor** comes to the parsed document. -/
theorem Dockerfile.parseAlong_eq (text : List Char) :
    Dockerfile.parseAlong text = pure (Dockerfile.parse text) := by
  have hstart := Cursor.Reads.onText_rest (escapeOf (Directive.parse? text)) (bodyOffset_le text)
  have hloop : loop parseRound ([], Cursor.onText text (escapeOf (Directive.parse? text))
      (DockerfileLint.bodyOffset (Directive.parse? text)) text.length) =
        pure (Dockerfile.parse text).instructions :=
    loop_parseRound hstart []
  unfold parseAlong
  simp only [hloop]
  rfl

/-! ## Whether there are arguments -/

/-- One round of the search for arguments in a document of `finish` characters. -/
def presentRound (finish : Nat) (c : Cursor) : Attempt (Cursor ⊕ Bool) := do
  if c.done then
    return .inr false
  let (joined, behind) ← c.skipContinuation
  if joined then
    let behind ← c.moveTo behind
    return if finish ≤ behind.offset then .inr true else .inl behind
  else
    let ch ← c.char
    if isSpace ch then
      return .inl (← c.moveTo (c.advance 1))
    else
      return .inr true

/-- **The search for arguments along a cursor** finds whether there are any. -/
theorem loop_presentRound (finish : Nat) (h : c.Reads esc off cs) :
    loop (presentRound finish) c = pure (argumentsPresent esc finish off cs) := by
  induction off, cs using splicing_induction esc generalizing c with
  | splice off cs n rest hcont ih =>
      have honward := onward_of_continuation? off hcont
      rw [argumentsPresent_of_continuation? hcont]
      cases cs with
      | nil => cases hcont
      | cons ch cs =>
          by_cases hfinish : finish ≤ off + n
          · rw [if_pos hfinish]
            refine loop_done ?_
            simp [presentRound, h.done_cons, h.skipContinuation_some hcont, h.moveTo honward,
              hfinish]
          · rw [if_neg hfinish, ← ih (h.seek honward)]
            refine loop_again ?_
            simp [presentRound, h.done_cons, h.skipContinuation_some hcont, h.moveTo honward,
              hfinish]
  | nil off =>
      rw [argumentsPresent_nil]
      refine loop_done ?_
      simp [presentRound, h.done_nil]
  | char off ch cs hcont ih =>
      rw [argumentsPresent_cons hcont]
      cases hspace : isSpace ch with
      | true =>
          rw [if_pos rfl, ← ih h.advance]
          refine loop_again ?_
          simp [presentRound, h.done_cons, h.skipContinuation_none hcont, h.char, hspace,
            h.advance_eq, h.moveTo_advance]
      | false =>
          refine loop_done ?_
          simp [presentRound, h.done_cons, h.skipContinuation_none hcont, h.char, hspace]

/-- Whether an instruction of a text has arguments, by a cursor over their place. -/
noncomputable def Instruction.hasArgumentsAlong (i : Instruction) (text : List Char)
    (escape : String) : Attempt Bool :=
  loop (presentRound text.length) ⟨text, escape, i.argumentsSpan.start, i.argumentsSpan.stop⟩

/-- The cursor finds arguments where there are any, whatever is given as its escape
character. -/
theorem Instruction.hasArgumentsAlong_eq {text : List Char} {i : Instruction}
    (hi : i ∈ (Dockerfile.parse text).instructions) (escape : String) :
    i.hasArgumentsAlong text escape =
      pure (i.hasArguments (Escape.ofString escape) text.length) := by
  obtain ⟨-, -, -, hname, hstop⟩ := instruction_within hi
  have hreads := Cursor.Reads.part escape hname hstop
  obtain ⟨off, ch, rest, honward, -, -, hword, rfl⟩ := mem_parse_instructions hi
  unfold hasArguments
  rw [argumentsText_eq_drop (honward.eq_drop_text rfl) hword]
  exact loop_presentRound text.length hreads

end DockerfileLint
