import DockerfileLint.Instruction
import DockerfileLint.Proofs.Movement
import DockerfileLint.Scan

/-!
# The steps of the two passes

The parser and the structural scan both go through a text in steps: a character
of white space, a comment, a continuation that joins nothing to anything, or a
word with what is behind it.  Each kind of step has one equation for either pass,
and each pass has an induction principle with one case for each kind of step.
Nothing later unfolds the loops.

The parser sees one more thing than its instructions, namely the comments between
them; `partsFrom` is the same loop with both.
-/

namespace DockerfileLint

variable {esc : Escape} {keywords : List String} {off : Nat} {c : Char} {cs : List Char}

/-! ## The parser -/

/-- The instruction whose keyword is read from here. -/
def readInstruction (esc : Escape) (off : Nat) (cs : List Char) : Instruction :=
  let word := readWord esc off cs
  let line := readLine esc off cs
  { written := word.text
    content := cs.take (line.stop - off)
    span := ⟨off, line.stop⟩
    nameSpan := ⟨off, word.reach off⟩ }

/-- The rest of the line behind a word is the rest of the line. -/
theorem readLine_behind_word (esc : Escape) (off : Nat) (cs : List Char) :
    let word := readWord esc off cs
    (readLine esc word.stop word.rest).stop = (readLine esc off cs).stop ∧
      (readLine esc word.stop word.rest).rest = (readLine esc off cs).rest := by
  have hword : ∀ c, (!isSpace c) = true → (!isBreak c) = true := by
    simp [isSpace]
  have h := readWhile_trans esc hword off cs
  exact ⟨(congrArg Reading.stop h).symm, (congrArg Reading.rest h).symm⟩

/-- An empty text has no instructions. -/
@[simp] theorem instructionsFrom_nil : instructionsFrom esc off [] = [] := by
  rw [instructionsFrom]

/-- White space before an instruction is passed. -/
theorem instructionsFrom_of_isSpace (h : isSpace c = true) :
    instructionsFrom esc off (c :: cs) = instructionsFrom esc (off + 1) cs := by
  rw [instructionsFrom]
  simp [h]

/-- A comment is passed, with the lines that continue it. -/
theorem instructionsFrom_of_mark :
    instructionsFrom esc off ('#' :: cs) =
      instructionsFrom esc (readLine esc off ('#' :: cs)).stop
        (readLine esc off ('#' :: cs)).rest := by
  rw [instructionsFrom]
  simp [show isSpace '#' = false from rfl]

/-- Continuations with no word behind them are passed. -/
theorem instructionsFrom_of_joint (hspace : isSpace c = false) (hmark : c ≠ '#')
    (hword : (readWord esc off (c :: cs)).taken = []) :
    instructionsFrom esc off (c :: cs) =
      instructionsFrom esc (readWord esc off (c :: cs)).stop
        (readWord esc off (c :: cs)).rest := by
  rw [instructionsFrom]
  simp [hspace, hmark, hword]

/-- A word is the keyword of an instruction, and the next one comes behind its line. -/
theorem instructionsFrom_of_word (hspace : isSpace c = false) (hmark : c ≠ '#')
    (hword : (readWord esc off (c :: cs)).taken ≠ []) :
    instructionsFrom esc off (c :: cs) =
      readInstruction esc off (c :: cs) ::
        instructionsFrom esc (readLine esc off (c :: cs)).stop
          (readLine esc off (c :: cs)).rest := by
  obtain ⟨hstop, hrest⟩ := readLine_behind_word esc off (c :: cs)
  rw [instructionsFrom]
  simp [hspace, hmark, hword, hstop, hrest, readInstruction]

/-- A step of the parser at a character that is no white space leaves less than it
found. -/
theorem readLine_rest_length_lt (hspace : isSpace c = false) :
    (readLine esc off (c :: cs)).rest.length < (c :: cs).length := by
  apply readWhile_rest_length_lt
  simp [isBreak_eq_false_of_isSpace hspace]

/-- A text is taken apart by the steps of the parser. -/
theorem parsing_induction (esc : Escape) {motive : Nat → List Char → Prop}
    (nil : ∀ off, motive off [])
    (space : ∀ off c cs, isSpace c = true → motive (off + 1) cs → motive off (c :: cs))
    (comment : ∀ off cs,
      motive (readLine esc off ('#' :: cs)).stop (readLine esc off ('#' :: cs)).rest →
      motive off ('#' :: cs))
    (joint : ∀ off c cs, isSpace c = false → c ≠ '#' →
      (readWord esc off (c :: cs)).taken = [] →
      motive (readWord esc off (c :: cs)).stop (readWord esc off (c :: cs)).rest →
      motive off (c :: cs))
    (word : ∀ off c cs, isSpace c = false → c ≠ '#' →
      (readWord esc off (c :: cs)).taken ≠ [] →
      motive (readLine esc off (c :: cs)).stop (readLine esc off (c :: cs)).rest →
      motive off (c :: cs))
    (off : Nat) (cs : List Char) : motive off cs := by
  induction hn : cs.length using Nat.strongRecOn generalizing off cs with
  | _ n ih =>
    subst hn
    match cs with
    | [] => exact nil off
    | c :: cs =>
      cases hspace : isSpace c with
      | true => exact space off c cs hspace (ih _ (by simp) _ _ rfl)
      | false =>
        by_cases hmark : c = '#'
        · subst hmark
          exact comment off cs (ih _ (readLine_rest_length_lt hspace) _ _ rfl)
        · by_cases hword : (readWord esc off (c :: cs)).taken = []
          · refine joint off c cs hspace hmark hword (ih _ ?_ _ _ rfl)
            exact readWhile_rest_length_lt off (by simpa using hspace)
          · exact word off c cs hspace hmark hword
              (ih _ (readLine_rest_length_lt hspace) _ _ rfl)

/-- Every instruction was read somewhere in the text. -/
theorem mem_instructionsFrom {i : Instruction} {off : Nat} {cs : List Char}
    (h : i ∈ instructionsFrom esc off cs) :
    ∃ start c rest, Onward off cs start (c :: rest) ∧ isSpace c = false ∧ c ≠ '#' ∧
      (readWord esc start (c :: rest)).taken ≠ [] ∧ i = readInstruction esc start (c :: rest) := by
  induction off, cs using parsing_induction esc with
  | nil off => simp at h
  | space off c cs hspace ih =>
      rw [instructionsFrom_of_isSpace hspace] at h
      obtain ⟨start, d, rest, honward, hread⟩ := ih h
      exact ⟨start, d, rest, honward.cons c, hread⟩
  | comment off cs ih =>
      rw [instructionsFrom_of_mark] at h
      obtain ⟨start, d, rest, honward, hread⟩ := ih h
      exact ⟨start, d, rest, (onward_readLine esc off _).trans honward, hread⟩
  | joint off c cs hspace hmark hword ih =>
      rw [instructionsFrom_of_joint hspace hmark hword] at h
      obtain ⟨start, d, rest, honward, hread⟩ := ih h
      exact ⟨start, d, rest, (onward_readWord esc off _).trans honward, hread⟩
  | word off c cs hspace hmark hword ih =>
      rw [instructionsFrom_of_word hspace hmark hword] at h
      rcases List.mem_cons.mp h with rfl | h
      · exact ⟨off, c, cs, Onward.refl off _, hspace, hmark, hword, rfl⟩
      · obtain ⟨start, d, rest, honward, hread⟩ := ih h
        exact ⟨start, d, rest, (onward_readLine esc off _).trans honward, hread⟩

/-- A document has one of two escape characters. -/
theorem escape_cases (text : List Char) :
    (Dockerfile.parse text).escape = '`' ∨ (Dockerfile.parse text).escape = '\\' := by
  show escapeOf (Directive.parse? text) = '`' ∨ escapeOf (Directive.parse? text) = '\\'
  cases Directive.parse? text with
  | none => exact .inr rfl
  | some d =>
      show d.escape = '`' ∨ d.escape = '\\'
      unfold Directive.escape
      split
      · exact .inl rfl
      · exact .inr rfl

/-- The escape character of a document is not what a comment starts with. -/
theorem escape_ne_mark (text : List Char) : (Dockerfile.parse text).escape ≠ '#' := by
  rcases escape_cases text with hesc | hesc <;> rw [hesc] <;> decide

/-- The escape character of a document is no white space. -/
theorem visible_escape (text : List Char) :
    Escape.Visible (some (Dockerfile.parse text).escape) := by
  apply Escape.visible_some
  rcases escape_cases text with hesc | hesc <;> rw [hesc] <;> rfl

/-- Every instruction of a document was read somewhere behind its directive. -/
theorem mem_parse_instructions {i : Instruction} {text : List Char}
    (h : i ∈ (Dockerfile.parse text).instructions) :
    let file := Dockerfile.parse text
    ∃ start c rest,
      Onward file.bodyOffset (text.drop file.bodyOffset) start (c :: rest) ∧
      isSpace c = false ∧ c ≠ '#' ∧ (readWord (some file.escape) start (c :: rest)).taken ≠ [] ∧
      i = readInstruction (some file.escape) start (c :: rest) :=
  mem_instructionsFrom h

/-- The rest of the line behind the end of a keyword is the rest of the line. -/
theorem readLine_behind_reach (esc : Escape) (off : Nat) (cs : List Char) :
    ∃ tail, Onward off cs ((readWord esc off cs).reach off) tail ∧
      (readLine esc ((readWord esc off cs).reach off) tail).stop =
        (readLine esc off cs).stop := by
  obtain ⟨tail, honward, hpass⟩ := readWhile_reach esc (fun c => !isSpace c) off cs
  refine ⟨tail, honward, ?_⟩
  rw [← (readLine_behind_word esc off cs).1]
  unfold readLine readWord
  rw [readWhile_passContinuations, hpass]

/-- The text of the arguments is one logical line: no movement to the end of the
line stops inside it. -/
theorem readLine_argumentsText (esc : Escape) (off : Nat) (cs : List Char) :
    (readLine esc (readInstruction esc off cs).nameSpan.stop
      (readInstruction esc off cs).argumentsText).rest = [] := by
  obtain ⟨tail, honward, hstop⟩ := readLine_behind_reach esc off cs
  have hle := honward.le
  have htext : (readInstruction esc off cs).argumentsText =
      tail.take ((readLine esc ((readWord esc off cs).reach off) tail).stop -
        (readWord esc off cs).reach off) := by
    rw [hstop, honward.eq_drop]
    simp only [Instruction.argumentsText, readInstruction, List.drop_take]
    congr 1
    omega
  rw [htext]
  exact congrArg Reading.rest (readWhile_take esc _ ((readWord esc off cs).reach off) tail)

/-! ## Comments -/

/-- What the parser finds behind the directive. -/
inductive Part
  /-- A comment, with the text from its number sign to where its logical line
  ends. -/
  | comment (start : Nat) (content : List Char)
  | instruction (i : Instruction)
deriving DecidableEq, Repr

namespace Part

/-- The instruction that a part is, unless it is a comment. -/
def instruction? : Part → Option Instruction
  | .comment .. => none
  | .instruction i => some i

/-- The text of the comment that a part is, unless it is an instruction. -/
def comment? : Part → Option (List Char)
  | .comment _ content => some content
  | .instruction _ => none

end Part

/-- The comments and instructions of a text that starts at offset `off`. -/
def partsFrom (esc : Escape) : Nat → List Char → List Part
  | _, [] => []
  | off, c :: cs =>
    if _hspace : isSpace c then
      partsFrom esc (off + 1) cs
    else
      let line := readLine esc off (c :: cs)
      if c = '#' then
        .comment off ((c :: cs).take (line.stop - off)) :: partsFrom esc line.stop line.rest
      else if (readWord esc off (c :: cs)).taken = [] then
        partsFrom esc (readWord esc off (c :: cs)).stop (readWord esc off (c :: cs)).rest
      else
        .instruction (readInstruction esc off (c :: cs)) :: partsFrom esc line.stop line.rest
termination_by _ cs => cs.length
decreasing_by
  · simp
  · exact readLine_rest_length_lt (by simpa using _hspace)
  · exact readWhile_rest_length_lt off (by simpa using _hspace)
  · exact readLine_rest_length_lt (by simpa using _hspace)

/-- An empty text has no parts. -/
@[simp] theorem partsFrom_nil : partsFrom esc off [] = [] := by
  rw [partsFrom]

/-- White space is no part. -/
theorem partsFrom_of_isSpace (h : isSpace c = true) :
    partsFrom esc off (c :: cs) = partsFrom esc (off + 1) cs := by
  rw [partsFrom, dif_pos h]

/-- A comment is a part, with the lines that continue it. -/
theorem partsFrom_of_mark :
    partsFrom esc off ('#' :: cs) =
      .comment off (('#' :: cs).take ((readLine esc off ('#' :: cs)).stop - off)) ::
        partsFrom esc (readLine esc off ('#' :: cs)).stop
          (readLine esc off ('#' :: cs)).rest := by
  rw [partsFrom, dif_neg (by decide)]
  simp only [if_true]

/-- Continuations with no word behind them are no part. -/
theorem partsFrom_of_joint (hspace : isSpace c = false) (hmark : c ≠ '#')
    (hword : (readWord esc off (c :: cs)).taken = []) :
    partsFrom esc off (c :: cs) =
      partsFrom esc (readWord esc off (c :: cs)).stop (readWord esc off (c :: cs)).rest := by
  rw [partsFrom, dif_neg (by simp [hspace])]
  simp only [hmark, hword, if_true, if_false]

/-- An instruction is a part. -/
theorem partsFrom_of_word (hspace : isSpace c = false) (hmark : c ≠ '#')
    (hword : (readWord esc off (c :: cs)).taken ≠ []) :
    partsFrom esc off (c :: cs) =
      .instruction (readInstruction esc off (c :: cs)) ::
        partsFrom esc (readLine esc off (c :: cs)).stop (readLine esc off (c :: cs)).rest := by
  rw [partsFrom, dif_neg (by simp [hspace])]
  simp only [hmark, hword, if_false]

/-- The instructions are what the parser finds less the comments. -/
theorem instructionsFrom_eq_filterMap (esc : Escape) (off : Nat) (cs : List Char) :
    instructionsFrom esc off cs = (partsFrom esc off cs).filterMap Part.instruction? := by
  induction off, cs using parsing_induction esc with
  | nil off => simp
  | space off c cs hspace ih =>
      rw [instructionsFrom_of_isSpace hspace, partsFrom_of_isSpace hspace, ih]
  | comment off cs ih =>
      rw [instructionsFrom_of_mark, partsFrom_of_mark, ih,
        List.filterMap_cons_none (f := Part.instruction?) rfl]
  | joint off c cs hspace hmark hword ih =>
      rw [instructionsFrom_of_joint hspace hmark hword, partsFrom_of_joint hspace hmark hword, ih]
  | word off c cs hspace hmark hword ih =>
      rw [instructionsFrom_of_word hspace hmark hword, partsFrom_of_word hspace hmark hword, ih,
        List.filterMap_cons_some (f := Part.instruction?) rfl]

/-- The comments that the parser of a document goes past. -/
def Dockerfile.comments (text : List Char) : List (List Char) :=
  let file := Dockerfile.parse text
  (partsFrom (some file.escape) file.bodyOffset (text.drop file.bodyOffset)).filterMap
    Part.comment?

/-! ## The structural scan -/

/-- What the scan does with the body behind the word read from here, if the word is
a keyword. -/
def visitForm (esc : Escape) (keywords : List String) (off : Nat) (cs : List Char) :
    Option BodyForm :=
  bodyForm? keywords (Unicode.upper (readWord esc off cs).text)

/-- How the body behind the word read from here is checked. -/
def visitBody (esc : Escape) (keywords : List String) (off : Nat) (cs : List Char) : BodyScan :=
  scanBehind esc (visitForm esc keywords off cs) (readWord esc off cs).stop
    (readWord esc off cs).rest

/-- The check of the body of a list. -/
theorem visitBody_of_stringArray (h : visitForm esc keywords off cs = some .stringArray) :
    visitBody esc keywords off cs =
      let verdict := checkArrayBody esc true (readWord esc off cs).stop (readWord esc off cs).rest
      ⟨.array verdict.fault, verdict.stop, verdict.rest⟩ := by
  unfold visitBody
  rw [h]
  rfl

/-- The word read from here, and what the scan does about it. -/
def readVisit (esc : Escape) (keywords : List String) (off : Nat) (cs : List Char) : Visit :=
  ⟨off, (readWord esc off cs).text, (readWord esc off cs).stop,
    (visitBody esc keywords off cs).outcome, (visitBody esc keywords off cs).stop⟩

/-- What becomes of an instruction is decided by its body. -/
theorem outcome_readVisit (esc : Escape) (keywords : List String) (off : Nat) (cs : List Char) :
    (readVisit esc keywords off cs).outcome = (visitBody esc keywords off cs).outcome := by
  rw [readVisit]

/-- The findings of a visit come before those of the rest. -/
theorem Scan.cons_findings (v : Visit) (s : Scan) :
    (s.cons v).findings = v.findings ++ s.findings :=
  List.flatMap_cons

/-- The scan of an empty text visits nothing. -/
@[simp] theorem scanFrom_nil : scanFrom esc keywords off [] = ⟨[], off⟩ := by
  rw [scanFrom]

/-- The scan passes white space. -/
theorem scanFrom_of_isSpace (h : isSpace c = true) :
    scanFrom esc keywords off (c :: cs) = scanFrom esc keywords (off + 1) cs := by
  rw [scanFrom]
  simp [h]

/-- It passes a comment up to the end of its line, which no escape character continues. -/
theorem scanFrom_of_mark :
    scanFrom esc keywords off ('#' :: cs) =
      scanFrom esc keywords (off + (firstLine ('#' :: cs)).length)
        (afterFirstLine ('#' :: cs)) := by
  rw [scanFrom]
  simp [show isSpace '#' = false from rfl]

/-- It passes continuations with no word behind them. -/
theorem scanFrom_of_joint (hspace : isSpace c = false) (hmark : c ≠ '#')
    (hword : (readWord esc off (c :: cs)).taken = []) :
    scanFrom esc keywords off (c :: cs) =
      scanFrom esc keywords (readWord esc off (c :: cs)).stop
        (readWord esc off (c :: cs)).rest := by
  rw [scanFrom]
  simp [hspace, hmark, hword]

/-- A word that is no keyword ends the scan. -/
theorem scanFrom_of_unknown (hspace : isSpace c = false) (hmark : c ≠ '#')
    (hword : (readWord esc off (c :: cs)).taken ≠ [])
    (hform : visitForm esc keywords off (c :: cs) = none) :
    scanFrom esc keywords off (c :: cs) =
      ⟨[readVisit esc keywords off (c :: cs)], (readWord esc off (c :: cs)).stop⟩ := by
  rw [scanFrom]
  simp only [visitForm] at hform
  simp [hspace, hmark, hword, hform, readVisit, visitBody, visitForm, scanBehind]

/-- Behind the body of a keyword the scan goes on. -/
theorem scanFrom_of_word (hspace : isSpace c = false) (hmark : c ≠ '#')
    (hword : (readWord esc off (c :: cs)).taken ≠ [])
    (hform : (visitForm esc keywords off (c :: cs)).isSome = true) :
    scanFrom esc keywords off (c :: cs) =
      (scanFrom esc keywords (visitBody esc keywords off (c :: cs)).stop
        (visitBody esc keywords off (c :: cs)).rest).cons
          (readVisit esc keywords off (c :: cs)) := by
  rw [scanFrom]
  obtain ⟨form, hform⟩ := Option.isSome_iff_exists.mp hform
  simp only [visitForm] at hform
  simp [hspace, hmark, hword, hform, readVisit, visitBody, visitForm]

/-- A text is taken apart by the steps of the scan. -/
theorem scanning_induction (esc : Escape) (keywords : List String)
    {motive : Nat → List Char → Prop}
    (nil : ∀ off, motive off [])
    (space : ∀ off c cs, isSpace c = true → motive (off + 1) cs → motive off (c :: cs))
    (comment : ∀ off cs,
      motive (off + (firstLine ('#' :: cs)).length) (afterFirstLine ('#' :: cs)) →
      motive off ('#' :: cs))
    (joint : ∀ off c cs, isSpace c = false → c ≠ '#' →
      (readWord esc off (c :: cs)).taken = [] →
      motive (readWord esc off (c :: cs)).stop (readWord esc off (c :: cs)).rest →
      motive off (c :: cs))
    (unknown : ∀ off c cs, isSpace c = false → c ≠ '#' →
      (readWord esc off (c :: cs)).taken ≠ [] →
      visitForm esc keywords off (c :: cs) = none → motive off (c :: cs))
    (word : ∀ off c cs, isSpace c = false → c ≠ '#' →
      (readWord esc off (c :: cs)).taken ≠ [] →
      (visitForm esc keywords off (c :: cs)).isSome = true →
      motive (visitBody esc keywords off (c :: cs)).stop
        (visitBody esc keywords off (c :: cs)).rest →
      motive off (c :: cs))
    (off : Nat) (cs : List Char) : motive off cs := by
  induction hn : cs.length using Nat.strongRecOn generalizing off cs with
  | _ n ih =>
    subst hn
    match cs with
    | [] => exact nil off
    | c :: cs =>
      cases hspace : isSpace c with
      | true => exact space off c cs hspace (ih _ (by simp) _ _ rfl)
      | false =>
        by_cases hmark : c = '#'
        · subst hmark
          exact comment off cs (ih _ (afterFirstLine_length_lt rfl) _ _ rfl)
        · have hlt : (readWord esc off (c :: cs)).rest.length < (c :: cs).length :=
            readWhile_rest_length_lt off (by simpa using hspace)
          by_cases hword : (readWord esc off (c :: cs)).taken = []
          · exact joint off c cs hspace hmark hword (ih _ hlt _ _ rfl)
          · cases hform : visitForm esc keywords off (c :: cs) with
            | none => exact unknown off c cs hspace hmark hword hform
            | some form =>
              refine word off c cs hspace hmark hword (by simp [hform]) (ih _ ?_ _ _ rfl)
              exact Nat.lt_of_le_of_lt (scanBehind_rest_length_le ..) hlt

end DockerfileLint
