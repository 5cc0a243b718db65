import DockerfileLint.Proofs.Places
import DockerfileLint.Proofs.Relocation

/-!
# Documents with other line endings

A document without carriage returns can be written with carriage returns and line feeds,
or with carriage returns alone, for its line feeds.  Its instructions and its lists are
found at other offsets then, but on the same lines and in the same columns: what is
reported is the same, places and all.

The offsets go where `relinedOffset` takes them.  `positionAt_relined` says that positions
stay, `lint_relined` that the findings go along, and `validate_relined` puts the two
together.
-/

namespace DockerfileLint

variable {ending : LineEnding} {φ : Nat → Nat} {text : List Char} {off : Nat} {cs : List Char}

/-! ## Offsets -/

/-- Where an offset goes with other line endings. -/
def relinedOffset (ending : LineEnding) (text : List Char) (offset : Nat) : Nat :=
  (relined ending (text.take offset)).length

/-- The start of the text stays where it is. -/
@[simp] theorem relinedOffset_zero (ending : LineEnding) (text : List Char) :
    relinedOffset ending text 0 = 0 := rfl

/-- The offsets of the rewritten text are those of a rewriting of the whole text. -/
theorem relines_relinedOffset (ending : LineEnding) (h : ending.Suits text) :
    Relines ending (relinedOffset ending text) 0 text := by
  refine ⟨?_, h⟩
  rintro passed rest rfl
  unfold relinedOffset
  rw [Nat.zero_add, List.take_left, List.take_zero, relined_nil, List.length_nil, Nat.zero_add]

/-- Text takes characters with any line endings. -/
theorem relined_length_pos (h : cs ≠ []) : 0 < (relined ending cs).length := by
  obtain ⟨c, tail, rfl⟩ := List.exists_cons_of_ne_nil h
  by_cases hc : c = '\n'
  · rw [hc, relined_newline]
    cases ending <;> simp [LineEnding.chars]
  · rw [relined_cons_of_ne hc]
    simp

/-- Offsets keep their order. -/
theorem Relines.lt (h : Relines ending φ off cs) {a b : Nat} (hoff : off ≤ a) (hab : a < b)
    (hb : b ≤ off + cs.length) : φ a < φ b := by
  have ha : Onward off cs a (cs.drop (a - off)) := by
    refine ⟨cs.take (a - off), (List.take_append_drop _ cs).symm, ?_⟩
    rw [List.length_take]
    omega
  have hplace := (h.of_onward ha).place ((cs.drop (a - off)).take (b - a)) _
    (List.take_append_drop _ _).symm
  have hlength : ((cs.drop (a - off)).take (b - a)).length = b - a := by
    rw [List.length_take, List.length_drop]
    omega
  have hpos : 0 < (relined ending ((cs.drop (a - off)).take (b - a))).length := by
    apply relined_length_pos
    rw [← List.length_pos_iff, hlength]
    omega
  rw [hlength, show a + (b - a) = b by omega] at hplace
  omega

/-- Places of the text keep their order. -/
theorem Relines.le_iff (h : Relines ending φ off cs) {a b : Nat} (ha : off ≤ a) (hb : off ≤ b)
    (ha' : a ≤ off + cs.length) (hb' : b ≤ off + cs.length) : φ a ≤ φ b ↔ a ≤ b := by
  rcases Nat.lt_trichotomy a b with hab | rfl | hba
  · exact ⟨fun _ => Nat.le_of_lt hab, fun _ => Nat.le_of_lt (h.lt ha hab hb')⟩
  · simp
  · have hlt := h.lt hb hba ha'
    omega

/-- The end of a document goes to the end of the other. -/
theorem Relines.length_relined (h : Relines ending φ 0 text) (hzero : φ 0 = 0) :
    φ text.length = (relined ending text).length := by
  have hplace := h.place text [] (List.append_nil text).symm
  rwa [Nat.zero_add, hzero, Nat.zero_add] at hplace

/-! ## Positions -/

/-- Lines start where the starts of lines go. -/
theorem lineStartsOf_relined (h : Relines ending φ 0 text) (hzero : φ 0 = 0) :
    lineStartsOf (relined ending text) = (lineStartsOf text).map φ := by
  rw [lineStartsOf_eq, lineStartsOf_eq, List.map_cons, ← laterLineStarts_relined h, hzero]

/-- A place in a text, by its offset. -/
theorem onward_drop (h : off ≤ text.length) : Onward 0 text off (text.drop off) := by
  refine ⟨text.take off, (List.take_append_drop off text).symm, ?_⟩
  rw [List.length_take, Nat.min_eq_left h, Nat.zero_add]

/-- An offset that splits no line break has the same position with other line endings. -/
theorem positionAt_relined (h : Relines ending φ 0 text) (hzero : φ 0 = 0) {offset : Nat}
    (hoffset : SplitsNoBreak text offset) :
    (Document.ofText (relined ending text)).positionAt (φ offset) =
      (Document.ofText text).positionAt offset := by
  obtain ⟨line, start, hcount, hget, hle, hcontent⟩ := exists_line_of_splitsNoBreak hoffset
  have hlength := hoffset.1
  have hstarts := lineStartsOf_relined h hzero
  have hend := h.length_relined hzero
  have hcount' : (lineStartsOf (relined ending text)).countP (· ≤ φ offset) = line + 1 := by
    rw [hstarts, List.countP_map, ← hcount]
    apply List.countP_congr
    intro s hs
    have hs' := lineStartsOf_le hs
    simp [h.le_iff (Nat.zero_le s) (Nat.zero_le offset) (by omega) (by omega)]
  have hget' : (lineStartsOf (relined ending text))[line]? = some (φ start) := by
    rw [hstarts, List.getElem?_map, hget]
    rfl
  have hmin : min (φ offset) (relined ending text).length = φ offset := by
    rw [← hend]
    exact Nat.min_eq_left
      ((h.le_iff (Nat.zero_le _) (Nat.zero_le _) (by omega) (by omega)).mpr hlength)
  -- On its line the offset is as far from the start as before, and so is the text.
  have honward := onward_drop (Nat.le_trans hle hlength)
  have hdrop := (h.drop_relined honward).1
  rw [hzero, Nat.sub_zero] at hdrop
  have hcolumn : φ offset - φ start = offset - start := by
    have hcount : offset - start ≤ (firstLine (text.drop start)).length := by
      omega
    have hplace := (h.of_onward honward).add_of_le_firstLine hcount
    rw [Nat.add_sub_cancel' hle] at hplace
    omega
  have hslice : ((relined ending text).drop (φ start)).take (φ offset - φ start) =
      (text.drop start).take (offset - start) := by
    have hfirst := (firstLine_relined ending (text.drop start)).1
    have hcontent' : φ offset ≤
        φ start + (firstLine ((relined ending text).drop (φ start))).length := by
      rw [hdrop, hfirst]
      omega
    rw [take_drop_eq_take_firstLine hcontent', take_drop_eq_take_firstLine hcontent, hdrop, hfirst,
      hcolumn]
  rw [positionAt_eq hmin hcount' hget', positionAt_eq (Nat.min_eq_left hlength) hcount hget, hslice]

/-! ## Documents -/

/-- The directive is a matter of the first line. -/
theorem parse?_relined (ending : LineEnding) (text : List Char) :
    Directive.parse? (relined ending text) = Directive.parse? text := by
  unfold Directive.parse?
  rw [(firstLine_relined ending text).1]

/-- Instructions start at the same offset. -/
theorem bodyOffset_relined (h : Relines ending φ 0 text) (hzero : φ 0 = 0) :
    φ (Dockerfile.parse text).bodyOffset = (Dockerfile.parse text).bodyOffset := by
  show φ (bodyOffset (Directive.parse? text)) = bodyOffset (Directive.parse? text)
  cases hdirective : Directive.parse? text with
  | none => exact hzero
  | some d =>
      have hspan := Directive.span_of_ofLine? hdirective
      have hplace := h.add_of_le_firstLine (Nat.le_refl _)
      rw [hzero, Nat.zero_add] at hplace
      simpa [bodyOffset, hspan] using hplace

/-- Behind the directive there is the same text with other line endings. -/
theorem relines_body (h : Relines ending φ 0 text) (hzero : φ 0 = 0) :
    let start := (Dockerfile.parse text).bodyOffset
    Relines ending φ start (text.drop start) ∧
      (relined ending text).drop start = relined ending (text.drop start) := by
  intro start
  have honward := onward_drop (bodyOffset_le text)
  have hdrop := (h.drop_relined honward).1
  rw [bodyOffset_relined h hzero, hzero, Nat.sub_zero] at hdrop
  exact ⟨h.of_onward honward, hdrop⟩

/-- A text with other line breaks has the same directive, and the same instructions moved to the
new offsets. -/
theorem parse_relined (h : Relines ending φ 0 text) (hzero : φ 0 = 0) :
    Dockerfile.parse (relined ending text) =
      { directive := (Dockerfile.parse text).directive
        instructions := (Dockerfile.parse text).instructions.map
          (Instruction.relocate (relined ending) φ) } := by
  obtain ⟨hbody, hdrop⟩ := relines_body h hzero
  have hinstructions := instructionsFrom_relocate (.inr (visible_escape text)) hbody
  rw [bodyOffset_relined h hzero, ← hdrop] at hinstructions
  unfold Dockerfile.parse
  rw [parse?_relined]
  exact congrArg (Dockerfile.mk (Directive.parse? text)) hinstructions

/-- What is wrong with the directive is found where it was. -/
theorem checkDirective_relocate (h : Relines ending φ 0 text) (hzero : φ 0 = 0) :
    (checkDirective (Directive.parse? text)).map (Finding.relocate φ) =
      checkDirective (Directive.parse? text) := by
  have hplace : ∀ count, count ≤ (firstLine text).length → φ count = count := by
    intro count hcount
    have hplace := h.add_of_le_firstLine hcount
    rwa [Nat.zero_add, hzero, Nat.zero_add] at hplace
  conv => rhs; rw [← List.map_id (checkDirective (Directive.parse? text))]
  apply List.map_congr_left
  intro f hf
  have hwithin := checkDirective_within hf
  unfold Finding.relocate Span.relocate
  rw [hplace _ hwithin.stop_le, hplace _ (Nat.le_trans hwithin.start_le hwithin.stop_le)]
  rfl

/-- What is wrong with an instruction goes along. -/
theorem checkInstruction_relined (h : Relines ending φ 0 text) (hzero : φ 0 = 0)
    (ctx : CheckContext) (hctx : ctx.finish = text.length) (hesc : ctx.escape.Visible)
    {i : Instruction} (hi : i ∈ (Dockerfile.parse text).instructions) :
    checkInstruction { ctx with finish := (relined ending text).length }
        (i.relocate (relined ending) φ) =
      (checkInstruction ctx i).map (Finding.relocate φ) := by
  obtain ⟨-, -, -, -, hend⟩ := instruction_within hi
  obtain ⟨start, c, rest, honward, -, -, hword, rfl⟩ := mem_parse_instructions hi
  have hlength := argumentsText_length hword
  obtain ⟨hregion, htext⟩ := argumentsText_relocate
    ((relines_body h hzero).1.of_onward honward) hword
  apply checkInstruction_relocate
  · rfl
  · rfl
  · unfold Instruction.arguments
    rw [htext]
    exact argumentsFrom_relocate (.inr hesc) hregion
  · unfold Instruction.hasArguments
    rw [htext]
    apply argumentsPresent_relocate (.inr hesc) hregion
    intro stop left hleft
    have hle := hleft.add_length
    simp only at hlength
    rw [hctx, ← h.length_relined hzero]
    exact h.le_iff (Nat.zero_le _) (Nat.zero_le _) (by omega) (by omega)

/-- One character further on is one character further on. -/
theorem Relines.succ_of_standsAt (h : Relines ending φ 0 text) {place : Nat}
    (hplace : StandsAt text place) : φ (place + 1) = φ place + 1 := by
  obtain ⟨c, hc, hbreak⟩ := hplace
  obtain ⟨hlt, hget⟩ := List.getElem?_eq_some_iff.mp hc
  have honward := onward_drop (Nat.le_of_lt hlt)
  rw [List.drop_eq_getElem_cons hlt, hget] at honward
  exact h.succ_of_onward honward hbreak

/-- The findings in a document go along. -/
theorem lint_relined (h : Relines ending φ 0 text) (hzero : φ 0 = 0) (settings : LintSettings)
    (keywords : List String) :
    (lint settings keywords (relined ending text)).findings =
      (lint settings keywords text).findings.map (Finding.relocate φ) := by
  have hparse := parse_relined h hzero
  have hescape : (Dockerfile.parse (relined ending text)).escape =
      (Dockerfile.parse text).escape := by
    rw [hparse]
    rfl
  have hoffset : (Dockerfile.parse (relined ending text)).bodyOffset =
      (Dockerfile.parse text).bodyOffset := by
    rw [hparse]
    rfl
  have hdirective : checkDirective (Dockerfile.parse (relined ending text)).directive =
      (checkDirective (Dockerfile.parse text).directive).map (Finding.relocate φ) := by
    rw [hparse]
    exact (checkDirective_relocate h hzero).symm
  have hsource : checkSourceImage (Dockerfile.parse (relined ending text)).instructions =
      (checkSourceImage (Dockerfile.parse text).instructions).map (Finding.relocate φ) := by
    rw [hparse]
    exact checkSourceImage_relocate fun _ => hzero
  have hinstructions : checkInstructions
        (contextOf settings keywords (relined ending text)
          (Dockerfile.parse (relined ending text)))
        (Dockerfile.parse (relined ending text)).instructions =
      (checkInstructions (contextOf settings keywords text (Dockerfile.parse text))
        (Dockerfile.parse text).instructions).map (Finding.relocate φ) := by
    have hcontext : contextOf settings keywords (relined ending text)
          (Dockerfile.parse (relined ending text)) =
        { contextOf settings keywords text (Dockerfile.parse text) with
          finish := (relined ending text).length } := by
      unfold contextOf
      rw [hescape]
    unfold checkInstructions
    rw [hcontext, hparse, List.flatMap_map, List.map_flatMap, List.flatMap_def, List.flatMap_def]
    refine congrArg List.flatten (List.map_congr_left fun i hi => ?_)
    exact checkInstruction_relined h hzero _ rfl (visible_escape text) hi
  have hscan : (scan (some (Dockerfile.parse (relined ending text)).escape) keywords
        (Dockerfile.parse (relined ending text)).bodyOffset (relined ending text)).findings =
      (scan (some (Dockerfile.parse text).escape) keywords (Dockerfile.parse text).bodyOffset
        text).findings.map (Finding.relocate φ) := by
    obtain ⟨hbody, hdrop⟩ := relines_body h hzero
    have hrelocate := scanFrom_relocate (.inr (visible_escape text)) keywords hbody
    rw [bodyOffset_relined h hzero, ← hdrop] at hrelocate
    unfold scan
    rw [hescape, hoffset, hrelocate]
    apply Scan.relocate_findings
    intro f hf
    exact h.succ_of_standsAt (scanFrom_findings_covers rfl hf).2.first
  simp only [LintReport.findings, lint, List.map_append, hdirective, hsource, hinstructions, hscan]

/-! ## Diagnostics -/

/-- What is found in a document is reported at the same place with other line endings. -/
theorem diagnostic_relocate (h : Relines ending φ 0 text) (hzero : φ 0 = 0) {f : Finding}
    (hstart : SplitsNoBreak text f.span.start) (hstop : SplitsNoBreak text f.span.stop) :
    (f.relocate φ).diagnostic (Document.ofText (relined ending text)) =
      f.diagnostic (Document.ofText text) := by
  have hstart' := positionAt_relined h hzero hstart
  have hstop' := positionAt_relined h hzero hstop
  unfold Finding.diagnostic Problem.locate Document.rangeAt
  simp only [Span.toInt, Finding.relocate, Span.relocate]
  rw [hstart', hstop']

/-- A text without carriage returns has no break of two characters. -/
theorem splitsNoBreak_of_not_mem (h : '\r' ∉ text) {offset : Nat} (hle : offset ≤ text.length) :
    SplitsNoBreak text offset := by
  refine ⟨hle, fun hlast => ?_⟩
  exact absurd (List.mem_of_mem_take (List.mem_of_getLast? hlast)) h

/-- **Line endings do not count.**  A document without carriage returns has the same
diagnostics, in the same order and at the same lines and columns, if its line feeds are
written as carriage returns with line feeds, or as carriage returns alone. -/
theorem validate_relined (settings : LintSettings) (keywords : List String) {text : List Char}
    (htext : '\r' ∉ text) (ending : LineEnding) :
    validate settings keywords (Document.ofText (relined ending text)) =
      validate settings keywords (Document.ofText text) := by
  have h := relines_relinedOffset ending (.inr htext)
  have hfindings := lint_relined h (relinedOffset_zero ending text) settings keywords
  show (lint settings keywords (relined ending text)).findings.map _ = _
  rw [hfindings, List.map_map]
  apply List.map_congr_left
  intro f hf
  have hwithin := lint_within settings keywords text f hf
  exact diagnostic_relocate h (relinedOffset_zero ending text)
    (splitsNoBreak_of_not_mem htext (Nat.le_trans hwithin.start_le hwithin.stop_le))
    (splitsNoBreak_of_not_mem htext hwithin.stop_le)

/-- An instruction on two lines, and a list that breaks off at the end of its line. -/
def twoLines : List Char := "FROM x\nRUN a \\\n  b\nVOLUME [\"/a\"\n".toList

/-- `twoLines` has the same diagnostics with carriage returns. -/
theorem validate_relined_twoLines :
    '\r' ∉ twoLines ∧ relined .crlf twoLines ≠ twoLines ∧
      validate {} standardKeywords (Document.ofText (relined .crlf twoLines)) =
        validate {} standardKeywords (Document.ofText twoLines) := by
  have htext : '\r' ∉ twoLines := by
    decide
  exact ⟨htext, by decide, validate_relined {} standardKeywords htext .crlf⟩

end DockerfileLint
