import DockerfileLint.Proofs.Appending
import DockerfileLint.Proofs.LineCuts
import DockerfileLint.Proofs.PaddedScan

/-!
# Trailing blanks

Blanks at the end of a line leave no trace in a validation.  The text is looked at in three
pieces: what is above the line break, the break, and what is below it.  The text above and
the break are validated alike with blanks between them, `Padded.lint_eq`: nothing that is
found there is found behind the text above.  The text below is the same, and no line of it
gets another number.

The blanks must not stand behind the escape character, where they would undo a
continuation, nor between the two characters of one break.  They may stand anywhere else,
in a string of a list that is not closed or at the end of the directive:
`validate_trailingBlanks`.
-/

namespace DockerfileLint

variable {keywords : List String} {settings : LintSettings}
variable {e : Char} {above below blanks breaks cs : List Char}

/-! ## The directive and the body -/

/-- Breaks behind a text leave its directive as it is. -/
theorem parse?_append_breaks (hbreaks : ∀ c ∈ breaks, isBreak c = true) :
    Directive.parse? (above ++ breaks) = Directive.parse? above := by
  unfold Directive.parse?
  rw [(firstLine_append_breaks hbreaks above).1]

/-- Blanks in front of the breaks leave the directive as it is, or they stand at the end
of its line. -/
theorem Padded.parse?_cases (h : Padded e above blanks breaks) :
    Directive.parse? (above ++ (blanks ++ breaks)) = Directive.parse? above ∨
      ∃ d, Directive.parse? above = some d ∧ d.span.stop = above.length ∧
        Directive.parse? (above ++ (blanks ++ breaks)) = some (d.padded blanks.length) := by
  cases hbreak : above.any isBreak with
  | true => exact .inl (parse?_append hbreak (blanks ++ breaks))
  | false =>
      have hline := h.isBreak_eq_false hbreak
      have hfirst : ∀ line, line <+: above ++ blanks → firstLine line = line := by
        intro line hfront
        unfold firstLine
        rw [List.takeWhile_eq_self_iff]
        intro c hc
        simp [hline c (hfront.subset hc)]
      have habove := hfirst above (List.prefix_append above blanks)
      have hpadded : Directive.parse? (above ++ (blanks ++ breaks)) =
          (Directive.parse? above).map (Directive.padded blanks.length) := by
        rw [← List.append_assoc, parse?_append_breaks h.breaks]
        unfold Directive.parse?
        rw [hfirst _ List.prefix_rfl, habove, Directive.ofLine?_append_blanks h.blank]
      cases hd : Directive.parse? above with
      | none =>
          rw [hpadded, hd]
          exact .inl rfl
      | some d =>
          have hspan := Directive.span_of_ofLine? hd
          rw [habove] at hspan
          refine .inr ⟨d, rfl, congrArg Span.stop hspan, ?_⟩
          rw [hpadded, hd]
          rfl

/-- What is said of the directive, and the escape character it selects, are the same with
blanks in front of the breaks. -/
theorem Padded.directive_eq (h : Padded e above blanks breaks) :
    checkDirective (Directive.parse? (above ++ (blanks ++ breaks))) =
        checkDirective (Directive.parse? above) ∧
      escapeOf (Directive.parse? (above ++ (blanks ++ breaks))) =
        escapeOf (Directive.parse? above) := by
  rcases h.parse?_cases with hsame | ⟨d, hd, -, hpadded⟩
  · rw [hsame]
    exact ⟨rfl, rfl⟩
  · rw [hd, hpadded]
    exact checkDirective_padded blanks.length (some d)

/-- The readers of the body start abreast. -/
theorem Padded.body_abreast (h : Padded e above blanks breaks) :
    let start := (Dockerfile.parse above).bodyOffset
    let plain := (Dockerfile.parse (above ++ breaks)).bodyOffset
    let padded := (Dockerfile.parse (above ++ (blanks ++ breaks))).bodyOffset
    Abreast blanks breaks (start, above.drop start) (plain, (above ++ breaks).drop plain)
      (padded, (above ++ (blanks ++ breaks)).drop padded) := by
  intro start plain padded
  have hplain : plain = start :=
    congrArg bodyOffset (parse?_append_breaks h.breaks)
  rw [hplain]
  rcases h.parse?_cases with hsame | ⟨d, hd, hstop, hd'⟩
  · have hpadded : padded = start :=
      congrArg bodyOffset hsame
    rw [hpadded, (drop_bodyOffset_append above breaks).1,
      (drop_bodyOffset_append above (blanks ++ breaks)).1]
    exact .inl ⟨rfl, rfl⟩
  · have hstart : start = above.length := by
      show bodyOffset (Directive.parse? above) = _
      rw [hd]
      exact hstop
    have hpadded : padded = (above ++ blanks).length := by
      show bodyOffset (Directive.parse? _) = _
      rw [hd', List.length_append, ← hstop]
      rfl
    rw [hstart, hpadded, ← List.append_assoc]
    exact .inr ⟨List.drop_left, List.drop_left⟩

/-! ## The instructions -/

/-- Where two parsers are abreast the instructions match to the end. -/
theorem Abreast.instructions_match {off plain padded finish : Nat}
    {plainRest paddedRest : List Char}
    (habreast : Abreast blanks breaks (off, cs) (plain, plainRest) (padded, paddedRest))
    (hesc : Escape.Visible (some e)) (h : Padded e cs blanks breaks) (hne : breaks ≠ [])
    (hfinish : off + (cs ++ (blanks ++ breaks)).length ≤ finish) :
    List.Forall₂ (Instruction.Matches (some e) finish)
      (instructionsFrom (some e) plain plainRest)
      (instructionsFrom (some e) padded paddedRest) := by
  have hnone : ∀ off, instructionsFrom (some e) off breaks = [] :=
    fun off => instructionsFrom_spaces (some e) off h.isSpace_more
  rcases habreast with ⟨hplain, hpadded⟩ | ⟨hplain, hpadded⟩
  · simp only [Prod.mk.injEq] at hplain hpadded
    obtain ⟨b, tail, htail⟩ := List.exists_cons_of_ne_nil hne
    have hstops : ∃ b tail, breaks = b :: tail ∧ isBreak b = true :=
      ⟨b, tail, htail, h.breaks b (htail ▸ List.mem_cons_self)⟩
    have hpos := List.length_pos_iff.mpr hne
    rw [← List.append_assoc, List.length_append] at hfinish
    rw [hplain.1, hplain.2, hpadded.1, hpadded.2, ← List.append_assoc,
      instructionsFrom_append_of_sealed hesc off ⟨h.joins.seam, .inr hstops⟩,
      instructionsFrom_append_of_sealed hesc off ⟨(h.joins_padded hesc).seam, .inr hstops⟩,
      hnone, hnone, List.append_nil, List.append_nil]
    exact instructionsFrom_padded hesc off h.joins_blank h.blank (by omega)
  · simp only at hplain hpadded
    rw [hplain, hpadded, hnone, hnone]
    exact .nil

/-- An instruction that matches another is checked alike. -/
theorem Instruction.Matches.checkInstruction_eq {ctx : CheckContext} {i j : Instruction}
    (h : i.Matches ctx.escape ctx.finish j) : checkInstruction ctx j = checkInstruction ctx i := by
  have hkeyword : j.keyword = i.keyword := congrArg Unicode.upper h.written
  unfold checkInstruction checkDeprecation checkBody
  rw [hkeyword, h.written, h.nameSpan, h.arguments, h.present]

/-- Instructions that match have the same findings. -/
theorem checkInstructions_of_matches (ctx : CheckContext) {is js : List Instruction}
    (h : List.Forall₂ (Instruction.Matches ctx.escape ctx.finish) is js) :
    checkInstructions ctx js = checkInstructions ctx is := by
  induction h with
  | nil => rfl
  | cons hmatch _ ih =>
      unfold checkInstructions at ih ⊢
      rw [List.flatMap_cons, List.flatMap_cons, hmatch.checkInstruction_eq, ih]

/-- They have the same source image, or lack it alike. -/
theorem checkSourceImage_of_matches {esc : Escape} {finish : Nat} {is js : List Instruction}
    (h : List.Forall₂ (Instruction.Matches esc finish) is js) :
    checkSourceImage js = checkSourceImage is := by
  cases h with
  | nil => rfl
  | cons hmatch _ =>
      have hkeyword := congrArg Unicode.upper hmatch.written
      unfold checkSourceImage Instruction.keyword
      simp only [hkeyword, hmatch.nameSpan]

/-! ## The text above and the break -/

/-- There is a break in a text that ends in one. -/
theorem any_append_breaks (hbreaks : ∀ c ∈ breaks, isBreak c = true) (hne : breaks ≠ [])
    (cs : List Char) : (cs ++ breaks).any isBreak = true := by
  obtain ⟨b, tail, rfl⟩ := List.exists_cons_of_ne_nil hne
  exact List.any_eq_true.mpr ⟨b, by simp, hbreaks b List.mem_cons_self⟩

/-- A text that comes to an end in front of breaks ends its last line with them. -/
theorem endsLine_append_breaks (hesc : Escape.Visible (some e)) (h : Joins e cs breaks)
    (hbreaks : ∀ c ∈ breaks, isBreak c = true) (hne : breaks ≠ [])
    (he : (Dockerfile.parse (cs ++ breaks)).escape = e) : EndsLine (cs ++ breaks) := by
  have hend : linesClosed (some e) breaks = true := by
    have hnil : linesClosed (some e) [] = true := rfl
    have happend := linesClosed_breaks_append hesc hbreaks hnil
    rwa [List.append_nil] at happend
  have hclosed := linesClosed_append_of_seam h.seam hne hend
  have hlt := bodyOffset_lt (any_append_breaks hbreaks hne cs)
  refine ⟨fun hnil => ?_, ?_⟩
  · exact absurd (List.drop_eq_nil_iff.mp hnil) (Nat.not_le.mpr hlt)
  · simp only [he]
    exact linesClosed_of_suffix (List.drop_suffix _ _) hclosed

/-- The instructions of a document are those of its body. -/
theorem parse_instructions {text : List Char} (he : (Dockerfile.parse text).escape = e) :
    (Dockerfile.parse text).instructions =
      instructionsFrom (some e) (Dockerfile.parse text).bodyOffset
        (text.drop (Dockerfile.parse text).bodyOffset) := by
  subst he
  rfl

section

variable (h : Padded (Dockerfile.parse above).escape above blanks breaks) (hne : breaks ≠ [])

include h

/-- What is put below the first lines leaves the escape character as it is. -/
theorem Padded.escape_plain :
    (Dockerfile.parse (above ++ breaks)).escape = (Dockerfile.parse above).escape :=
  congrArg escapeOf (parse?_append_breaks h.breaks)

/-- So it does with the blanks before it. -/
theorem Padded.escape_padded :
    (Dockerfile.parse (above ++ (blanks ++ breaks))).escape = (Dockerfile.parse above).escape :=
  h.directive_eq.2

/-- The scans of the body find the same. -/
theorem Padded.scan_agrees (keywords : List String) :
    let esc := some (Dockerfile.parse above).escape
    (scan esc keywords (Dockerfile.parse (above ++ breaks)).bodyOffset (above ++ breaks)).Agrees
      (scan esc keywords (Dockerfile.parse (above ++ (blanks ++ breaks))).bodyOffset
        (above ++ (blanks ++ breaks))) := by
  intro esc
  have hbody := h.of_suffix (List.drop_suffix (Dockerfile.parse above).bodyOffset above)
  exact h.body_abreast.scanFrom_agrees h.breaks
    (scanFrom_padded (visible_escape above) keywords _ hbody)

/-- The scan ends above the breaks with the blanks if it does without. -/
theorem Padded.endsScan_eq (keywords : List String) :
    endsScan keywords (above ++ (blanks ++ breaks)) = endsScan keywords (above ++ breaks) := by
  unfold endsScan
  simp only [h.escape_padded, h.escape_plain]
  exact (h.scan_agrees keywords).ended

include hne

/-- The instructions match. -/
theorem Padded.instructions_match :
    List.Forall₂
      (Instruction.Matches (some (Dockerfile.parse above).escape)
        (above ++ (blanks ++ breaks)).length)
      (Dockerfile.parse (above ++ breaks)).instructions
      (Dockerfile.parse (above ++ (blanks ++ breaks))).instructions := by
  let start := (Dockerfile.parse above).bodyOffset
  have hbody := h.of_suffix (List.drop_suffix start above)
  have hfinish : start + (above.drop start ++ (blanks ++ breaks)).length ≤
      (above ++ (blanks ++ breaks)).length := by
    have hstart := (drop_bodyOffset_append above []).2
    simp only [List.length_append, start]
    omega
  have hmatch := h.body_abreast.instructions_match (visible_escape above) hbody hne hfinish
  rw [parse_instructions h.escape_plain, parse_instructions h.escape_padded]
  exact hmatch

/-- The lines of the text end with the break, with blanks in front of it and without. -/
theorem Padded.endsLine_plain : EndsLine (above ++ breaks) :=
  endsLine_append_breaks (visible_escape above) h.joins h.breaks hne h.escape_plain

/-- The text above ends a line with the blanks too. -/
theorem Padded.endsLine_padded : EndsLine (above ++ (blanks ++ breaks)) := by
  have hesc := visible_escape above
  have hescape := h.escape_padded
  rw [← List.append_assoc] at hescape ⊢
  exact endsLine_append_breaks hesc (h.joins_padded hesc) h.breaks hne hescape

/-- **Blanks in front of the last break.**  The same is found, at the same places. -/
theorem Padded.lint_eq (settings : LintSettings) (keywords : List String) :
    lint settings keywords (above ++ (blanks ++ breaks)) =
      lint settings keywords (above ++ breaks) := by
  let ctx : CheckContext :=
    { keywords, settings, escape := some (Dockerfile.parse above).escape
      finish := (above ++ (blanks ++ breaks)).length }
  have hinstructions := h.instructions_match hne
  have hlength : (above ++ breaks).length ≤ (above ++ (blanks ++ breaks)).length := by
    simp only [List.length_append]
    omega
  have hplain : checkInstructions ctx (Dockerfile.parse (above ++ breaks)).instructions =
      (lint settings keywords (above ++ breaks)).instructions := by
    rw [← checkInstructions_of_le settings keywords (h.endsLine_plain hne) hlength]
    unfold contextOf
    rw [h.escape_plain]
  have hpadded : contextOf settings keywords (above ++ (blanks ++ breaks))
      (Dockerfile.parse (above ++ (blanks ++ breaks))) = ctx := by
    unfold contextOf
    rw [h.escape_padded]
  have hdirective : checkDirective (Directive.parse? (above ++ (blanks ++ breaks))) =
      checkDirective (Directive.parse? (above ++ breaks)) := by
    rw [h.directive_eq.1, parse?_append_breaks h.breaks]
  refine (LintReport.mk.injEq ..).mpr ⟨hdirective, ?_, ?_, ?_⟩
  · exact checkSourceImage_of_matches hinstructions
  · rw [hpadded, checkInstructions_of_matches ctx hinstructions]
    exact hplain
  · rw [h.escape_padded, h.escape_plain]
    exact (h.scan_agrees keywords).findings

/-- Whether the first instruction is below does not depend on the blanks. -/
theorem Padded.firstBelow_eq (below : List Char) :
    firstBelow (above ++ (blanks ++ breaks)) below = firstBelow (above ++ breaks) below := by
  have hnone : (Dockerfile.parse (above ++ (blanks ++ breaks))).instructions = [] ↔
      (Dockerfile.parse (above ++ breaks)).instructions = [] := by
    have hlength := (h.instructions_match hne).length_eq
    rw [← List.length_eq_zero_iff, ← List.length_eq_zero_iff, hlength]
  unfold firstBelow
  simp only [hnone, h.escape_padded, h.escape_plain]

/-- Nothing is found behind the text above, neither in the break nor between its two
characters. -/
theorem Padded.findings_within {n : Nat} (hbreak : lineBreak? breaks = some (n, [])) :
    ∀ f ∈ (lint settings keywords (above ++ breaks)).findings, f.span.Within 0 above.length := by
  intro f hf
  have hwithin := (h.endsLine_plain hne).findings_within settings keywords f hf
  have hplaced : SplitsNoBreak (above ++ breaks) f.span.stop :=
    (lint_placed settings keywords (above ++ breaks) f hf).pointsAt.1.whole_stop
  refine ⟨hwithin.le_start, hwithin.start_le, ?_⟩
  have hstop := hwithin.stop_le
  rw [List.length_append] at hstop
  rcases lineBreak?_cases hbreak with ⟨-, rfl⟩ | ⟨-, rfl, -⟩ | ⟨-, rfl⟩
  · refine Nat.le_of_not_lt fun hlt => ?_
    have hmid : f.span.stop = above.length + 1 := by
      simp only [List.length_cons, List.length_nil] at hstop
      omega
    have htake : (above ++ ['\r', '\n']).take (above.length + 1) = above ++ ['\r'] :=
      List.take_length_add_append 1
    have hdrop : (above ++ ['\r', '\n']).drop (above.length + 1) = ['\n'] :=
      List.drop_length_add_append 1
    have hapart := hplaced.2
    rw [hmid, htake, hdrop] at hapart
    exact hapart (by simp) rfl
  · exact hstop
  · exact hstop

end

/-! ## Diagnostics around the break -/

/-- Blanks in front of the breaks make no further line. -/
theorem Padded.lineCount_eq (hesc : Escape.Visible (some e)) (h : Padded e above blanks breaks) :
    (Document.ofText (above ++ (blanks ++ breaks))).lineCount =
      (Document.ofText (above ++ breaks)).lineCount := by
  show (lineStartsOf _).length = (lineStartsOf _).length
  have hblanks : laterLineStarts above.length blanks = [] :=
    laterLineStarts_of_no_break _ fun c hc => isBreak_eq_false_of_isBlank (h.blank c hc)
  rw [← List.append_assoc, lineStartsOf_append (h.joins_padded hesc).apart,
    lineStartsOf_append h.joins_blank.apart, hblanks, List.append_nil,
    lineStartsOf_append h.apart, List.length_append, List.length_append, List.length_append,
    laterLineStarts_shift, List.length_map]

/-- What is found in the text above is reported at the same place, whatever is below it. -/
theorem diagnostic_above_breaks (happart : Apart above breaks) (hne : breaks ≠ []) {f : Finding}
    (hf : f.span.Within 0 above.length) (below : List Char) :
    f.diagnostic (Document.ofText (above ++ breaks ++ below)) =
      f.diagnostic (Document.ofText above) := by
  rw [List.append_assoc]
  refine diagnostic_front (fun hlast => ?_) hf
  rw [List.head?_append_of_ne_nil breaks hne]
  exact happart hlast

/-- **Blanks in front of a break** are not seen in the diagnostics of the text around it. -/
theorem Padded.validate_eq {n : Nat}
    (h : Padded (Dockerfile.parse above).escape above blanks breaks)
    (hbreak : lineBreak? breaks = some (n, [])) (hapart : Apart breaks below)
    (settings : LintSettings) (keywords : List String) :
    validate settings keywords (Document.ofText (above ++ (blanks ++ breaks) ++ below)) =
      validate settings keywords (Document.ofText (above ++ breaks ++ below)) := by
  have hne : breaks ≠ [] := by
    rintro rfl
    cases hbreak
  have hlast : ∀ front, (front ++ breaks).getLast? = breaks.getLast? := by
    intro front
    rw [List.getLast?_append, List.getLast?_eq_some_getLast hne, Option.some_or]
  have hbehind : ∀ front, Apart (front ++ breaks) below := by
    intro front hend
    exact hapart (hlast front ▸ hend)
  obtain ⟨b, hb, hisBreak⟩ := (h.endsLine_plain hne).getLast?
  have hlintPlain := lint_append settings keywords (h.endsLine_plain hne) below
  have hlintPadded := lint_append settings keywords (h.endsLine_padded hne) below
  rw [h.lint_eq hne, h.firstBelow_eq hne, h.endsScan_eq, h.escape_padded,
    ← h.escape_plain] at hlintPadded
  unfold validate
  show List.map _ (lint settings keywords (above ++ (blanks ++ breaks) ++ below)).findings =
    List.map _ (lint settings keywords (above ++ breaks ++ below)).findings
  rw [hlintPlain, hlintPadded, LintReport.findings_stack_map, LintReport.findings_stack_map]
  apply LintReport.gather_congr
  · intro f hf
    have hwithin := h.findings_within hne hbreak f hf
    have hne' : blanks ++ breaks ≠ [] := List.append_ne_nil_of_right_ne_nil blanks hne
    rw [diagnostic_above_breaks h.joins_blanks.apart hne' hwithin,
      diagnostic_above_breaks h.apart hne hwithin]
  · intro f
    have hpadded : (above ++ (blanks ++ breaks)).getLast? = some b := by
      rw [← List.append_assoc, hlast, ← hlast above, hb]
    have hapart' : Apart (above ++ (blanks ++ breaks)) below := by
      rw [← List.append_assoc]
      exact hbehind (above ++ blanks)
    rw [diagnostic_back hapart' hpadded hisBreak, diagnostic_back (hbehind above) hb hisBreak,
      h.lineCount_eq (visible_escape above)]

/-! ## Blanks at an offset -/

/-- The text with blanks put in at an offset. -/
def paddedAt (text : List Char) (offset : Nat) (blanks : List Char) : List Char :=
  text.take offset ++ (blanks ++ text.drop offset)

/-- The line break that starts at a break, and the text behind it. -/
theorem exists_lineBreak {text : List Char} {offset : Nat} (hb : BreakAt text offset) :
    ∃ breaks below n, text.drop offset = breaks ++ below ∧ lineBreak? breaks = some (n, []) ∧
      Apart breaks below := by
  obtain ⟨b, hget, hb⟩ := hb
  obtain ⟨hlt, rfl⟩ := List.getElem?_eq_some_iff.mp hget
  obtain ⟨⟨n, below⟩, hbreak⟩ :=
    Option.isSome_iff_exists.mp (lineBreak?_isSome (text.drop (offset + 1)) hb)
  rw [← List.drop_eq_getElem_cons hlt] at hbreak
  rcases lineBreak?_cases hbreak with ⟨-, hcs⟩ | ⟨-, hcs, hhead⟩ | ⟨-, hcs⟩
  · exact ⟨['\r', '\n'], below, 2, hcs, rfl, by simp [Apart]⟩
  · exact ⟨['\r'], below, 1, hcs, rfl, fun _ => hhead⟩
  · exact ⟨['\n'], below, 1, hcs, rfl, by simp [Apart]⟩

/-- **Trailing blanks are invisible.**  Put in at the end of a line, where a line break
starts and no escape character stands, spaces and tabs leave the diagnostics of a document
as they are, ranges and all. -/
theorem validate_trailingBlanks (settings : LintSettings) (keywords : List String)
    {text : List Char} {offset : Nat} (hb : BreakAt text offset)
    (hwhole : SplitsNoBreak text offset)
    (hlast : (text.take offset).getLast? ≠ some (Dockerfile.parse text).escape)
    (hblanks : ∀ c ∈ blanks, isBlank c = true) :
    validate settings keywords (Document.ofText (paddedAt text offset blanks)) =
      validate settings keywords (Document.ofText text) := by
  obtain ⟨breaks, below, n, hdrop, hbreak, hapart⟩ := exists_lineBreak hb
  have hne : breaks ≠ [] := by
    rintro rfl
    cases hbreak
  have hbreaks : ∀ c ∈ breaks, isBreak c = true := by
    obtain ⟨all, hall, -, hisBreak⟩ := lineBreak?_eq_append hbreak
    rw [List.append_nil] at hall
    exact hall ▸ hisBreak
  have htext : text = text.take offset ++ breaks ++ below := by
    rw [List.append_assoc, ← hdrop, List.take_append_drop]
  have hescape : (Dockerfile.parse text).escape =
      (Dockerfile.parse (text.take offset)).escape := by
    have hdirective : Directive.parse? text = Directive.parse? (text.take offset) := by
      conv => lhs; rw [htext]
      rw [parse?_append (any_append_breaks hbreaks hne _), parse?_append_breaks hbreaks]
    exact congrArg escapeOf hdirective
  have hpadded : Padded (Dockerfile.parse (text.take offset)).escape (text.take offset) blanks
      breaks := by
    refine ⟨hescape ▸ hlast, fun hend hhead => hwhole.2 hend ?_, hblanks, hbreaks⟩
    rw [hdrop, List.head?_append_of_ne_nil breaks hne, hhead]
  have hinserted : paddedAt text offset blanks =
      text.take offset ++ (blanks ++ breaks) ++ below := by
    unfold paddedAt
    rw [hdrop, List.append_assoc, List.append_assoc]
  rw [hinserted, hpadded.validate_eq hbreak hapart, ← htext]

/-- A list that stops in the middle of a string, above an instruction that is not
complete. -/
def cutString : List Char := "FROM x\nVOLUME [\"a\nUSER\n".toList

/-- Blanks at the end of the string that is not closed are not seen. -/
theorem validate_trailingBlanks_cutString :
    BreakAt cutString 17 ∧ SplitsNoBreak cutString 17 ∧
      (cutString.take 17).getLast? ≠ some (Dockerfile.parse cutString).escape ∧
      (∀ c ∈ [' ', '\t'], isBlank c = true) ∧
      validate {} standardKeywords (Document.ofText cutString) ≠ [] ∧
      validate {} standardKeywords (Document.ofText (paddedAt cutString 17 [' ', '\t'])) =
        validate {} standardKeywords (Document.ofText cutString) := by
  have hb : BreakAt cutString 17 := ⟨'\n', by decide +kernel, rfl⟩
  have hwhole : SplitsNoBreak cutString 17 :=
    ⟨by decide +kernel, fun hlast => absurd hlast (by decide +kernel)⟩
  have hlast : (cutString.take 17).getLast? ≠ some (Dockerfile.parse cutString).escape := by
    decide +kernel
  have hblanks : ∀ c ∈ [' ', '\t'], isBlank c = true := by
    simp [isBlank]
  exact ⟨hb, hwhole, hlast, hblanks, by decide +kernel,
    validate_trailingBlanks {} standardKeywords hb hwhole hlast hblanks⟩

/-- Behind the escape character a blank takes away the continuation. -/
example :
    let text := "FROM x\nRUN \\\n y\n".toList
    validate {} standardKeywords (Document.ofText (paddedAt text 12 [' '])) ≠
      validate {} standardKeywords (Document.ofText text) := by
  decide +kernel

end DockerfileLint
