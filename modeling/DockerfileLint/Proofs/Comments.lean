import DockerfileLint.Proofs.Stacking

/-!
# What comments say

A comment line between a document and the text below it only moves that text one line
down.  For the scan this holds whatever the comment says, because a comment ends
there with its physical line.  The parser reads a comment to the end of its logical
line: with the escape character at its end the comment swallows the line below, and
whatever instruction starts there is not validated.

`validate_comment_iff` says that this is the only way in which the text of a comment
influences a validation, and that it always can.
-/

namespace DockerfileLint

variable {esc : Escape} {keywords : List String} {settings : LintSettings}
variable {above content below : List Char}

/-- A comment with the line feed that ends it. -/
def commentLine (content : List Char) : List Char :=
  '#' :: content ++ ['\n']

/-- A document, a comment line, and the text below it. -/
def withComment (above content below : List Char) : List Char :=
  above ++ (commentLine content ++ below)

/-! ## The comment as a line -/

/-- A comment line ends before the text below it. -/
theorem commentLine_append (content below : List Char) :
    commentLine content ++ below = ('#' :: content) ++ '\n' :: below := by
  simp [commentLine]

/-- A comment line ends in its line feed. -/
theorem commentLine_getLast? (content : List Char) :
    (commentLine content).getLast? = some '\n' :=
  List.getLast?_concat

/-- No line break runs on from a comment line into the text below it. -/
theorem apart_commentLine (content below : List Char) : Apart (commentLine content) below := by
  intro hlast
  rw [commentLine_getLast?] at hlast
  simp at hlast

/-- None runs on from the document into the comment line. -/
theorem apart_above (above content below : List Char) :
    Apart above (commentLine content ++ below) := by
  intro _
  simp [commentLine]

/-- A comment is one physical line. -/
theorem isBreak_of_mem_mark (hcontent : ∀ c ∈ content, isBreak c = false) :
    ∀ c ∈ '#' :: content, isBreak c = false := by
  intro c hc
  rcases List.mem_cons.mp hc with rfl | hc
  · rfl
  · exact hcontent c hc

/-- A line starts behind a line feed, and none before it. -/
theorem laterLineStarts_line {line : List Char} (hline : ∀ c ∈ line, isBreak c = false)
    (off : Nat) : laterLineStarts off (line ++ ['\n']) = [off + line.length + 1] := by
  have hapart : Apart line ['\n'] := by
    intro hlast
    cases hline '\r' (List.mem_of_getLast? hlast)
  rw [laterLineStarts_append off line hapart, laterLineStarts_of_no_break off hline]
  rfl

/-- A comment line is a line, with an empty one behind it. -/
theorem lineCount_commentLine (hcontent : ∀ c ∈ content, isBreak c = false) :
    (Document.ofText (commentLine content)).lineCount = 2 := by
  show (lineStartsOf (('#' :: content) ++ ['\n'])).length = 2
  rw [lineStartsOf_eq, laterLineStarts_line (isBreak_of_mem_mark hcontent)]
  rfl

/-! ## The two passes -/

/-- The scan goes past the comment, whatever it says. -/
theorem scanFrom_commentLine (esc : Escape) (keywords : List String)
    (hcontent : ∀ c ∈ content, isBreak c = false) (below : List Char) :
    scanFrom esc keywords 0 (commentLine content ++ below) =
      (scanFrom esc keywords 0 below).shift (commentLine content).length := by
  have hfirst : firstLine ('#' :: (content ++ '\n' :: below)) = '#' :: content := by
    unfold firstLine
    rw [List.takeWhile_cons_of_pos rfl, List.takeWhile_append_of_pos]
    · simp [isBreak]
    · intro c hc
      simp [hcontent c hc]
  have hafter : afterFirstLine ('#' :: (content ++ '\n' :: below)) = '\n' :: below := by
    unfold afterFirstLine
    rw [List.dropWhile_cons_of_pos rfl, List.dropWhile_append_of_pos]
    · simp [isBreak]
    · intro c hc
      simp [hcontent c hc]
  rw [commentLine_append, List.cons_append, scanFrom_of_mark, hfirst, hafter,
    scanFrom_of_isSpace rfl, ← scanFrom_shift]
  simp [commentLine]

/-- The parser goes past the characters of a line that make no continuation with what
is behind them. -/
theorem readLine_pass {line tail : List Char} (hline : ∀ c ∈ line, isBreak c = false)
    (htail : ∀ e, esc = some e → line.getLast? = some e →
      ∀ d ds, tail = d :: ds → isBreak d = false) (off : Nat) :
    (readLine esc off (line ++ tail)).stop = (readLine esc (off + line.length) tail).stop ∧
      (readLine esc off (line ++ tail)).rest = (readLine esc (off + line.length) tail).rest := by
  induction line generalizing off with
  | nil => exact ⟨rfl, rfl⟩
  | cons c line ih =>
      have hc := hline c List.mem_cons_self
      have hline' : ∀ d ∈ line, isBreak d = false :=
        fun d hd => hline d (List.mem_cons_of_mem c hd)
      have hcont : continuation? esc (c :: (line ++ tail)) = none := by
        apply continuation?_eq_none_of_line hline'
        intro hesc hnil
        exact htail c hesc (by rw [hnil]; rfl)
      have htail' : ∀ e, esc = some e → line.getLast? = some e →
          ∀ d ds, tail = d :: ds → isBreak d = false := by
        intro e he hlast
        apply htail e he
        cases line with
        | nil => simp at hlast
        | cons d ds => simpa using hlast
      have hread := ih hline' htail' (off + 1)
      have hlength : off + (c :: line).length = off + 1 + line.length := by
        rw [List.length_cons]
        omega
      rw [hlength, ← hread.1, ← hread.2]
      unfold readLine
      rw [List.cons_append, readWhile_cons_of_keep hcont (by simp [hc])]
      exact ⟨rfl, rfl⟩

/-- The parser goes past a comment that does not end in the escape character. -/
theorem instructionsFrom_commentLine {e : Char} (hesc : Escape.Visible (some e)) (he : e ≠ '#')
    (hcontent : ∀ c ∈ content, isBreak c = false) (hlast : content.getLast? ≠ some e)
    (below : List Char) :
    instructionsFrom (some e) 0 (commentLine content ++ below) =
      (instructionsFrom (some e) 0 below).map (Instruction.shift (commentLine content).length) := by
  have hend : ∀ d, some e = some d → ('#' :: content).getLast? = some d →
      ∀ b ds, '\n' :: below = b :: ds → isBreak b = false := by
    intro d hd hmark
    obtain rfl := Option.some.inj hd
    cases content with
    | nil =>
        obtain rfl : '#' = e := by simpa using hmark
        exact absurd rfl he
    | cons c cs => exact absurd (by simpa using hmark) hlast
  obtain ⟨hstop, hrest⟩ := readLine_pass (isBreak_of_mem_mark hcontent) hend 0
  have hcont : continuation? (some e) ('\n' :: below) = none :=
    hesc.continuation?_eq_none below rfl
  have hbreak : readLine (some e) (0 + ('#' :: content).length) ('\n' :: below) =
      ⟨[], 0 + ('#' :: content).length, '\n' :: below⟩ :=
    readWhile_cons_of_not_keep hcont rfl
  rw [hbreak] at hstop hrest
  rw [commentLine_append, List.cons_append, instructionsFrom_of_mark]
  rw [List.cons_append] at hstop hrest
  rw [hstop, hrest, instructionsFrom_of_isSpace rfl, ← instructionsFrom_shift]
  simp [commentLine]

/-- A comment that ends in the escape character swallows the line below. -/
theorem instructionsFrom_swallowed {e c : Char} (hesc : Escape.Visible (some e))
    (hcontent : ∀ d ∈ content, isBreak d = false) (hc : isBreak c = false) (hce : c ≠ e) :
    instructionsFrom (some e) 0 (commentLine (content ++ [e]) ++ [c]) = [] := by
  have he : isBreak e = false := isBreak_eq_false_of_isSpace (hesc e rfl)
  have hend : ∀ d, some e = some d → ('#' :: content).getLast? = some d →
      ∀ b ds, [e, '\n', c] = b :: ds → isBreak b = false := by
    rintro d - - b ds hds
    obtain ⟨rfl, -⟩ := List.cons.inj hds
    exact he
  obtain ⟨hstop, hrest⟩ := readLine_pass (isBreak_of_mem_mark hcontent) hend 0
  have hcont : continuation? (some e) [e, '\n', c] = some (2, [c]) := by
    simp [continuation?, lineBreak?]
  have hnone : continuation? (some e) [c] = none :=
    continuation?_cons_of_ne [] fun heq => hce (Option.some.inj heq).symm
  have hswallow : ∀ off, (readLine (some e) off [e, '\n', c]).rest = [] := by
    intro off
    unfold readLine
    rw [readWhile_of_continuation? hcont, readWhile_cons_of_keep hnone (by simp [hc])]
    simp
  have htext : commentLine (content ++ [e]) ++ [c] = '#' :: (content ++ [e, '\n', c]) := by
    simp [commentLine]
  rw [List.cons_append] at hstop hrest
  rw [htext, instructionsFrom_of_mark, hstop, hrest, hswallow, instructionsFrom_nil]

/-! ## The findings -/

/-- Below a comment that the parser goes past the same is found, further on by the
length of the comment. -/
theorem lintBelow_commentLine {e : Char} (hesc : Escape.Visible (some e)) (he : e ≠ '#')
    (hcontent : ∀ c ∈ content, isBreak c = false) (hlast : content.getLast? ≠ some e)
    (settings : LintSettings) (keywords : List String) (below : List Char) :
    lintBelow settings keywords (some e) (commentLine content ++ below) =
      (lintBelow settings keywords (some e) below).shift (commentLine content).length := by
  have hinstructions := instructionsFrom_commentLine hesc he hcontent hlast below
  have hscan : (scanFrom (some e) keywords 0 (commentLine content ++ below)).findings =
      (scanFrom (some e) keywords 0 below).findings.map
        (Finding.shift (commentLine content).length) := by
    rw [scanFrom_commentLine _ keywords hcontent, Scan.shift_findings]
  have hcontext : belowContext settings keywords (some e) (commentLine content ++ below) =
      { belowContext settings keywords (some e) below with
        finish := below.length + (commentLine content).length } := by
    unfold belowContext
    rw [List.length_append, Nat.add_comm]
  have hchecks : checkInstructions
      (belowContext settings keywords (some e) (commentLine content ++ below))
      ((instructionsFrom (some e) 0 below).map (Instruction.shift (commentLine content).length)) =
        (checkInstructions (belowContext settings keywords (some e) below)
          (instructionsFrom (some e) 0 below)).map
            (Finding.shift (commentLine content).length) := by
    rw [hcontext, ← checkInstructions_shift]
    rfl
  unfold lintBelow LintReport.shift
  simp only [hinstructions, hchecks, hscan, List.map_eq_nil_iff]
  split
  · rfl
  · rename_i hne
    rw [checkSourceImage_relocate fun h => absurd h hne]
    rfl

/-- Whether the first instruction is below does not depend on a comment that the parser
goes past. -/
theorem firstBelow_commentLine (hcontent : ∀ c ∈ content, isBreak c = false)
    (hlast : content.getLast? ≠ some (Dockerfile.parse above).escape) (below : List Char) :
    firstBelow above (commentLine content ++ below) = firstBelow above below := by
  have hinstructions := instructionsFrom_commentLine (visible_escape above)
    (escape_ne_mark above) hcontent hlast below
  simp only [firstBelow, hinstructions, ne_eq, List.map_eq_nil_iff]

/-- What is found in a document is reported alike with a comment and a text below. -/
theorem diagnostic_above {f : Finding} (hf : f.span.Within 0 above.length)
    (content below : List Char) :
    f.diagnostic (Document.ofText (withComment above content below)) =
      f.diagnostic (Document.ofText above) :=
  diagnostic_front (apart_above above content below) hf

/-- What is found in a text is reported below a document and a comment as many lines
further down as the document has, whatever the comment says. -/
theorem diagnostic_below {b : Char} (hlast : above.getLast? = some b) (hb : isBreak b = true)
    (hcontent : ∀ c ∈ content, isBreak c = false) (f : Finding) (below : List Char) :
    ((f.shift (commentLine content).length).shift above.length).diagnostic
        (Document.ofText (withComment above content below)) =
      (f.diagnostic (Document.ofText below)).down (Document.ofText above).lineCount := by
  have hcomment := diagnostic_back (apart_commentLine content below) (commentLine_getLast? content)
    rfl f
  have hlines : 0 < (Document.ofText above).lineCount := by
    show 0 < (lineStartsOf above).length
    simp [lineStartsOf_eq]
  unfold withComment
  rw [diagnostic_back (apart_above above content below) hlast hb, hcomment,
    lineCount_commentLine hcontent, Diagnostic.down_down]
  congr 1
  omega

/-- The diagnostics of a document with a comment and a text below it, from the reports of
the document and of what is below. -/
theorem validate_withComment_eq (h : EndsLine above) (content : List Char)
    (settings : LintSettings) (keywords : List String) (below : List Char) :
    let d := Document.ofText (withComment above content below)
    validate settings keywords d =
      LintReport.gather (fun f => f.diagnostic d)
        (fun f => (f.shift above.length).diagnostic d) (lint settings keywords above)
        (lintBelow settings keywords (some (Dockerfile.parse above).escape)
          (commentLine content ++ below))
        (firstBelow above (commentLine content ++ below)) (endsScan keywords above) := by
  intro d
  have hlint : lint settings keywords d.text = _ :=
    lint_append settings keywords h (commentLine content ++ below)
  unfold validate
  rw [hlint, LintReport.findings_stack_map]

/-- The diagnostics of a document with a comment and a text below it, in terms that do
not mention the comment. -/
def diagnosticsAround (settings : LintSettings) (keywords : List String)
    (above below : List Char) : List Diagnostic :=
  LintReport.gather (fun f => f.diagnostic (Document.ofText above))
    (fun f => (f.diagnostic (Document.ofText below)).down (Document.ofText above).lineCount)
    (lint settings keywords above)
    (lintBelow settings keywords (some (Dockerfile.parse above).escape) below)
    (firstBelow above below) (endsScan keywords above)

/-- A comment that does not end in the escape character has no influence on the
diagnostics around it. -/
theorem validate_withComment (h : EndsLine above) (hcontent : ∀ c ∈ content, isBreak c = false)
    (hlast : content.getLast? ≠ some (Dockerfile.parse above).escape)
    (settings : LintSettings) (keywords : List String) (below : List Char) :
    validate settings keywords (Document.ofText (withComment above content below)) =
      diagnosticsAround settings keywords above below := by
  obtain ⟨b, hb, hbreak⟩ := h.getLast?
  rw [validate_withComment_eq h, lintBelow_commentLine (visible_escape above)
    (escape_ne_mark above) hcontent hlast, firstBelow_commentLine hcontent hlast,
    LintReport.gather_shift]
  apply LintReport.gather_congr
  · intro f hf
    exact diagnostic_above (lint_within settings keywords above f hf) content below
  · intro f
    exact diagnostic_below hb hbreak hcontent f below

/-! ## When a comment has influence -/

/-- With nothing allowed every instruction is reported, once. -/
theorem checkInstructions_length (ctx : CheckContext) (hnone : ctx.keywords = [])
    (instructions : List Instruction) :
    (checkInstructions ctx instructions).length = instructions.length := by
  unfold checkInstructions
  induction instructions with
  | nil => rfl
  | cons i instructions ih =>
      have hone : checkInstruction ctx i = [⟨.unknownInstruction i.keyword, i.nameSpan⟩] := by
        unfold checkInstruction
        rw [hnone, if_pos List.not_mem_nil]
      rw [List.flatMap_cons, hone, List.singleton_append, List.length_cons, List.length_cons, ih]

/-- Below a comment that swallows the text below it only the scan finds anything. -/
theorem lintBelow_swallowed {e c : Char} (hesc : Escape.Visible (some e))
    (hcontent : ∀ d ∈ content, isBreak d = false) (he : isBreak e = false)
    (hc : isBreak c = false) (hce : c ≠ e) (settings : LintSettings) (keywords : List String) :
    lintBelow settings keywords (some e) (commentLine (content ++ [e]) ++ [c]) =
      { directive := []
        sourceImage := []
        instructions := []
        scan := (lintBelow settings keywords (some e) [c]).scan.map
          (Finding.shift (commentLine (content ++ [e])).length) } := by
  have hline : ∀ d ∈ content ++ [e], isBreak d = false := by
    intro d hd
    rcases List.mem_append.mp hd with hd | hd
    · exact hcontent d hd
    · rwa [List.mem_singleton.mp hd]
  have hscan : (scanFrom (some e) keywords 0 (commentLine (content ++ [e]) ++ [c])).findings =
      (scanFrom (some e) keywords 0 [c]).findings.map
        (Finding.shift (commentLine (content ++ [e])).length) := by
    rw [scanFrom_commentLine _ keywords hline, Scan.shift_findings]
  unfold lintBelow
  rw [instructionsFrom_swallowed hesc hcontent hc hce, hscan]
  rfl

/-- A document whose first instruction would be below it misses one. -/
theorem sourceImage_length_of_firstBelow (settings : LintSettings) (keywords : List String)
    (h : firstBelow above below = true) :
    (lint settings keywords above).sourceImage.length = 1 := by
  obtain ⟨hnone, -⟩ := of_decide_eq_true h
  show (checkSourceImage (Dockerfile.parse above).instructions).length = 1
  rw [hnone]
  rfl

/-- With nothing allowed two things are wrong with an unknown word: that it is not `FROM`,
and that it is not an instruction. -/
theorem lintBelow_unknown {e : Char} (he : e = '`' ∨ e = '\\') (settings : LintSettings) :
    (lintBelow settings [] (some e) ['X']).sourceImage.length = 1 ∧
      (lintBelow settings [] (some e) ['X']).instructions.length = 1 := by
  have hone : instructionsFrom (some e) 0 ['X'] = [readInstruction (some e) 0 ['X']] := by
    rcases he with rfl | rfl <;> decide +kernel
  have hkeyword : (readInstruction (some e) 0 ['X']).keyword = "X" := by
    rcases he with rfl | rfl <;> decide +kernel
  unfold lintBelow
  simp only [hone]
  constructor
  · simp [checkSourceImage, hkeyword]
  · rw [checkInstructions_length _ rfl]
    rfl

/-- A comment that ends in the escape character changes what is said of the line below
it. -/
theorem validate_swallowed (h : EndsLine above) (hcontent : ∀ c ∈ content, isBreak c = false)
    (hlast : content.getLast? = some (Dockerfile.parse above).escape) :
    validate {} [] (Document.ofText (withComment above content ['X'])) ≠
      validate {} [] (Document.ofText (withComment above [] ['X'])) := by
  intro hsame
  obtain ⟨init, rfl⟩ := List.getLast?_eq_some_iff.mp hlast
  have hvisible := visible_escape above
  have hinit : ∀ d ∈ init, isBreak d = false :=
    fun d hd => hcontent d (List.mem_append_left _ hd)
  have hempty : ∀ d ∈ ([] : List Char), isBreak d = false := by
    simp
  have hnotlast : ([] : List Char).getLast? ≠ some (Dockerfile.parse above).escape := by
    simp
  have hX : 'X' ≠ (Dockerfile.parse above).escape := by
    rcases escape_cases above with hesc | hesc <;> rw [hesc] <;> decide
  have hswallowed := lintBelow_swallowed hvisible hinit (hcontent _ (by simp)) (by decide) hX {} []
  have hread := lintBelow_commentLine hvisible (escape_ne_mark above) hempty hnotlast {} [] ['X']
  have hfirst : firstBelow above
      (commentLine (init ++ [(Dockerfile.parse above).escape]) ++ ['X']) = false := by
    simp [firstBelow, instructionsFrom_swallowed hvisible hinit (by decide) hX]
  obtain ⟨hsource, hinstructions⟩ := lintBelow_unknown (escape_cases above) {}
  have hlengths := congrArg List.length hsame
  rw [validate_withComment_eq h, validate_withComment_eq h, hswallowed, hread, hfirst,
    firstBelow_commentLine hempty hnotlast, LintReport.length_gather,
    LintReport.length_gather] at hlengths
  simp only [LintReport.shift, List.length_map, List.length_nil, hsource, hinstructions,
    Bool.false_eq_true, if_false] at hlengths
  cases hbelow : firstBelow above ['X'] with
  | true =>
      rw [hbelow, if_pos rfl, sourceImage_length_of_firstBelow {} [] hbelow] at hlengths
      omega
  | false =>
      rw [hbelow, if_neg Bool.false_ne_true] at hlengths
      omega

/-- **When the text of a comment counts.**  For a document that ends its line, a comment
below it, and any text below the comment: whatever is allowed and however the linter is
set, the diagnostics are those with an empty comment, if and only if the comment does
not end in the escape character. -/
theorem validate_comment_iff (h : EndsLine above) (hcontent : ∀ c ∈ content, isBreak c = false) :
    (∀ settings keywords below,
      validate settings keywords (Document.ofText (withComment above content below)) =
        validate settings keywords (Document.ofText (withComment above [] below))) ↔
      content.getLast? ≠ some (Dockerfile.parse above).escape := by
  constructor
  · intro hsame hlast
    exact validate_swallowed h hcontent hlast (hsame {} [] ['X'])
  · intro hlast settings keywords below
    rw [validate_withComment h hcontent hlast,
      validate_withComment h (fun c hc => by cases hc) (by simp)]

/-- A document of one line. -/
def baseImage : List Char := "FROM x\n".toList

/-- Below `baseImage` a note does not count. -/
theorem validate_comment_baseImage :
    EndsLine baseImage ∧ (∀ c ∈ " note".toList, isBreak c = false) ∧
      " note".toList.getLast? ≠ some (Dockerfile.parse baseImage).escape ∧
      validate {} standardKeywords
          (Document.ofText (withComment baseImage " note".toList "RUN\n".toList)) =
        validate {} standardKeywords
          (Document.ofText (withComment baseImage [] "RUN\n".toList)) := by
  have hends : EndsLine baseImage := by
    decide +kernel
  have hnote : ∀ c ∈ " note".toList, isBreak c = false := by
    simp [isBreak]
  have hlast : " note".toList.getLast? ≠ some (Dockerfile.parse baseImage).escape := by
    decide +kernel
  exact ⟨hends, hnote, hlast,
    (validate_comment_iff hends hnote).mpr hlast {} standardKeywords "RUN\n".toList⟩

/-- Below `baseImage` a note that ends in a backslash hides the instruction behind it: that it
has no arguments is reported only where the comment is empty. -/
theorem note_hides_instruction :
    let noted := Document.ofText "FROM x\n# note \\\nRUN\n".toList
    let plain := Document.ofText "FROM x\n#\nRUN\n".toList
    noted.text = withComment baseImage " note \\".toList "RUN\n".toList ∧
      plain.text = withComment baseImage [] "RUN\n".toList ∧
      EndsLine baseImage ∧ (∀ c ∈ " note \\".toList, isBreak c = false) ∧
      validate {} standardKeywords noted = [] ∧
      validate {} standardKeywords plain =
        [⟨⟨⟨2, 0⟩, ⟨2, 3⟩⟩, "Instruction has no arguments", .error, .missingArgument⟩] ∧
      validate {} standardKeywords noted ≠ validate {} standardKeywords plain := by
  intro noted plain
  have hnoted : validate {} standardKeywords noted = [] := by
    decide +kernel
  have hplain : validate {} standardKeywords plain =
      [⟨⟨⟨2, 0⟩, ⟨2, 3⟩⟩, "Instruction has no arguments", .error, .missingArgument⟩] := by
    decide +kernel
  refine ⟨rfl, rfl, by decide +kernel, by simp [isBreak], hnoted, hplain, ?_⟩
  rw [hnoted, hplain]
  exact List.ne_cons_self

end DockerfileLint
