import DockerfileLint.Proofs.Places
import DockerfileLint.Proofs.UpperCase
import DockerfileLint.Report
import Mathlib.Data.List.Basic

/-!
# The lines of a report

A report is read line by line, so nothing that it takes over from a document may bring a line
break along.  What a message quotes is a word, the token of an argument or a piece of the
first line: continuations are taken out of it, and an escape character keeps no break, since
the two are a continuation.  A keyword is quoted in upper case, which makes no breaks.

* `lint_message_onOneLine`: no message holds a line break;
* `sourceLines_getElem?`: the lines of a document, found by where they start;
* `splitOn_reportText`: the lines of a report;
* `report_lines`: two lines for every diagnostic, and what they hold.
-/

namespace DockerfileLint

variable {esc : Escape} {text : List Char}

/-! ## Words on one line -/

/-- A text without a line break. -/
def OnOneLine (s : String) : Prop :=
  ∀ c ∈ s.toList, isBreak c = false

namespace OnOneLine

instance (s : String) : Decidable (OnOneLine s) :=
  List.decidableBAll (fun c => isBreak c = false) s.toList

/-- An empty text stands on one line. -/
theorem empty : OnOneLine "" := by
  decide

/-- Two texts stand on one line together if each of them does. -/
@[simp] theorem append_iff {s t : String} : OnOneLine (s ++ t) ↔ OnOneLine s ∧ OnOneLine t := by
  unfold OnOneLine
  rw [String.toList_append]
  exact List.forall_mem_append

/-- A text on one line has no line feed. -/
theorem newline_not_mem {s : String} (h : OnOneLine s) : '\n' ∉ s.toList :=
  fun hmem => absurd (h _ hmem) (by decide)

/-- It has no carriage return either. -/
theorem return_not_mem {s : String} (h : OnOneLine s) : '\r' ∉ s.toList :=
  fun hmem => absurd (h _ hmem) (by decide)

/-- A number is written with digits. -/
theorem natural (n : Nat) : OnOneLine (toString n) := by
  intro c hc
  rw [Nat.toString_eq_ofList_toDigits, String.toList_ofList] at hc
  have hdigit := Nat.isDigit_of_mem_toDigits (by decide) (by decide) hc
  cases hbreak : isBreak c with
  | false => rfl
  | true =>
      rcases eq_of_isBreak hbreak with rfl | rfl
      · exact absurd hdigit (by decide)
      · exact absurd hdigit (by decide)

/-- A sign breaks no line. -/
theorem integer (n : Int) : OnOneLine (toString n) := by
  cases n with
  | ofNat n => exact natural n
  | negSucc n => exact append_iff.mpr ⟨(by decide : OnOneLine "-"), natural (n + 1)⟩

/-- The message of a code stands on one line with a quote that does. -/
theorem wording (code : Code) {value : String} (h : OnOneLine value) :
    OnOneLine (code.wording.fill value) := by
  have hlead : OnOneLine code.wording.lead := by
    cases code <;> decide +kernel
  have htail : ∀ tail, code.wording.tail = some tail → OnOneLine tail := by
    intro tail htail
    cases code <;> cases htail <;> decide
  unfold Wording.fill
  split
  · rename_i tail heq
    exact append_iff.mpr ⟨append_iff.mpr ⟨hlead, h⟩, htail tail heq⟩
  · exact hlead

end OnOneLine

/-! ## What messages quote -/

/-- A word ends before the first white space. -/
theorem OnOneLine.word (esc : Escape) (off : Nat) (cs : List Char) :
    OnOneLine (readWord esc off cs).text := by
  intro c hc
  unfold Reading.text at hc
  rw [String.toList_ofList] at hc
  obtain ⟨p, hp, rfl⟩ := List.mem_map.mp hc
  have hkeep : (!isSpace p.1) = true := readWhile_taken_keep p hp
  exact isBreak_eq_false_of_isSpace (by simpa using hkeep)

/-- The keyword of an instruction stands on one line. -/
theorem OnOneLine.written (esc : Escape) (off : Nat) (cs : List Char) :
    OnOneLine (readInstruction esc off cs).written :=
  OnOneLine.word esc off cs

/-- A token holds no break, not even one with an escape character in front of it. -/
theorem OnOneLine.token (esc : Escape) (off : Nat) (cs : List Char) :
    OnOneLine (readToken esc off cs).text := by
  intro c hc
  unfold Reading.text at hc
  rw [String.toList_ofList] at hc
  obtain ⟨p, hp, rfl⟩ := List.mem_map.mp hc
  exact (readToken_taken_onward esc off cs p hp).1

/-- So do the values of arguments. -/
theorem argumentsFrom_onOneLine (esc : Escape) (off : Nat) (cs : List Char) :
    ∀ a ∈ argumentsFrom esc off cs, OnOneLine a.value := by
  induction off, cs using arguments_induction esc with
  | nil off cs hgap => simp [argumentsFrom_of_nil hgap]
  | cons off cs c rest hgap ih =>
      rw [argumentsFrom_of_cons hgap]
      intro a ha
      rcases List.mem_cons.mp ha with rfl | ha
      · exact OnOneLine.token esc _ _
      · exact ih a ha

/-- The pieces of a directive are pieces of a line. -/
theorem Span.Marks.onOneLine {s : Span Nat} {piece : String}
    (h : s.Marks (firstLine text) piece.toList) : OnOneLine piece := by
  intro c hc
  rw [← h.under] at hc
  exact isBreak_eq_false_of_mem_firstLine (List.mem_of_mem_drop (List.mem_of_mem_take hc))

/-- What a fault of the directive quotes stands on one line. -/
theorem checkDirective_quote_onOneLine {f : Finding}
    (hf : f ∈ checkDirective (Directive.parse? text)) : OnOneLine f.problem.quote := by
  obtain ⟨d, hd, hfault⟩ := mem_checkDirective hf
  obtain ⟨hname, hvalue⟩ := Directive.marks hd
  cases hfault with
  | name => exact hname.onOneLine
  | value => exact hvalue.onOneLine

/-- So does what a finding about an instruction quotes. -/
theorem checkInstruction_quote_onOneLine {ctx : CheckContext} {i : Instruction} {f : Finding}
    (hwritten : OnOneLine i.written) (hf : f ∈ checkInstruction ctx i) :
    OnOneLine f.problem.quote := by
  cases mem_checkInstruction hf with
  | unknown => exact Unicode.isBreak_eq_false_of_mem_upper hwritten
  | lowercase => exact OnOneLine.empty
  | deprecated => exact OnOneLine.empty
  | missing => exact OnOneLine.empty
  | argument hmem hfault =>
      cases hfault with
      | extra => exact OnOneLine.empty
      | signal => exact OnOneLine.empty
      | port => exact argumentsFrom_onOneLine _ _ _ _ hmem

/-- No message about a document holds a line break. -/
theorem lint_message_onOneLine (settings : LintSettings) (keywords : List String)
    (text : List Char) :
    ∀ f ∈ (lint settings keywords text).findings, OnOneLine f.problem.message := by
  intro f hf
  apply OnOneLine.wording
  cases mem_lint_findings hf with
  | directive hf => exact checkDirective_quote_onOneLine hf
  | sourceImage hf =>
      rcases mem_checkSourceImage hf with ⟨-, rfl⟩ | ⟨first, -, rfl⟩
      · exact OnOneLine.empty
      · exact OnOneLine.empty
  | instruction i hi hf =>
      obtain ⟨start, c, rest, -, -, -, -, rfl⟩ := mem_parse_instructions hi
      exact checkInstruction_quote_onOneLine (OnOneLine.written _ start (c :: rest)) hf
  | scan hf =>
      rw [(scanFrom_findings_covers rfl hf).1]
      exact OnOneLine.empty

/-! ## The lines of a document -/

/-- The lines of a text, without the breaks that end them. -/
def sourceLines (cs : List Char) : List (List Char) :=
  match _h : lineBreak? (afterFirstLine cs) with
  | some (_, rest) => firstLine cs :: sourceLines rest
  | none => [firstLine cs]
termination_by cs.length
decreasing_by
  have hlength := length_of_lineBreak? _h
  have hpos := lineBreak?_pos _h
  have hall := congrArg List.length (firstLine_append_afterFirstLine cs)
  rw [List.length_append] at hall
  omega

/-- Where the first line ends in a break, the others are those of the rest. -/
theorem sourceLines_of_next {n : Nat} (h : nextLine? text = some n) :
    sourceLines text = firstLine text :: sourceLines (text.drop n) := by
  obtain ⟨⟨k, rest⟩, hbreak, rfl⟩ := Option.map_eq_some_iff.mp h
  have hrest : rest = text.drop ((firstLine text).length + k) := by
    obtain ⟨breaks, hafter, rfl, -⟩ := lineBreak?_eq_append hbreak
    have hall := firstLine_append_afterFirstLine text
    rw [hafter] at hall
    rw [← List.drop_drop]
    conv => rhs; arg 2; arg 2; rw [← hall]
    rw [List.drop_left, List.drop_left]
  rw [sourceLines]
  split
  · rename_i heq
    rw [hbreak] at heq
    cases heq
    rw [hrest]
  · rename_i heq
    rw [hbreak] at heq
    cases heq

/-- Where it does not, it is the only one. -/
theorem sourceLines_of_last (h : nextLine? text = none) : sourceLines text = [firstLine text] := by
  have hbreak : lineBreak? (afterFirstLine text) = none := Option.map_eq_none_iff.mp h
  rw [sourceLines]
  split
  · rename_i heq
    rw [hbreak] at heq
    cases heq
  · rfl

/-- From the start of a line on the lines of a text are those of the rest. -/
theorem sourceLines_drop {line start : Nat} (h : (lineStartsOf text)[line]? = some start) :
    (sourceLines text).drop line = sourceLines (text.drop start) := by
  induction line generalizing start with
  | zero =>
      rw [lineStartsOf_eq] at h
      obtain rfl : 0 = start := by simpa using h
      rfl
  | succ line ih =>
      obtain ⟨before, hbefore⟩ : ∃ before, (lineStartsOf text)[line]? = some before := by
        have hlt := (List.getElem?_eq_some_iff.mp h).1
        exact ⟨_, List.getElem?_eq_getElem (Nat.lt_of_succ_lt hlt)⟩
      rw [lineStartsOf_next hbefore] at h
      obtain ⟨n, hn, rfl⟩ := Option.map_eq_some_iff.mp h
      rw [← List.drop_drop, ih hbefore, sourceLines_of_next hn, List.drop_one, List.tail_cons,
        List.drop_drop]

/-- A line of a text is found by where it starts. -/
theorem sourceLines_getElem? {line start : Nat} (h : (lineStartsOf text)[line]? = some start) :
    (sourceLines text)[line]? = some (firstLine (text.drop start)) := by
  have hdrop := congrArg List.head? (sourceLines_drop h)
  rw [List.head?_drop] at hdrop
  rw [hdrop]
  cases hn : nextLine? (text.drop start) with
  | none => rw [sourceLines_of_last hn, List.head?_cons]
  | some n => rw [sourceLines_of_next hn, List.head?_cons]

/-- A position that a document holds is on one of its lines. -/
theorem Document.Holds.sourceLine {p : Position} (h : (Document.ofText text).Holds p) :
    (sourceLines text)[p.line.toNat]? =
        some ((Document.ofText text).lineContent p.line.toNat) ∧
      ∀ c ∈ (Document.ofText text).lineContent p.line.toNat, isBreak c = false := by
  have hlt : p.line.toNat < (lineStartsOf text).length := by
    have hline := h.line_lt
    have hnonneg := h.line_nonneg
    have hcount : (Document.ofText text).lineCount = (lineStartsOf text).length := rfl
    omega
  have hstart := List.getElem?_eq_getElem hlt
  rw [lineContent_eq_firstLine hstart]
  exact ⟨sourceLines_getElem? hstart, fun c hc => isBreak_eq_false_of_mem_firstLine hc⟩

/-! ## The lines of a report -/

/-- What the diagnostics of a document give a report to quote. -/
theorem onOneLine_of_mem_validate {settings : LintSettings} {keywords : List String}
    {d : Diagnostic} (hd : d ∈ validate settings keywords (Document.ofText text)) :
    OnOneLine d.message ∧ (Document.ofText text).Holds d.range.start := by
  obtain ⟨f, hf, rfl⟩ := List.mem_map.mp hd
  exact ⟨lint_message_onOneLine settings keywords text f hf,
    (lint_placed settings keywords text f hf).pointsAt.1.holds_start⟩

/-- The line about a diagnostic is one line if its message is. -/
theorem OnOneLine.summary {d : Diagnostic} (h : OnOneLine d.message) : OnOneLine d.summary := by
  have hword : OnOneLine d.severity.word := by
    cases d.severity <;> decide
  have hname : OnOneLine d.code.name := by
    cases d.code <;> decide
  unfold Diagnostic.summary
  simp only [OnOneLine.append_iff, OnOneLine.integer, hword, hname, h, and_true]
  decide

/-- The quotation of a line of the document is one line. -/
theorem OnOneLine.quotation {d : Diagnostic}
    (h : (Document.ofText text).Holds d.range.start) :
    OnOneLine (d.quotation (Document.ofText text)) := by
  have hline : OnOneLine
      (String.ofList ((Document.ofText text).lineContent d.range.start.line.toNat)) := by
    intro c hc
    rw [String.toList_ofList] at hc
    exact h.sourceLine.2 c hc
  unfold Diagnostic.quotation
  simp only [h.line_lt, if_true]
  exact OnOneLine.append_iff.mpr ⟨by decide, hline⟩

/-- The counts stand on one line. -/
theorem OnOneLine.header (ds : List Diagnostic) : OnOneLine (reportHeader ds) := by
  unfold reportHeader
  simp only [OnOneLine.append_iff, OnOneLine.natural, and_true]
  decide

/-- A report has its header and two lines for each diagnostic. -/
theorem reportLines_length (doc : Document) (ds : List Diagnostic) :
    (reportLines doc ds).length = 2 * ds.length + 1 := by
  unfold reportLines
  rw [List.length_cons, List.length_flatMap]
  simp [List.map_const', Nat.mul_comm]

/-- The names of the codes, in the order of their numbers. -/
def codeNames : List String :=
  ["DEFAULT", "LOWERCASE", "EXTRA_ARGUMENT", "NO_SOURCE_IMAGE", "MISSING_ARGUMENT",
   "INVALID_ESCAPE_DIRECTIVE", "INVALID_PORT", "INVALID_STOPSIGNAL", "UNKNOWN_DIRECTIVE",
   "UNKNOWN_INSTRUCTION", "DEPRECATED_MAINTAINER"]

/-- Where a diagnostic starts, counted from one, its kind, the name of its code, and its
message. -/
theorem Diagnostic.summary_eq (d : Diagnostic) :
    d.summary = "  " ++ toString (d.range.start.line + 1) ++ ":" ++
      toString (d.range.start.character + 1) ++ " " ++
      (if d.severity = .error then "error" else "warning") ++
      " [" ++ codeNames.getD d.code.number "" ++ "] " ++ d.message := by
  have hword : d.severity.word = if d.severity = .error then "error" else "warning" := by
    cases d.severity <;> rfl
  have hname : d.code.name = codeNames.getD d.code.number "" := by
    cases d.code <;> rfl
  rw [← hword, ← hname]
  rfl

/-- What is no error is a warning. -/
theorem warningCount_eq (ds : List Diagnostic) :
    warningCount ds = ds.countP fun d => d.severity = .warning := by
  have hsplit :=
    List.length_eq_countP_add_countP (fun d : Diagnostic => d.severity = .error) (l := ds)
  have hrest : ds.countP (fun d => ¬ (d.severity = .error : Bool)) =
      ds.countP fun d => d.severity = .warning := by
    apply List.countP_congr
    intro d _
    cases d.severity <;> decide
  unfold warningCount errorCount
  omega

/-- The lines of a report as texts. -/
theorem reportLines_toList (doc : Document) {ds : List Diagnostic}
    (hds : ∀ d ∈ ds, d.range.start.line < doc.lineCount) :
    (reportLines doc ds).map String.toList =
      (reportHeader ds).toList :: ds.flatMap fun d =>
        [d.summary.toList, "      | ".toList ++ doc.lineContent d.range.start.line.toNat] := by
  unfold reportLines Diagnostic.quotation
  rw [List.map_cons, List.map_flatMap]
  refine congrArg _ (List.flatMap_congr fun d hd => ?_)
  simp only [hds d hd, if_true, List.map_cons, List.map_nil, String.toList_append,
    String.toList_ofList]

/-- No line of a report holds a line break. -/
theorem reportLines_onOneLine {ds : List Diagnostic}
    (hds : ∀ d ∈ ds, OnOneLine d.message ∧ (Document.ofText text).Holds d.range.start) :
    ∀ line ∈ reportLines (Document.ofText text) ds, OnOneLine line := by
  intro line hline
  rcases List.mem_cons.mp hline with rfl | hline
  · exact OnOneLine.header ds
  · obtain ⟨d, hd, hline⟩ := List.mem_flatMap.mp hline
    obtain ⟨hmessage, hholds⟩ := hds d hd
    rcases List.mem_cons.mp hline with rfl | hline
    · exact OnOneLine.summary hmessage
    · rw [List.mem_singleton.mp hline]
      exact OnOneLine.quotation hholds

/-- Nothing comes between the members of a list but what separates them. -/
theorem mem_intersperse {α : Type} {x separator : α} {xs : List α}
    (h : x ∈ xs.intersperse separator) : x = separator ∨ x ∈ xs := by
  fun_induction List.intersperse separator xs with
  | case1 => exact .inr h
  | case2 y => exact .inr h
  | case3 y ys hne ih =>
      rcases List.mem_cons.mp h with rfl | h
      · exact .inr List.mem_cons_self
      · rcases List.mem_cons.mp h with rfl | h
        · exact .inl rfl
        · exact (ih h).imp_right (List.mem_cons_of_mem _)

/-- What stands in texts put together stands in one of them or separates them. -/
theorem mem_intercalate {c : Char} {separator : List Char} {pieces : List (List Char)}
    (h : c ∈ separator.intercalate pieces) : c ∈ separator ∨ ∃ piece ∈ pieces, c ∈ piece := by
  obtain ⟨piece, hpiece, hc⟩ := List.mem_flatten.mp h
  rcases mem_intersperse hpiece with rfl | hpiece
  · exact .inl hc
  · exact .inr ⟨piece, hpiece, hc⟩

/-- The lines of a report are those that were put together. -/
theorem splitOn_reportText {settings : LintSettings} {keywords : List String}
    (hne : validate settings keywords (Document.ofText text) ≠ []) :
    let doc := Document.ofText text
    let ds := validate settings keywords doc
    (reportText doc ds).toList.splitOn '\n' = (reportLines doc ds).map String.toList ∧
      '\r' ∉ (reportText doc ds).toList := by
  intro doc ds
  have hlines : ∀ line ∈ reportLines doc ds, OnOneLine line :=
    reportLines_onOneLine fun d hd => onOneLine_of_mem_validate hd
  have htext : (reportText doc ds).toList =
      ['\n'].intercalate ((reportLines doc ds).map String.toList) := by
    unfold reportText
    rw [if_neg (by simpa using hne), String.toList_intercalate]
    rfl
  rw [htext]
  constructor
  · apply List.splitOn_intercalate
    · intro line hline
      obtain ⟨line, hmem, rfl⟩ := List.mem_map.mp hline
      exact (hlines line hmem).newline_not_mem
    · simp [reportLines]
  · intro hreturn
    rcases mem_intercalate hreturn with hreturn | ⟨line, hline, hreturn⟩
    · simp at hreturn
    · obtain ⟨line, hmem, rfl⟩ := List.mem_map.mp hline
      exact (hlines line hmem).return_not_mem hreturn

/-- **A document cannot break its report.**  The report of a document that is not too long and
has diagnostics holds no carriage return, and between its line feeds it has one line more than
two for each diagnostic: the header with the number of errors and that of warnings, and for
every diagnostic in the order of the validation its place counted from one with its kind, its
code and its message, and the line of the document where its range starts, quoted as it stands
there.  Neither a message nor a line that is quoted holds a line break. -/
theorem report_lines {settings : Settings} {content : List Char} {policy : Option String}
    {lintSettings : LintSettings} (hsize : (content.length : Int) ≤ settings.maxDocumentChars)
    (hpolicy : reportSettings settings policy = .ok lintSettings)
    (hfound : validate lintSettings standardKeywords (Document.ofText content) ≠ []) :
    let ds := validate lintSettings standardKeywords (Document.ofText content)
    ∃ (text : String) (quoted : Diagnostic → List Char),
      report settings content policy = .ok text ∧
      '\r' ∉ text.toList ∧
      (text.toList.splitOn '\n').length = 2 * ds.length + 1 ∧
      text.toList.splitOn '\n' =
        ("Found " ++ toString (ds.countP fun d => d.severity = .error) ++ " error(s) and " ++
            toString (ds.countP fun d => d.severity = .warning) ++ " warning(s):").toList ::
          ds.flatMap (fun d =>
            [("  " ++ toString (d.range.start.line + 1) ++ ":" ++
                toString (d.range.start.character + 1) ++ " " ++
                (if d.severity = .error then "error" else "warning") ++
                " [" ++ codeNames.getD d.code.number "" ++ "] " ++ d.message).toList,
              "      | ".toList ++ quoted d]) ∧
      ∀ d ∈ ds,
        '\r' ∉ d.message.toList ∧ '\n' ∉ d.message.toList ∧
          0 ≤ d.range.start.line ∧
          (sourceLines content)[d.range.start.line.toNat]? = some (quoted d) ∧
          '\r' ∉ quoted d ∧ '\n' ∉ quoted d := by
  intro ds
  have hreport : report settings content policy =
      .ok (reportText (Document.ofText content) ds) := by
    have hexceeds : settings.exceeds content = false := by
      unfold Settings.exceeds
      simpa using hsize
    unfold report
    rw [hexceeds, hpolicy]
    rfl
  obtain ⟨hsplit, hreturn⟩ := splitOn_reportText hfound
  refine ⟨_, fun d => (Document.ofText content).lineContent d.range.start.line.toNat, hreport,
    hreturn, ?_, ?_, ?_⟩
  · rw [hsplit, List.length_map, reportLines_length]
  · rw [hsplit, reportLines_toList _ fun d hd => (onOneLine_of_mem_validate hd).2.line_lt]
    simp only [Diagnostic.summary_eq, ← warningCount_eq]
    rfl
  · intro d hd
    obtain ⟨hmessage, hholds⟩ := onOneLine_of_mem_validate hd
    obtain ⟨hline, hbreak⟩ := hholds.sourceLine
    exact ⟨hmessage.return_not_mem, hmessage.newline_not_mem, hholds.line_nonneg, hline,
      fun h => absurd (hbreak _ h) (by decide), fun h => absurd (hbreak _ h) (by decide)⟩

/-- All three line breaks, behind escape characters and without them: in a port, in a keyword
and behind a value that is no escape character. -/
def brokenLines : List Char :=
  "# escape=ab\r\nFROM x\rEXPOSE 8\\\r\n0\\,\\\n 9\nfo\\\ro bar\nMAINTAINER me".toList

/-- The lines of the report of `brokenLines`. -/
def brokenReport : List String :=
  ["Found 3 error(s) and 1 warning(s):",
   "  1:10 error [INVALID_ESCAPE_DIRECTIVE] invalid ESCAPE 'ab'. Must be ` or \\",
   "      | # escape=ab",
   "  3:8 error [INVALID_PORT] Invalid containerPort: 80\\,",
   "      | EXPOSE 8\\",
   "  6:1 error [UNKNOWN_INSTRUCTION] Unknown instruction: FOO",
   "      | fo\\",
   "  8:1 warning [DEPRECATED_MAINTAINER] MAINTAINER has been deprecated",
   "      | MAINTAINER me"]

/-- Those lines are all that stands in the report. -/
theorem report_lines_brokenLines :
    (brokenLines.length : Int) ≤ ({} : Settings).maxDocumentChars ∧
      reportSettings {} (some "warning") = .ok { deprecatedMaintainer := .warning } ∧
      validate { deprecatedMaintainer := .warning } standardKeywords
        (Document.ofText brokenLines) ≠ [] ∧
      ∃ text, report {} brokenLines (some "warning") = .ok text ∧ '\r' ∉ text.toList ∧
        text.toList.splitOn '\n' = brokenReport.map String.toList ∧
        brokenReport.length = 2 * 4 + 1 := by
  have hsize : (brokenLines.length : Int) ≤ ({} : Settings).maxDocumentChars := by
    decide
  have hpolicy : reportSettings {} (some "warning") =
      .ok { deprecatedMaintainer := .warning } := rfl
  have hlines : (report {} brokenLines (some "warning")).toOption =
      some ("\n".intercalate brokenReport) := by
    decide +kernel
  have hcount : (validate { deprecatedMaintainer := .warning } standardKeywords
      (Document.ofText brokenLines)).length = 4 := by
    decide +kernel
  have hfound : validate { deprecatedMaintainer := .warning } standardKeywords
      (Document.ofText brokenLines) ≠ [] := by
    intro hnil
    rw [hnil] at hcount
    cases hcount
  obtain ⟨text, -, hreport, hreturn, -⟩ := report_lines hsize hpolicy hfound
  refine ⟨hsize, hpolicy, hfound, text, hreport, hreturn, ?_, rfl⟩
  rw [hreport] at hlines
  obtain rfl : text = "\n".intercalate brokenReport := Option.some.inj hlines
  rw [String.toList_intercalate]
  apply List.splitOn_intercalate
  · decide +kernel
  · simp [brokenReport]

end DockerfileLint
