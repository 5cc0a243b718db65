import DockerfileLint.Proofs.Partition
import DockerfileLint.Proofs.Places

/-!
# The order of a report

A report comes in four parts, and the code of a diagnostic tells the part it is from.  At
most one diagnostic is about the directive and at most one about the first instruction.
The other two parts are in the order of the document.

Two diagnostics of one instruction can start at the same place: that it is deprecated and
that it has no arguments.  They differ in their codes.  In the structural scan not even
that happens.  It can stop in the middle of a line, at the very quote it reports, and read
on from there; but the quote is then the start of a word, and whatever is reported behind
the word comes later.

* `checkInstructions_pairwise` follows the instructions, and the arguments in each;
* `scanFrom_findings_pairwise` follows the scan;
* `validate_ordered` is the order of a report, which repeats nothing.
-/

namespace DockerfileLint

variable {esc : Escape} {keywords : List String} {settings : LintSettings} {text : List Char}

/-! ## The parts of a report -/

/-- The parts of a report. -/
inductive ReportPart
  | directive
  | sourceImage
  | instructions
  | scan
deriving DecidableEq, Repr

/-- The part of a report that a code is from. -/
def Code.part : Code → ReportPart
  | .unknownDirective | .invalidEscapeDirective => .directive
  | .noSourceImage => .sourceImage
  | .unknownInstruction | .lowercase | .deprecatedMaintainer | .missingArgument
  | .extraArgument | .invalidPort | .invalidStopSignal => .instructions
  | .unexpectedToken => .scan

/-- What a part of the validation found. -/
def LintReport.part (r : LintReport) : ReportPart → List Finding
  | .directive => r.directive
  | .sourceImage => r.sourceImage
  | .instructions => r.instructions
  | .scan => r.scan

/-- The diagnostics of a report that are from one part. -/
def diagnosticsOf (part : ReportPart) (report : List Diagnostic) : List Diagnostic :=
  report.filter fun dg => dg.code.part = part

/-- The code of a finding tells its part. -/
theorem part_of_mem_lint {part : ReportPart} {f : Finding}
    (hf : f ∈ (lint settings keywords text).part part) : f.problem.code.part = part := by
  cases part with
  | directive =>
      rcases code_of_mem_checkDirective hf with hcode | hcode
      · rw [hcode]
        rfl
      · rw [hcode]
        rfl
  | sourceImage =>
      rw [code_of_mem_checkSourceImage hf]
      rfl
  | instructions =>
      obtain ⟨i, hi, hf⟩ := List.mem_flatMap.mp hf
      cases mem_checkInstruction hf with
      | unknown | lowercase | deprecated | missing => rfl
      | argument hmem hfault => cases hfault <;> rfl
  | scan =>
      rw [(scanFrom_findings_covers rfl hf).1]
      rfl

/-- Findings of different parts have different codes. -/
theorem code_ne_of_mem_lint (p q : ReportPart) (hne : p ≠ q) {f g : Finding}
    (hf : f ∈ (lint settings keywords text).part p)
    (hg : g ∈ (lint settings keywords text).part q) : f.problem.code ≠ g.problem.code := by
  intro hcode
  rw [← part_of_mem_lint hf, ← part_of_mem_lint hg, hcode] at hne
  exact hne rfl

/-- A part of a report is what the part of the validation found. -/
theorem diagnosticsOf_validate (part : ReportPart) (settings : LintSettings)
    (keywords : List String) (text : List Char) :
    diagnosticsOf part (validate settings keywords (Document.ofText text)) =
      ((lint settings keywords text).part part).map
        fun f => f.diagnostic (Document.ofText text) := by
  have hfilter : ∀ p, ((lint settings keywords text).part p).filter
      (fun f => f.problem.code.part = part) =
        if p = part then (lint settings keywords text).part p else [] := by
    intro p
    by_cases hp : p = part
    · rw [if_pos hp, List.filter_eq_self]
      intro f hf
      rw [part_of_mem_lint hf, hp, decide_eq_true_eq]
    · rw [if_neg hp, List.filter_eq_nil_iff]
      intro f hf
      rwa [part_of_mem_lint hf, decide_eq_true_eq]
  have hparts : ((lint settings keywords text).findings.filter
      fun f => f.problem.code.part = part) = (lint settings keywords text).part part := by
    show ((((lint settings keywords text).part .directive ++
      (lint settings keywords text).part .sourceImage) ++
        (lint settings keywords text).part .instructions) ++
          (lint settings keywords text).part .scan).filter _ = _
    simp only [List.filter_append, hfilter]
    cases part <;> simp
  unfold diagnosticsOf validate
  rw [List.filter_map]
  exact congrArg _ hparts

/-- The diagnostics that a validation gives of one instruction. -/
def instructionDiagnostics (settings : LintSettings) (keywords : List String)
    (text : List Char) (i : Instruction) : List Diagnostic :=
  (checkInstruction (contextOf settings keywords text (Dockerfile.parse text)) i).map
    fun f => f.diagnostic (Document.ofText text)

/-- The instructions of a document are reported one by one. -/
theorem diagnosticsOf_instructions (settings : LintSettings) (keywords : List String)
    (text : List Char) :
    diagnosticsOf .instructions (validate settings keywords (Document.ofText text)) =
      (Dockerfile.parse text).instructions.flatMap
        (instructionDiagnostics settings keywords text) := by
  rw [diagnosticsOf_validate]
  exact List.map_flatMap

/-! ## The checks -/

/-- Findings in the order of a document: the second one is further on, or it is at the
same place and has another code. -/
def Finding.Before (f g : Finding) : Prop :=
  f.span.start < g.span.start ∨
    f.span.start = g.span.start ∧ f.problem.code ≠ g.problem.code

/-- The arguments of an instruction come one behind the other. -/
theorem argumentsFrom_pairwise (esc : Escape) (off : Nat) (cs : List Char) :
    (argumentsFrom esc off cs).Pairwise fun a b => a.span.start < b.span.start := by
  induction off, cs using arguments_induction esc with
  | nil off cs hgap => simp [argumentsFrom_of_nil hgap]
  | cons off cs c rest hgap ih =>
      obtain ⟨hcont, hspace⟩ := readWhile_rest_head hgap
      have hlength := (onward_readToken esc (readGap esc off cs).stop (c :: rest)).add_length
      have hshorter : (readToken esc (readGap esc off cs).stop (c :: rest)).rest.length <
          (c :: rest).length :=
        readToken_rest_length_lt _ hspace
      rw [argumentsFrom_of_cons hgap]
      refine List.pairwise_cons.mpr ⟨?_, ih⟩
      intro b hb
      have hbehind := (argumentsFrom_within esc _ _ b hb).1
      show (readGap esc off cs).stop < b.span.start
      omega

/-- Nothing more than one thing is said of an argument. -/
theorem checkArgument_pairwise (rule : ArgumentRule) (a : Argument) (r : Finding → Finding → Prop) :
    (checkArgument rule a).Pairwise r := by
  unfold checkArgument
  split
  · exact List.pairwise_singleton r _
  · exact List.Pairwise.nil

/-- What is said of the arguments is said in their order. -/
theorem checkArguments_pairwise (rule : ArgumentRule) {arguments : List Argument}
    (h : arguments.Pairwise fun a b => a.span.start < b.span.start) :
    (checkArguments rule arguments).Pairwise fun f g => f.span.start < g.span.start := by
  unfold checkArguments
  split
  · split
    · exact List.Pairwise.nil
    · exact checkArgument_pairwise rule _ _
    · rename_i first second others
      have hsecond : first.span.start < second.span.start :=
        (List.pairwise_cons.mp h).1 second List.mem_cons_self
      refine List.pairwise_append.mpr
        ⟨checkArgument_pairwise rule first _, List.pairwise_singleton _ _, ?_⟩
      intro f hf g hg
      rw [(mem_checkArgument hf).1, List.mem_singleton.mp hg]
      exact hsecond
  · refine List.pairwise_flatMap.mpr ⟨fun a _ => checkArgument_pairwise rule a _, ?_⟩
    refine h.imp ?_
    intro a b hab f hf g hg
    rw [(mem_checkArgument hf).1, (mem_checkArgument hg).1]
    exact hab

/-- What is said of an instruction is said in the order of the document. -/
theorem checkInstruction_pairwise (ctx : CheckContext) {off : Nat} {cs : List Char}
    (hword : (readWord esc off cs).taken ≠ []) :
    (checkInstruction ctx (readInstruction esc off cs)).Pairwise Finding.Before := by
  obtain ⟨-, -, hname, -, -⟩ := readInstruction_within hword
  unfold checkInstruction
  split
  · exact List.pairwise_singleton _ _
  · split
    · exact List.pairwise_singleton _ _
    · refine List.pairwise_append.mpr ⟨?_, ?_, ?_⟩
      · unfold checkDeprecation
        repeat' split
        · exact List.pairwise_singleton _ _
        · exact List.Pairwise.nil
        · exact List.Pairwise.nil
      · unfold checkBody
        repeat' split
        · rename_i rule hrule
          exact (checkArguments_pairwise rule (argumentsFrom_pairwise _ _ _)).imp Or.inl
        · exact List.Pairwise.nil
        · exact List.pairwise_singleton _ _
      · intro f hf g hg
        obtain ⟨severity, rfl⟩ := mem_checkDeprecation hf
        rcases mem_checkBody hg with rfl | ⟨a, ha, hspan, -⟩
        · exact .inr ⟨rfl, by simp [Problem.code]⟩
        · have hargument := arguments_within hword ctx.escape a ha
          refine .inl ?_
          rw [hspan]
          exact Nat.lt_of_lt_of_le hname hargument.le_start

/-- What is said of the instructions is said in the order of the document. -/
theorem checkInstructions_pairwise (ctx : CheckContext) (esc : Escape) (off : Nat)
    (cs : List Char) :
    (checkInstructions ctx (instructionsFrom esc off cs)).Pairwise Finding.Before := by
  refine List.pairwise_flatMap.mpr ⟨?_, ?_⟩
  · intro i hi
    obtain ⟨start, c, rest, -, -, -, hword, rfl⟩ := mem_instructionsFrom hi
    exact checkInstruction_pairwise ctx hword
  · refine (instructionsFrom_pairwise esc off cs).imp_of_mem ?_
    intro i j hi hj hij f hf g hg
    obtain ⟨start, c, rest, -, -, -, hword, rfl⟩ := mem_instructionsFrom hi
    obtain ⟨start', c', rest', -, -, -, hword', rfl⟩ := mem_instructionsFrom hj
    have hfirst := checkInstruction_within ctx hword f hf
    have hsecond := checkInstruction_within ctx hword' g hg
    have hspan : (readInstruction esc start' (c' :: rest')).span.start = start' := rfl
    refine .inl ?_
    have hstart := hfirst.start_le
    have hstop := hfirst.stop_le
    have hnext := hsecond.le_start
    omega

/-! ## The structural scan -/

/-- A visit reports no more than one thing. -/
theorem Visit.findings_pairwise (v : Visit) (r : Finding → Finding → Prop) :
    v.findings.Pairwise r := by
  unfold Visit.findings
  split
  · exact List.pairwise_singleton r _
  · exact List.Pairwise.nil

/-- What the scan finds from an offset on is behind that offset. -/
theorem lt_of_mem_scanFrom_findings (esc : Escape) (keywords : List String) (off : Nat)
    (cs : List Char) :
    ∀ f ∈ (scanFrom esc keywords off cs).findings, off < f.span.start := by
  induction off, cs using scanning_induction esc keywords with
  | nil off => simp [Scan.findings]
  | space off c cs hspace ih =>
      rw [scanFrom_of_isSpace hspace]
      intro f hf
      exact Nat.lt_of_succ_lt (ih f hf)
  | comment off cs ih =>
      rw [scanFrom_of_mark]
      intro f hf
      exact Nat.lt_of_le_of_lt (onward_afterFirstLine off _).le (ih f hf)
  | joint off c cs hspace hmark hword ih =>
      rw [scanFrom_of_joint hspace hmark hword]
      intro f hf
      exact Nat.lt_of_le_of_lt (onward_readWord esc off _).le (ih f hf)
  | unknown off c cs hspace hmark hword hform =>
      rw [scanFrom_of_unknown hspace hmark hword hform]
      simp [Scan.findings, Visit.findings_of_unknown (readVisit_outcome.mpr hform)]
  | word off c cs hspace hmark hword hform ih =>
      rw [scanFrom_of_word hspace hmark hword hform, Scan.cons_findings]
      intro f hf
      rcases List.mem_append.mp hf with hf | hf
      · obtain ⟨place, hspan, hplace, -, -⟩ := mem_readVisit_findings hf
        have hlength := (onward_readWord esc off (c :: cs)).add_length
        have hshorter : (readWord esc off (c :: cs)).rest.length < (c :: cs).length :=
          readWhile_rest_length_lt off (by simpa using hspace)
        rw [hspan]
        simp only
        omega
      · exact Nat.lt_of_le_of_lt (onward_visitBody esc keywords off _).le (ih f hf)

/-- The scan finds one thing behind the other. -/
theorem scanFrom_findings_pairwise (esc : Escape) (keywords : List String) (off : Nat)
    (cs : List Char) :
    (scanFrom esc keywords off cs).findings.Pairwise fun f g => f.span.start < g.span.start := by
  induction off, cs using scanning_induction esc keywords with
  | nil off => simp [Scan.findings]
  | space off c cs hspace ih => rwa [scanFrom_of_isSpace hspace]
  | comment off cs ih => rwa [scanFrom_of_mark]
  | joint off c cs hspace hmark hword ih => rwa [scanFrom_of_joint hspace hmark hword]
  | unknown off c cs hspace hmark hword hform =>
      rw [scanFrom_of_unknown hspace hmark hword hform]
      simp [Scan.findings, Visit.findings_of_unknown (readVisit_outcome.mpr hform)]
  | word off c cs hspace hmark hword hform ih =>
      rw [scanFrom_of_word hspace hmark hword hform, Scan.cons_findings]
      refine List.pairwise_append.mpr ⟨Visit.findings_pairwise _ _, ih, ?_⟩
      intro f hf g hg
      -- The quote that ends a list may be read again, but only as the start of a word.
      obtain ⟨place, hspan, -, hstop, -⟩ := mem_readVisit_findings hf
      have hbehind := lt_of_mem_scanFrom_findings esc keywords _ _ g hg
      rw [hspan]
      exact Nat.lt_of_le_of_lt hstop hbehind

/-! ## Documents -/

/-- A document has at most one finding about its directive. -/
theorem checkDirective_length_le (directive : Option Directive) :
    (checkDirective directive).length ≤ 1 := by
  unfold checkDirective
  repeat' split
  all_goals simp

/-- A document has a finding about its first instruction if that names no base image, and
no more than one. -/
theorem checkSourceImage_length (instructions : List Instruction) :
    (checkSourceImage instructions).length ≤ 1 ∧
      (checkSourceImage instructions ≠ [] ↔
        instructions = [] ∨
          ∃ first, instructions.head? = some first ∧ first.keyword ≠ "FROM") := by
  unfold checkSourceImage
  cases instructions with
  | nil => simp
  | cons first others =>
      by_cases hkeyword : first.keyword = "FROM"
      · simp [hkeyword]
      · simp [hkeyword]

/-- A list with one member at most is in any order. -/
theorem pairwise_of_length_le {findings : List Finding} (h : findings.length ≤ 1)
    (r : Finding → Finding → Prop) : findings.Pairwise r := by
  match findings, h with
  | [], _ => exact List.Pairwise.nil
  | [f], _ => exact List.pairwise_singleton r f

/-- The instructions of a document are reported in their order. -/
theorem lint_instructions_pairwise (settings : LintSettings) (keywords : List String)
    (text : List Char) :
    (lint settings keywords text).instructions.Pairwise Finding.Before :=
  checkInstructions_pairwise _ _ _ _

/-- The scan of a document reports one place behind the other. -/
theorem lint_scan_pairwise (settings : LintSettings) (keywords : List String)
    (text : List Char) :
    (lint settings keywords text).scan.Pairwise fun f g => f.span.start < g.span.start :=
  scanFrom_findings_pairwise _ _ _ _

/-- No two findings of a document have one code and one place. -/
theorem lint_pairwise (settings : LintSettings) (keywords : List String) (text : List Char) :
    (lint settings keywords text).findings.Pairwise fun f g =>
      f.problem.code = g.problem.code → f.span.start ≠ g.span.start := by
  have hinstructions : (lint settings keywords text).instructions.Pairwise fun f g =>
      f.problem.code = g.problem.code → f.span.start ≠ g.span.start := by
    refine (lint_instructions_pairwise settings keywords text).imp ?_
    intro f g hbefore hcode
    rcases hbefore with hlt | ⟨-, hne⟩
    · exact Nat.ne_of_lt hlt
    · exact absurd hcode hne
  have hscan : (lint settings keywords text).scan.Pairwise fun f g =>
      f.problem.code = g.problem.code → f.span.start ≠ g.span.start := by
    refine (lint_scan_pairwise settings keywords text).imp ?_
    intro f g hlt _
    exact Nat.ne_of_lt hlt
  refine List.pairwise_append.mpr ⟨List.pairwise_append.mpr ⟨List.pairwise_append.mpr
    ⟨pairwise_of_length_le (checkDirective_length_le _) _,
      pairwise_of_length_le (checkSourceImage_length _).1 _, ?_⟩, hinstructions, ?_⟩, hscan, ?_⟩
  -- Between two parts of the report the codes differ.
  · intro f hf g hg hcode
    exact absurd hcode (code_ne_of_mem_lint .directive .sourceImage (by decide) hf hg)
  · intro f hf g hg hcode
    rcases List.mem_append.mp hf with hf | hf
    · exact absurd hcode (code_ne_of_mem_lint .directive .instructions (by decide) hf hg)
    · exact absurd hcode (code_ne_of_mem_lint .sourceImage .instructions (by decide) hf hg)
  · intro f hf g hg hcode
    rcases List.mem_append.mp hf with hf | hf
    · rcases List.mem_append.mp hf with hf | hf
      · exact absurd hcode (code_ne_of_mem_lint .directive .scan (by decide) hf hg)
      · exact absurd hcode (code_ne_of_mem_lint .sourceImage .scan (by decide) hf hg)
    · exact absurd hcode (code_ne_of_mem_lint .instructions .scan (by decide) hf hg)

/-- Offsets that split no line break have positions of their own, in the same order. -/
theorem positionAt_lt {a b : Nat} (ha : SplitsNoBreak text a) (hb : SplitsNoBreak text b)
    (h : a < b) :
    (Document.ofText text).positionAt a < (Document.ofText text).positionAt b := by
  rcases positionAt_mono text (Nat.le_of_lt h) with hline | ⟨hline, hcharacter⟩
  · exact .inl hline
  · refine .inr ⟨hline, Int.lt_iff_le_and_ne.mpr ⟨hcharacter, ?_⟩⟩
    intro hsame
    have heq : (Document.ofText text).positionAt a = (Document.ofText text).positionAt b :=
      (Position.mk.injEq ..).mpr ⟨hline, hsame⟩
    have hoffset := offsetAt_positionAt ha
    rw [heq, offsetAt_positionAt hb] at hoffset
    omega

/-! ## Diagnostics -/

/-- A report in its order, for a document with these instructions. -/
structure OrderedReport (instructions : List Instruction) (report : List Diagnostic) :
    Prop where
  parts : report = diagnosticsOf .directive report ++ diagnosticsOf .sourceImage report ++
    diagnosticsOf .instructions report ++ diagnosticsOf .scan report
  directive_length : (diagnosticsOf .directive report).length ≤ 1
  sourceImage_length : (diagnosticsOf .sourceImage report).length ≤ 1
  sourceImage_iff : diagnosticsOf .sourceImage report ≠ [] ↔
    instructions = [] ∨ ∃ first, instructions.head? = some first ∧ first.keyword ≠ "FROM"
  instructions_sorted : (diagnosticsOf .instructions report).Pairwise fun dg later =>
    dg.range.start ≤ later.range.start
  scan_message : ∀ dg ∈ diagnosticsOf .scan report, dg.message = "Unexpected token"
  scan_sorted : (diagnosticsOf .scan report).Pairwise fun dg later =>
    dg.range.start < later.range.start
  distinct : report.Pairwise fun dg other => ¬(dg.code = other.code ∧ dg.range = other.range)

/-- **The order of a report.**  A report is what it says of the directive, of the first
instruction, of the instructions one by one and of the structural scan, in this order.
There is at most one diagnostic in each of the first two parts, and one in the second
exactly if there is no instruction or the first keyword is not `FROM`.  The instructions
are reported in the order of the document, the scan reports one place behind the other,
and no two diagnostics have one code and one range. -/
theorem validate_ordered (settings : LintSettings) (keywords : List String)
    (text : List Char) :
    OrderedReport (Dockerfile.parse text).instructions
      (validate settings keywords (Document.ofText text)) where
  parts := by
    simp only [diagnosticsOf_validate]
    rw [← List.map_append, ← List.map_append, ← List.map_append]
    rfl
  directive_length := by
    rw [diagnosticsOf_validate, List.length_map]
    exact checkDirective_length_le _
  sourceImage_length := by
    rw [diagnosticsOf_validate, List.length_map]
    exact (checkSourceImage_length _).1
  sourceImage_iff := by
    rw [diagnosticsOf_validate, Ne, List.map_eq_nil_iff]
    exact (checkSourceImage_length _).2
  instructions_sorted := by
    rw [diagnosticsOf_validate, List.pairwise_map]
    refine (lint_instructions_pairwise settings keywords text).imp ?_
    intro f g hbefore
    refine positionAt_mono text ?_
    rcases hbefore with hlt | ⟨heq, -⟩
    · exact Nat.le_of_lt hlt
    · exact Nat.le_of_eq heq
  scan_message := by
    rw [diagnosticsOf_validate]
    intro dg hdg
    obtain ⟨f, hf, rfl⟩ := List.mem_map.mp hdg
    show f.problem.message = "Unexpected token"
    rw [(scanFrom_findings_covers rfl hf).1]
    rfl
  scan_sorted := by
    rw [diagnosticsOf_validate, List.pairwise_map]
    refine (lint_scan_pairwise settings keywords text).imp_of_mem ?_
    intro f g hf hg hlt
    have hf' := (lint_placed settings keywords text f (List.mem_append_right _ hf)).pointsAt.1
    have hg' := (lint_placed settings keywords text g (List.mem_append_right _ hg)).pointsAt.1
    exact positionAt_lt hf'.whole_start hg'.whole_start hlt
  distinct := by
    unfold validate
    rw [List.pairwise_map]
    refine (lint_pairwise settings keywords text).imp_of_mem ?_
    rintro f g hf hg happart ⟨hcode, hrange⟩
    have hf' := (lint_placed settings keywords text f hf).pointsAt.1
    have hg' := (lint_placed settings keywords text g hg).pointsAt.1
    refine happart hcode ?_
    rw [← hf'.offsetAt_start, ← hg'.offsetAt_start, hrange]

/-- A deprecated instruction without arguments is reported twice at one place, so the
instructions are not in a strict order. -/
example :
    (validate {} standardKeywords (Document.ofText "FROM x\nMAINTAINER\n".toList)).map
        (fun dg => (dg.code, dg.range.start)) =
      [(.deprecatedMaintainer, ⟨1, 0⟩), (.missingArgument, ⟨1, 0⟩)] := by
  decide +kernel

end DockerfileLint
