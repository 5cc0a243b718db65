import DockerfileLint.Proofs.ExchangedPasses
import DockerfileLint.Proofs.Findings
import DockerfileLint.Proofs.Lines

/-!
# The escape character is a parameter

A document whose directive selects a backslash or a backtick is reported alike under the other
of the two, if every backslash of it is written as a backtick and every backtick as a
backslash.  The checks look for neither character, so they say the same of what the two passes
find.  Only what a message quotes is exchanged as well.

* `checkInstruction_exchanged`: the checks of an instruction;
* `lint_exchanged`: the findings in a document;
* `validate_exchanged`: its diagnostics.
-/

namespace DockerfileLint

variable {keywords : List String} {text : List Char}

/-! ## Findings -/

/-- A problem of an exchanged text: it quotes a piece of the text. -/
def Problem.exchanged : Problem → Problem
  | .invalidPort port => .invalidPort (exchangedWord port)
  | .unknownInstruction keyword => .unknownInstruction (exchangedWord keyword)
  | problem => problem

/-- A problem keeps its code. -/
theorem Problem.exchanged_code (p : Problem) : p.exchanged.code = p.code := by
  cases p <;> rfl

/-- It keeps its severity. -/
theorem Problem.exchanged_severity (p : Problem) : p.exchanged.severity = p.severity := by
  cases p <;> rfl

/-- The finding in an exchanged text. -/
def Finding.exchanged (f : Finding) : Finding :=
  { f with problem := f.problem.exchanged }

/-- The directive itself is found fault with for its name only. -/
theorem checkDirective_exchanged {d : Directive} (h : d.value ∈ legalEscapes) :
    checkDirective (some d.exchanged) = (checkDirective (some d)).map Finding.exchanged := by
  have hvalue := (Directive.exchanged_value h).1
  have hname : d.exchanged.name = d.name := rfl
  unfold checkDirective
  simp only [hname, h, hvalue, not_true_eq_false, false_and, if_false]
  split <;> rfl

/-- A scan reports where a list breaks, and quotes nothing. -/
theorem Scan.exchanged_findings (s : Scan) :
    s.exchanged.findings = s.findings.map Finding.exchanged := by
  have hvisit (v : Visit) : v.exchanged.findings = v.findings.map Finding.exchanged := by
    unfold Visit.findings Visit.exchanged
    simp only
    split <;> rfl
  unfold findings exchanged
  simp only [List.flatMap_map, List.map_flatMap, hvisit]

/-! ## The checks -/

/-- No keyword with a rule holds a character that is exchanged. -/
theorem ruleFor_exchanged (s : String) : ruleFor (exchangedWord s) = ruleFor s := by
  unfold ruleFor
  rw [lookup_exchangedWord rules_plain]

/-- What a text starts with is not seen through an exchange that leaves it alone. -/
theorem isPrefixOf_exchanged {front : List Char} (hfront : exchanged front = front)
    (cs : List Char) : front.isPrefixOf (exchanged cs) = front.isPrefixOf cs := by
  have hback : exchanged (exchanged cs) = cs := by
    simp [exchanged, Function.comp_def]
  rw [Bool.eq_iff_iff, List.isPrefixOf_iff_prefix, List.isPrefixOf_iff_prefix]
  constructor
  · intro h
    have hmap := h.map exchange
    rwa [← exchanged, ← exchanged, hfront, hback] at hmap
  · intro h
    have hmap := h.map exchange
    rwa [← exchanged, ← exchanged, hfront] at hmap

/-- A test that does not tell the two characters apart gives the same of every text. -/
theorem all_exchanged {p : Char → Bool} (hp : p '\\' = p '`') (cs : List Char) :
    (exchanged cs).all p = cs.all p := by
  unfold exchanged
  rw [List.all_map, comp_exchange hp]

/-- What is a signal stays one, and nothing else becomes one. -/
theorem isStopSignal_exchanged (s : String) : isStopSignal (exchangedWord s) = isStopSignal s := by
  unfold isStopSignal exchangedWord
  simp only [String.toList_ofList]
  rw [isPrefixOf_exchanged (by decide), all_exchanged (by decide)]

/-- What is a port stays one, and nothing else becomes one. -/
theorem isPort_exchanged (s : String) : isPort (exchangedWord s) = isPort s := by
  have hdash (end? : Option Char) : (end?.map exchange != some '-') = (end? != some '-') := by
    cases end? with
    | none => rfl
    | some c => exact apply_exchange (fun c => some c != some '-') (by decide) c
  unfold isPort exchangedWord
  rw [String.toList_ofList, all_exchanged (by decide)]
  unfold exchanged
  rw [List.head?_map, List.getLast?_map, hdash, hdash]

/-- A rule complains about the same arguments, and quotes them as they are. -/
theorem complaint_exchanged {keyword : String} {rule : ArgumentRule}
    (hrule : (ruleFor keyword).arguments = some rule) (value : String) :
    rule.complaint (exchangedWord value) = (rule.complaint value).map Problem.exchanged := by
  rcases argumentRule_cases hrule with rfl | rfl | rfl
  · rfl
  · simp only [stopSignalArgument, isStopSignal_exchanged]
    split <;> rfl
  · simp only [portArguments, isPort_exchanged]
    split <;> rfl

/-- What is wrong with an argument is wrong with the exchanged one. -/
theorem checkArgument_exchanged {keyword : String} {rule : ArgumentRule}
    (hrule : (ruleFor keyword).arguments = some rule) (a : Argument) :
    checkArgument rule a.exchanged = (checkArgument rule a).map Finding.exchanged := by
  unfold checkArgument Argument.exchanged
  simp only [complaint_exchanged hrule]
  cases rule.complaint a.value <;> rfl

/-- What is wrong with arguments is wrong with the exchanged ones. -/
theorem checkArguments_exchanged {keyword : String} {rule : ArgumentRule}
    (hrule : (ruleFor keyword).arguments = some rule) (arguments : List Argument) :
    checkArguments rule (arguments.map Argument.exchanged) =
      (checkArguments rule arguments).map Finding.exchanged := by
  unfold checkArguments
  cases rule.single with
  | true =>
      match arguments with
      | [] => rfl
      | [first] => exact checkArgument_exchanged hrule first
      | first :: second :: others =>
          simp only [List.map_cons, if_true, List.map_append, checkArgument_exchanged hrule]
          rfl
  | false =>
      simp only [Bool.false_eq_true, if_false, List.flatMap_map, List.map_flatMap,
        checkArgument_exchanged hrule]

/-- What the checks know of an exchanged document. -/
def CheckContext.exchanged (ctx : CheckContext) : CheckContext :=
  { ctx with escape := ctx.escape.map exchange }

/-- A deprecated instruction stays one. -/
theorem checkDeprecation_exchanged (ctx : CheckContext) (i : Instruction) :
    checkDeprecation ctx.exchanged i.exchanged =
      (checkDeprecation ctx i).map Finding.exchanged := by
  unfold checkDeprecation CheckContext.exchanged
  rw [i.exchanged_keyword, ruleFor_exchanged]
  split
  · cases ctx.settings.deprecatedMaintainer <;> rfl
  · rfl

/-- What is wrong behind a keyword stays wrong. -/
theorem checkBody_exchanged (ctx : CheckContext) (i : Instruction) :
    checkBody ctx.exchanged i.exchanged = (checkBody ctx i).map Finding.exchanged := by
  unfold checkBody CheckContext.exchanged
  simp only [i.exchanged_keyword, ruleFor_exchanged, i.exchanged_hasArguments,
    i.exchanged_arguments]
  split
  · split
    · rename_i rule hrule
      exact checkArguments_exchanged hrule _
    · rfl
  · rfl

/-- What is wrong with an instruction is wrong with the exchanged one, if no keyword that is
allowed is exchanged. -/
theorem checkInstruction_exchanged {ctx : CheckContext} (hkeywords : ∀ k ∈ ctx.keywords, IsPlain k)
    (i : Instruction) :
    checkInstruction ctx.exchanged i.exchanged =
      (checkInstruction ctx i).map Finding.exchanged := by
  have hwritten : i.exchanged.keyword ≠ i.exchanged.written ↔ i.keyword ≠ i.written := by
    rw [i.exchanged_keyword]
    exact not_congr exchangedWord_inj
  have hmem : i.exchanged.keyword ∉ ctx.exchanged.keywords ↔ i.keyword ∉ ctx.keywords := by
    rw [i.exchanged_keyword]
    exact not_congr (exchangedWord_mem_iff hkeywords)
  unfold checkInstruction
  simp only [hwritten, hmem, checkDeprecation_exchanged, checkBody_exchanged]
  split
  · rw [i.exchanged_keyword]
    rfl
  · split
    · rfl
    · rw [List.map_append]

/-- What is wrong with the first instruction stays wrong. -/
theorem checkSourceImage_exchanged (instructions : List Instruction) :
    checkSourceImage (instructions.map Instruction.exchanged) =
      (checkSourceImage instructions).map Finding.exchanged := by
  cases instructions with
  | nil => rfl
  | cons first others =>
      have hfrom : first.exchanged.keyword ≠ "FROM" ↔ first.keyword ≠ "FROM" := by
        rw [first.exchanged_keyword]
        exact not_congr (exchangedWord_eq_iff (by decide))
      simp only [List.map_cons, checkSourceImage, hfrom]
      split <;> rfl

/-! ## Positions -/

/-- Lines start where they did. -/
theorem laterLineStarts_exchanged (off : Nat) (cs : List Char) :
    laterLineStarts off (exchanged cs) = laterLineStarts off cs := by
  induction off, cs using lines_induction with
  | nil off => rfl
  | lineBreak off cs n rest h ih =>
      have h' := lineBreak?_exchanged cs
      rw [h] at h'
      rw [laterLineStarts_of_lineBreak? h, laterLineStarts_of_lineBreak? h', ih]
  | char off c cs h ih =>
      rw [exchanged_cons, laterLineStarts_cons h, laterLineStarts_cons (by simpa using h), ih]

/-- The first line does so too. -/
theorem lineStartsOf_exchanged (cs : List Char) :
    lineStartsOf (exchanged cs) = lineStartsOf cs := by
  rw [lineStartsOf_eq, lineStartsOf_eq, laterLineStarts_exchanged]

/-- Lines and columns stay what they are. -/
theorem positionAt_exchanged (text : List Char) (offset : Int) :
    (Document.ofText (exchanged text)).positionAt offset =
      (Document.ofText text).positionAt offset := by
  unfold Document.positionAt Document.clamp Document.lineAt Document.lineStart
  simp only [Document.ofText, lineStartsOf_exchanged, exchanged_length, ← exchanged_drop,
    ← exchanged_take, utf16Length_exchanged]
  rfl

/-! ## Documents -/

/-- The parse of an exchanged text. -/
def Dockerfile.exchanged (file : Dockerfile) : Dockerfile where
  directive := file.directive.map Directive.exchanged
  instructions := file.instructions.map Instruction.exchanged

/-- A legal escape character that a directive names is exchanged with it. -/
theorem Dockerfile.exchanged_escape {file : Dockerfile} {d : Directive}
    (hdirective : file.directive = some d) (hvalue : d.value ∈ legalEscapes) :
    file.exchanged.escape = exchange file.escape := by
  unfold escape exchanged
  rw [hdirective]
  exact (Directive.exchanged_value hvalue).2

/-- Instructions can start where they could. -/
@[simp] theorem Dockerfile.exchanged_bodyOffset (file : Dockerfile) :
    file.exchanged.bodyOffset = file.bodyOffset := by
  unfold bodyOffset exchanged
  cases file.directive <;> rfl

/-- A document under a directive that selects one of the two characters is parsed alike under
the other one. -/
theorem parse_exchanged {d : Directive} (hparse : Directive.parse? text = some d)
    (hvalue : d.value ∈ legalEscapes) :
    Dockerfile.parse (exchanged text) = (Dockerfile.parse text).exchanged := by
  have hparse' : Directive.parse? (exchanged text) = some d.exchanged := by
    unfold Directive.parse? at hparse ⊢
    rw [firstLine_exchanged, Directive.ofLine?_exchanged, hparse]
    rfl
  have hescape := (Directive.exchanged_value hvalue).2
  have hinstructions :=
    instructionsFrom_exchanged (some d.escape) d.span.stop (text.drop d.span.stop)
  unfold Dockerfile.parse
  rw [hparse', hparse]
  simp only [escapeOf, bodyOffset, hescape]
  rw [exchanged_drop] at hinstructions
  exact congrArg (Dockerfile.mk _) hinstructions

/-- What is wrong with the instructions one by one stays wrong. -/
theorem checkInstructions_exchanged {ctx : CheckContext}
    (hkeywords : ∀ k ∈ ctx.keywords, IsPlain k) (instructions : List Instruction) :
    checkInstructions ctx.exchanged (instructions.map Instruction.exchanged) =
      (checkInstructions ctx instructions).map Finding.exchanged := by
  unfold checkInstructions
  rw [List.flatMap_map, List.map_flatMap]
  congr 1
  funext i
  exact checkInstruction_exchanged hkeywords i

/-- What the checks know is exchanged with the document. -/
theorem contextOf_exchanged (settings : LintSettings) (keywords : List String)
    (text : List Char) {file : Dockerfile}
    (hescape : file.exchanged.escape = exchange file.escape) :
    contextOf settings keywords (exchanged text) file.exchanged =
      (contextOf settings keywords text file).exchanged := by
  unfold contextOf CheckContext.exchanged
  rw [hescape, exchanged_length]
  rfl

/-- The scan of a text is exchanged with it. -/
theorem scan_exchanged (esc : Escape) (hkeywords : ∀ k ∈ keywords, IsPlain k) (start : Nat)
    (text : List Char) :
    scan (esc.map exchange) keywords start (exchanged text) =
      (scan esc keywords start text).exchanged := by
  unfold scan
  rw [← exchanged_drop, scanFrom_exchanged esc hkeywords]

/-- The findings in a document stay where they are. -/
theorem lint_exchanged (settings : LintSettings) (hkeywords : ∀ k ∈ keywords, IsPlain k)
    {d : Directive} (hparse : Directive.parse? text = some d) (hvalue : d.value ∈ legalEscapes) :
    (lint settings keywords (exchanged text)).findings =
      (lint settings keywords text).findings.map Finding.exchanged := by
  have hdirective : (Dockerfile.parse text).directive = some d := hparse
  have hescape := Dockerfile.exchanged_escape hdirective hvalue
  have hcheck : checkDirective (Dockerfile.parse text).exchanged.directive =
      (checkDirective (Dockerfile.parse text).directive).map Finding.exchanged := by
    unfold Dockerfile.exchanged
    rw [hdirective]
    exact checkDirective_exchanged hvalue
  have hsource := checkSourceImage_exchanged (Dockerfile.parse text).instructions
  have hinstructions : checkInstructions
        (contextOf settings keywords text (Dockerfile.parse text)).exchanged
        ((Dockerfile.parse text).instructions.map Instruction.exchanged) =
      (checkInstructions (contextOf settings keywords text (Dockerfile.parse text))
        (Dockerfile.parse text).instructions).map Finding.exchanged :=
    checkInstructions_exchanged hkeywords _
  have hscan := scan_exchanged (some (Dockerfile.parse text).escape) hkeywords
    (Dockerfile.parse text).bodyOffset text
  rw [Option.map_some, ← hescape] at hscan
  unfold lint
  simp only [LintReport.findings, List.map_append, parse_exchanged hparse hvalue, hcheck,
    contextOf_exchanged settings keywords text hescape, Dockerfile.exchanged_bodyOffset, hscan,
    Scan.exchanged_findings, ← hsource, ← hinstructions]
  rfl

/-! ## Diagnostics -/

/-- A diagnostic less its words: what it is, how serious, and where. -/
def Diagnostic.outline (d : Diagnostic) : Code × Severity × Range :=
  (d.code, d.severity, d.range)

/-- A finding is reported at the same place, with the same code and severity. -/
theorem outline_exchanged (f : Finding) (text : List Char) :
    (f.exchanged.diagnostic (Document.ofText (exchanged text))).outline =
      (f.diagnostic (Document.ofText text)).outline := by
  unfold Diagnostic.outline Finding.diagnostic Problem.locate Document.rangeAt
  simp only [positionAt_exchanged]
  simp only [Finding.exchanged, Problem.exchanged_code, Problem.exchanged_severity]

/-- **The escape character is a parameter.**  Below a directive that selects a backslash or a
backtick, and with keywords that hold neither of them, a document in which all backslashes
and backticks are exchanged has diagnostics of the same codes and severities at the same
places, in the same order. -/
theorem validate_exchanged (settings : LintSettings) {keywords : List String} {text : List Char}
    (hdirective : ∃ d, Directive.parse? text = some d ∧ d.value ∈ ["\\", "`"])
    (hkeywords : ∀ k ∈ keywords, '\\' ∉ k.toList ∧ '`' ∉ k.toList) :
    (validate settings keywords (Document.ofText (exchanged text))).map Diagnostic.outline =
      (validate settings keywords (Document.ofText text)).map Diagnostic.outline := by
  obtain ⟨d, hparse, hvalue⟩ := hdirective
  have hfindings := lint_exchanged settings hkeywords hparse hvalue
  show ((lint settings keywords (exchanged text)).findings.map _).map _ =
    ((lint settings keywords text).findings.map _).map _
  rw [hfindings, List.map_map, List.map_map, List.map_map]
  apply List.map_congr_left
  intro f hf
  exact outline_exchanged f text

/-- Backticks continue lines, backslashes are characters like any others: one of each stands
in front of a break, in a port, in a word and in a list. -/
def mixedEscapes : List Char :=
  ("# escape=`\nFROM a\\\nEXPOSE 80` 81\\ `\n 82\nR`\nUN x\n" ++
    "VOLUME [\"a\\\" `\n \"`b\"]\nru\\n x\n").toList

/-- `mixedEscapes` is reported alike under the backslash. -/
theorem validate_exchanged_mixedEscapes :
    (∃ d, Directive.parse? mixedEscapes = some d ∧ d.value ∈ ["\\", "`"]) ∧
      (∀ k ∈ standardKeywords, '\\' ∉ k.toList ∧ '`' ∉ k.toList) ∧
      exchanged mixedEscapes ≠ mixedEscapes ∧
      (validate {} standardKeywords (Document.ofText (exchanged mixedEscapes))).map
          Diagnostic.outline =
        (validate {} standardKeywords (Document.ofText mixedEscapes)).map Diagnostic.outline := by
  have hdirective : ∃ d, Directive.parse? mixedEscapes = some d ∧ d.value ∈ ["\\", "`"] :=
    ⟨⟨"escape", "`", ⟨0, 10⟩, ⟨2, 8⟩, ⟨9, 10⟩⟩, by decide +kernel, by decide⟩
  have hkeywords : ∀ k ∈ standardKeywords, '\\' ∉ k.toList ∧ '`' ∉ k.toList := by
    decide
  exact ⟨hdirective, hkeywords, by decide, validate_exchanged {} hdirective hkeywords⟩

end DockerfileLint
