import DockerfileLint.Lint
import DockerfileLint.Proofs.CursorScan
import DockerfileLint.Proofs.CursorTokens

/-!
# Validation is total

A validation along cursors, with everything that could go wrong in it: loops that might not
end, characters that might be missing, cursors that might stray, lines that might not be
there.  Nothing of this happens, on any text; what it gives is what `validate` gives.

The passes are put together from the loops of the modules before, one theorem for each.
-/

namespace DockerfileLint

variable {text : List Char} {i : Instruction}

/-! ## The passes -/

/-- Checks the arguments of an instruction of a text along cursors. -/
noncomputable def checkBodyAlong (text : List Char) (e : Char) (i : Instruction) :
    Attempt (List Finding) := do
  if ← i.hasArgumentsAlong text (String.singleton e) then
    match (ruleFor i.keyword).arguments with
    | some rule => return checkArguments rule (← i.argumentsAlong (String.singleton e))
    | none => return []
  else
    return [⟨.missingArgument, i.nameSpan⟩]

/-- Checks an instruction of a text along cursors. -/
noncomputable def checkInstructionAlong (ctx : CheckContext) (text : List Char) (e : Char)
    (i : Instruction) : Attempt (List Finding) := do
  if i.keyword ∉ ctx.keywords then
    return [⟨.unknownInstruction i.keyword, i.nameSpan⟩]
  else if i.keyword ≠ i.written then
    return [⟨.lowercase, i.nameSpan⟩]
  else
    return checkDeprecation ctx i ++ (← checkBodyAlong text e i)

/-- Where the scan of a parsed text starts. -/
def ScanRun.start (file : Dockerfile) (text : List Char) : ScanRun where
  state := .scanningLine
  cursor := Cursor.onText text file.escape file.bodyOffset text.length
  visits := []

/-- Validates a text along cursors. -/
noncomputable def lintAlong (settings : LintSettings) (keywords : List String) (text : List Char) :
    Attempt LintReport := do
  let file ← Dockerfile.parseAlong text
  let ctx := contextOf settings keywords text file
  let found ← file.instructions.mapM (checkInstructionAlong ctx text file.escape)
  let scan ← loop (ScanRun.next keywords) (ScanRun.start file text)
  return {
    directive := checkDirective file.directive
    sourceImage := checkSourceImage file.instructions
    instructions := found.flatten
    scan := scan.findings
  }

/-- The position of an offset, with its line looked up. -/
def Document.positionAlong (d : Document) (offset : Int) : Attempt Position :=
  let offset := d.clamp offset
  let line := d.lineAt offset
  match d.lineStarts[line]? with
  | some start => return ⟨line, utf16Length ((d.text.drop start).take (offset - start))⟩
  | none => throw (.noLine line)

/-- The diagnostic of a finding, with its lines looked up. -/
def Finding.diagnosticAlong (f : Finding) (d : Document) : Attempt Diagnostic := do
  let start ← d.positionAlong f.span.start
  let stop ← d.positionAlong f.span.stop
  return {
    range := ⟨start, stop⟩
    message := f.problem.message
    severity := f.problem.severity
    code := f.problem.code
  }

/-- The diagnostics of a document, by a validation along cursors. -/
noncomputable def validateAlong (settings : LintSettings) (keywords : List String) (d : Document) :
    Attempt (List Diagnostic) := do
  let report ← lintAlong settings keywords d.text
  report.findings.mapM fun f => f.diagnosticAlong d

/-! ## The passes come to their results -/

/-- An attempt has one result. -/
theorem pure_inj {α : Type} {a b : α} (h : (pure a : Attempt α) = pure b) : a = b :=
  Except.ok.inj (Option.some.inj h)

/-- Attempts that all succeed do so one after the other. -/
theorem mapM_eq_pure {α β : Type} {f : α → Attempt β} {g : α → β} {l : List α}
    (h : ∀ a ∈ l, f a = pure (g a)) : l.mapM f = pure (l.map g) := by
  induction l with
  | nil => rfl
  | cons a l ih =>
      rw [List.mapM_cons, h a List.mem_cons_self, ih fun b hb => h b (List.mem_cons_of_mem a hb)]
      rfl

/-- The checks of an instruction come to an end, with their findings. -/
theorem checkInstructionAlong_eq (ctx : CheckContext)
    (hi : i ∈ (Dockerfile.parse text).instructions)
    (hescape : ctx.escape = some (Dockerfile.parse text).escape)
    (hfinish : ctx.finish = text.length) :
    checkInstructionAlong ctx text (Dockerfile.parse text).escape i =
      pure (checkInstruction ctx i) := by
  have hpresent := Instruction.hasArgumentsAlong_eq hi
    (String.singleton (Dockerfile.parse text).escape)
  have hargs := Instruction.argumentsAlong_eq hi
    (String.singleton (Dockerfile.parse text).escape)
  rw [Escape.ofString_singleton, ← hescape, ← hfinish] at hpresent
  rw [Escape.ofString_singleton, ← hescape] at hargs
  have hbody : checkBodyAlong text (Dockerfile.parse text).escape i = pure (checkBody ctx i) := by
    unfold checkBodyAlong checkBody
    rw [hpresent, pure_bind]
    cases i.hasArguments ctx.escape ctx.finish with
    | false => rfl
    | true =>
        cases (ruleFor i.keyword).arguments with
        | none => rfl
        | some rule => simp [hargs]
  unfold checkInstructionAlong checkInstruction
  rw [hbody, pure_bind]
  split
  · rfl
  · split <;> rfl

/-- The scan of a parsed text starts within the text. -/
theorem placed_start (text : List Char) :
    (ScanRun.start (Dockerfile.parse text) text).Placed text (Dockerfile.parse text).escape where
  cursor_eq := rfl
  offset_le := bodyOffset_le text
  ahead hstate := absurd rfl hstate

/-- So do all checks of a text. -/
theorem lintAlong_eq (settings : LintSettings) (keywords : List String) (text : List Char) :
    lintAlong settings keywords text = pure (lint settings keywords text) := by
  have hinstructions : (Dockerfile.parse text).instructions.mapM
      (checkInstructionAlong (contextOf settings keywords text (Dockerfile.parse text)) text
        (Dockerfile.parse text).escape) =
        pure ((Dockerfile.parse text).instructions.map
          (checkInstruction (contextOf settings keywords text (Dockerfile.parse text)))) :=
    mapM_eq_pure fun i hi => checkInstructionAlong_eq _ hi rfl rfl
  have hscan : loop (ScanRun.next keywords) (ScanRun.start (Dockerfile.parse text) text) =
      pure (scan (some (Dockerfile.parse text).escape) keywords (Dockerfile.parse text).bodyOffset
        text) :=
    ScanRun.loop_next (placed_start text).reads []
  unfold lintAlong
  rw [Dockerfile.parseAlong_eq, pure_bind]
  simp only [hinstructions, hscan, pure_bind]
  rfl

/-- The position of an offset is found. -/
theorem positionAlong_eq (text : List Char) (offset : Int) :
    (Document.ofText text).positionAlong offset =
      pure ((Document.ofText text).positionAt offset) := by
  obtain ⟨line, start, hcount, hstart, -⟩ :=
    exists_line text ((Document.ofText text).clamp offset)
  have hline : (Document.ofText text).lineAt ((Document.ofText text).clamp offset) = line := by
    unfold Document.lineAt
    exact Nat.sub_eq_of_eq_add hcount
  have hget : (Document.ofText text).lineStarts[line]? = some start := hstart
  unfold Document.positionAlong Document.positionAt Document.lineStart
  simp only [hline, hget, List.getD_eq_getElem?_getD, Option.getD_some]

/-- A validation comes to an end, with its diagnostics. -/
theorem validateAlong_eq (settings : LintSettings) (keywords : List String) (text : List Char) :
    validateAlong settings keywords (Document.ofText text) =
      pure (validate settings keywords (Document.ofText text)) := by
  unfold validateAlong
  rw [show (Document.ofText text).text = text from rfl, lintAlong_eq, pure_bind]
  refine mapM_eq_pure fun f _ => ?_
  unfold Finding.diagnosticAlong
  rw [positionAlong_eq, positionAlong_eq]
  rfl

/-- **Validation is total.**  On every text a validation along cursors ends without a fault,
with the diagnostics of the validation: it asks for no character that the text does not have,
and no cursor moves backwards or past its bound, as none does that starts within its bounds.
The scan goes on from every state that it comes to, within the text, and when it is back on
the line behind a word or a comment it has taken a character at least. -/
theorem validate_total (settings : LintSettings) (keywords : List String) (text : List Char) :
    let d := Document.ofText text
    (validateAlong settings keywords d).run = some (.ok (validate settings keywords d)) ∧
      (∀ c : Cursor, c.InBounds → c.Steady) ∧
      ∀ r, Reaches (ScanRun.next keywords) (ScanRun.start (Dockerfile.parse text) text) r →
        r.cursor.InBounds ∧
        (∃ result, (ScanRun.next keywords r).run = some (.ok result)) ∧
        ∀ r₁ r₂, r.state = .scanningLine →
          (ScanRun.next keywords r).run = some (.ok (.inl r₁)) →
          (ScanRun.next keywords r₁).run = some (.ok (.inl r₂)) →
            r₂.state = .scanningLine ∧ r.cursor.offset < r₂.cursor.offset := by
  intro d
  refine ⟨congrArg ExceptT.run (validateAlong_eq settings keywords text),
    fun c hbounds => hbounds.steady, fun r hr => ?_⟩
  have hstep : ∀ r r', r.Placed text (Dockerfile.parse text).escape →
      ScanRun.next keywords r = pure (.inl r') →
        r'.Placed text (Dockerfile.parse text).escape ∧ r.Precedes r' := by
    intro r r' hplaced hnext
    obtain ⟨result, hresult, hbehind⟩ := hplaced.next keywords
    exact hbehind r' (pure_inj (hresult.symm.trans hnext))
  have hplaced := hr.invariant (fun r => r.Placed text (Dockerfile.parse text).escape)
    (placed_start text) fun t u ht hu => (hstep t u ht hu).1
  obtain ⟨result, hresult, -⟩ := hplaced.next keywords
  refine ⟨⟨hplaced.reads.offset_le, hplaced.reads.stop_le⟩,
    ⟨result, congrArg ExceptT.run hresult⟩, fun r₁ r₂ hstate hnext hthen => ?_⟩
  obtain ⟨hplaced₁, hprecedes₁⟩ := hstep r r₁ hplaced hnext
  obtain ⟨-, hprecedes₂⟩ := hstep r₁ r₂ hplaced₁ hthen
  obtain ⟨hline, hlt⟩ := hprecedes₂.returns (hprecedes₁.leaves hstate)
  exact ⟨hline, Nat.lt_of_le_of_lt hprecedes₁.le hlt⟩

end DockerfileLint
