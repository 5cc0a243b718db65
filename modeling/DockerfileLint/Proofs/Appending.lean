import DockerfileLint.Proofs.Places
import DockerfileLint.Proofs.Stacking

/-!
# Text appended below

What was found in a document is found again, at the same place, when text is appended
below it.  The document has to end its last line, so that no reader runs on into the
new text, and it needs an instruction, because otherwise the first instruction of the
new text would become that of the whole.

Nothing is found in the break that ends the document.  That is why even a line feed
below a carriage return, which makes one break of the two, moves no diagnostic.

* `EndsLine.findings_within` keeps the findings in front of the last break;
* `validate_above` says that the diagnostics of either pass only go on.
-/

namespace DockerfileLint

variable {keywords : List String} {settings : LintSettings} {text above below : List Char}

/-! ## The two passes -/

/-- What the checks of the directive and of the instructions found. -/
def LintReport.modelFindings (r : LintReport) : List Finding :=
  r.directive ++ r.sourceImage ++ r.instructions

/-- The diagnostics of the directive and of the instructions. -/
def modelDiagnostics (settings : LintSettings) (keywords : List String) (d : Document) :
    List Diagnostic :=
  (lint settings keywords d.text).modelFindings.map fun f => f.diagnostic d

/-- The diagnostics of the structural scan. -/
def scanDiagnostics (settings : LintSettings) (keywords : List String) (d : Document) :
    List Diagnostic :=
  (lint settings keywords d.text).scan.map fun f => f.diagnostic d

/-- The diagnostics of the scan come behind all others. -/
theorem validate_eq_append (settings : LintSettings) (keywords : List String) (d : Document) :
    validate settings keywords d =
      modelDiagnostics settings keywords d ++ scanDiagnostics settings keywords d :=
  List.map_append

/-! ## In front of the last break -/

/-- What covers characters ends in front of a break that ends the text. -/
theorem Span.Covers.stop_lt {s : Span Nat} (h : s.Covers text) {b : Char}
    (hlast : text.getLast? = some b) (hb : isBreak b = true) : s.stop < text.length := by
  obtain ⟨c, hc, hbreak⟩ := h.last
  have hlt := (List.getElem?_eq_some_iff.mp hc).1
  have hne : s.stop - 1 ≠ text.length - 1 := by
    intro heq
    rw [heq, ← List.getLast?_eq_getElem?, hlast] at hc
    obtain rfl := Option.some.inj hc
    rw [hb] at hbreak
    cases hbreak
  have hpos := h.start_lt
  omega

/-- Nothing is found in the break that ends a document, nor behind it. -/
theorem EndsLine.findings_within (h : EndsLine text) (settings : LintSettings)
    (keywords : List String) :
    ∀ f ∈ (lint settings keywords text).findings, f.span.Within 0 (text.length - 1) := by
  intro f hf
  cases mem_lint_findings hf with
  | directive hf =>
      have hline := firstLine_length_lt (any_isBreak_of_getLast? h.getLast?)
      exact (checkDirective_within hf).mono (Nat.le_refl 0) (by omega)
  | sourceImage hf =>
      rcases mem_checkSourceImage hf with ⟨-, rfl⟩ | ⟨first, hfirst, rfl⟩
      · exact ⟨Nat.le_refl 0, Nat.le_refl 0, Nat.zero_le _⟩
      · have hmem := List.mem_of_head? hfirst
        obtain ⟨-, hstart, hname, hstop, -⟩ := instruction_within hmem
        have hend := h.span_stop_lt hmem
        exact ⟨Nat.zero_le _, by simp only; omega, by simp only; omega⟩
  | instruction i hi hf =>
      have hend := h.span_stop_lt hi
      obtain ⟨start, c, rest, -, -, -, hword, rfl⟩ := mem_parse_instructions hi
      exact (checkInstruction_within _ hword f hf).mono (Nat.zero_le _) (by omega)
  | scan hf =>
      obtain ⟨b, hlast, hb⟩ := h.getLast?
      obtain ⟨-, hcovers⟩ := scanFrom_findings_covers rfl hf
      have hend := hcovers.stop_lt hlast hb
      exact ⟨Nat.zero_le _, Nat.le_of_lt hcovers.start_lt, by omega⟩

/-- In front of the last break of a document positions do not depend on the text below
it. -/
theorem EndsLine.diagnostic_append (h : EndsLine above) {f : Finding}
    (hf : f.span.Within 0 (above.length - 1)) (below : List Char) :
    f.diagnostic (Document.ofText (above ++ below)) = f.diagnostic (Document.ofText above) := by
  obtain ⟨b, hlast, hb⟩ := h.getLast?
  by_cases hreturn : b = '\r'
  · -- The carriage return may become part of a longer break, so the seam is put before it.
    subst hreturn
    obtain ⟨front, rfl⟩ := List.getLast?_eq_some_iff.mp hlast
    rw [List.length_append, List.length_singleton, Nat.add_sub_cancel] at hf
    have hlong : Apart front ('\r' :: below) := by
      simp [Apart]
    have hshort : Apart front ['\r'] := by
      simp [Apart]
    rw [List.append_assoc, diagnostic_front hshort hf]
    exact diagnostic_front hlong hf
  · have hapart : Apart above below := by
      intro hend
      rw [hlast] at hend
      exact absurd (Option.some.inj hend) hreturn
    exact diagnostic_front hapart (hf.mono (Nat.le_refl 0) (Nat.sub_le _ _))

/-! ## The diagnostics of a document and the text below it -/

/-- A document with an instruction keeps its first one. -/
theorem firstBelow_eq_false (hfirst : (Dockerfile.parse above).instructions ≠ [])
    (below : List Char) : firstBelow above below = false := by
  simp [firstBelow, hfirst]

/-- What is made of a list of findings goes on with what is made of a longer one. -/
theorem EndsLine.diagnostics_prefix (h : EndsLine above) (below : List Char)
    {findings more : List Finding}
    (hfindings : ∀ f ∈ findings, f.span.Within 0 (above.length - 1)) :
    findings.map (fun f => f.diagnostic (Document.ofText above)) <+:
      (findings ++ more).map (fun f => f.diagnostic (Document.ofText (above ++ below))) := by
  have hsame : findings.map (fun f => f.diagnostic (Document.ofText above)) =
      findings.map (fun f => f.diagnostic (Document.ofText (above ++ below))) := by
    apply List.map_congr_left
    intro f hf
    exact (h.diagnostic_append (hfindings f hf) below).symm
  rw [hsame, List.map_append]
  exact List.prefix_append _ _

/-- **Text appended below does not disturb what was found above.**  For a document that
ends its last line and has an instruction, and any text below it: the diagnostics of the
directive and the instructions start with those of the document alone, and so do the
diagnostics of the structural scan, with the same ranges; together they are the
diagnostics of the validation. -/
theorem validate_above (h : EndsLine above) (hfirst : (Dockerfile.parse above).instructions ≠ [])
    (settings : LintSettings) (keywords : List String) (below : List Char) :
    let d := Document.ofText above
    let e := Document.ofText (above ++ below)
    validate settings keywords d =
        modelDiagnostics settings keywords d ++ scanDiagnostics settings keywords d ∧
      validate settings keywords e =
        modelDiagnostics settings keywords e ++ scanDiagnostics settings keywords e ∧
      modelDiagnostics settings keywords d <+: modelDiagnostics settings keywords e ∧
      scanDiagnostics settings keywords d <+: scanDiagnostics settings keywords e := by
  intro d e
  have hwithin := h.findings_within settings keywords
  have hlint : lint settings keywords e.text = _ := lint_append settings keywords h below
  rw [firstBelow_eq_false hfirst] at hlint
  refine ⟨validate_eq_append settings keywords d, validate_eq_append settings keywords e, ?_, ?_⟩
  · have hmodel : ∀ f ∈ (lint settings keywords above).modelFindings,
        f.span.Within 0 (above.length - 1) :=
      fun f hf => hwithin f (List.mem_append_left _ hf)
    unfold modelDiagnostics
    rw [hlint]
    simp only [LintReport.modelFindings, LintReport.stack, Bool.false_eq_true, if_false]
    rw [← List.append_assoc]
    exact h.diagnostics_prefix below hmodel
  · have hscan : ∀ f ∈ (lint settings keywords above).scan,
        f.span.Within 0 (above.length - 1) :=
      fun f hf => hwithin f (List.mem_append_right _ hf)
    unfold scanDiagnostics
    rw [hlint]
    exact h.diagnostics_prefix below hscan

/-- A document that ends in a carriage return, with something wrong in either pass. -/
def returnEnded : List Char := "FROM x y\nVOLUME [\"a\" \"b\"]\r".toList

/-- Below `returnEnded` a line feed and an instruction leave the diagnostics above as
they are. -/
theorem validate_above_returnEnded :
    let d := Document.ofText returnEnded
    let e := Document.ofText (returnEnded ++ "\nRUN\n".toList)
    EndsLine returnEnded ∧ (Dockerfile.parse returnEnded).instructions ≠ [] ∧
      modelDiagnostics {} standardKeywords d ≠ [] ∧ scanDiagnostics {} standardKeywords d ≠ [] ∧
      modelDiagnostics {} standardKeywords d <+: modelDiagnostics {} standardKeywords e ∧
      scanDiagnostics {} standardKeywords d <+: scanDiagnostics {} standardKeywords e := by
  have hends : EndsLine returnEnded := by
    decide +kernel
  have hfirst : (Dockerfile.parse returnEnded).instructions ≠ [] := by
    decide +kernel
  obtain ⟨-, -, hmodel, hscan⟩ :=
    validate_above hends hfirst {} standardKeywords "\nRUN\n".toList
  exact ⟨hends, hfirst, by decide +kernel, by decide +kernel, hmodel, hscan⟩

end DockerfileLint
