import DockerfileLint.Proofs.ReportOrder

/-!
# A larger whitelist

Keywords that are added to the whitelist change what is said of their own instructions
and of nothing else.  The directive and the first instruction are checked without the
whitelist.  The scan goes through the text alike under both lists until it comes to a word
that only the larger one knows; there it ends under the smaller one, and so it found
nothing that it does not find under the larger.

The words of the scan need not be keywords of the parser's instructions: it can read one
in the middle of a line, behind a list that breaks.  And a keyword with a rule is known to
it under either list.  `scanFrom_findings_enlarged` follows both scans along the text and
asks only whether the word at hand is known.

* `checkInstruction_enlarged`: an instruction whose keyword is on both lists or on none;
* `validate_enlarged`: the parts of a report, one by one.
-/

namespace DockerfileLint

variable {esc : Escape} {keywords larger : List String}

/-! ## The structural scan -/

/-- A word that is known under a whitelist is known alike under a larger one. -/
theorem bodyForm?_enlarged (h : keywords ⊆ larger) {keyword : String}
    (hknown : (bodyForm? keywords keyword).isSome = true) :
    bodyForm? keywords keyword = bodyForm? larger keyword := by
  unfold bodyForm? at hknown ⊢
  cases hrule : rules.lookup keyword with
  | some rule => rfl
  | none =>
      rw [hrule] at hknown
      by_cases hallowed : keyword ∈ keywords
      · simp only [if_pos hallowed, if_pos (h hallowed)]
      · simp [hallowed] at hknown

/-- What the scan finds under a whitelist it finds first under a larger one. -/
theorem scanFrom_findings_enlarged (esc : Escape) (h : keywords ⊆ larger) (off : Nat)
    (cs : List Char) :
    (scanFrom esc keywords off cs).findings <+: (scanFrom esc larger off cs).findings := by
  induction off, cs using scanning_induction esc keywords with
  | nil off => exact ⟨[], by rw [scanFrom_nil, scanFrom_nil, List.append_nil]⟩
  | space off c cs hspace ih =>
      rw [scanFrom_of_isSpace hspace, scanFrom_of_isSpace hspace]
      exact ih
  | comment off cs ih =>
      rw [scanFrom_of_mark, scanFrom_of_mark]
      exact ih
  | joint off c cs hspace hmark hword ih =>
      rw [scanFrom_of_joint hspace hmark hword, scanFrom_of_joint hspace hmark hword]
      exact ih
  | unknown off c cs hspace hmark hword hform =>
      -- The smaller list ends the scan at a word, and an unknown word reports nothing.
      have hnone : (scanFrom esc keywords off (c :: cs)).findings = [] := by
        rw [scanFrom_of_unknown hspace hmark hword hform]
        simp [Scan.findings, Visit.findings_of_unknown (readVisit_outcome.mpr hform)]
      rw [hnone]
      exact List.nil_prefix
  | word off c cs hspace hmark hword hform ih =>
      have hsame : visitForm esc keywords off (c :: cs) = visitForm esc larger off (c :: cs) :=
        bodyForm?_enlarged h hform
      have hform' : (visitForm esc larger off (c :: cs)).isSome = true := by
        rw [← hsame]
        exact hform
      rw [scanFrom_of_word hspace hmark hword hform, scanFrom_of_word hspace hmark hword hform',
        Scan.cons_findings, Scan.cons_findings, ← readVisit_congr hsame, ← visitBody_congr hsame]
      exact (List.prefix_append_right_inj _).mpr ih

/-! ## The instructions -/

/-- An instruction is checked alike under two whitelists that agree on its keyword. -/
theorem checkInstruction_enlarged (ctx : CheckContext) {i : Instruction}
    (h : i.keyword ∈ ctx.keywords ↔ i.keyword ∈ larger) :
    checkInstruction { ctx with keywords := larger } i = checkInstruction ctx i := by
  have hdeprecation : checkDeprecation { ctx with keywords := larger } i =
      checkDeprecation ctx i := rfl
  have hbody : checkBody { ctx with keywords := larger } i = checkBody ctx i := rfl
  unfold checkInstruction
  by_cases hkeyword : i.keyword ∈ ctx.keywords
  · have hlarger := h.mp hkeyword
    rw [if_neg (not_not_intro hlarger), if_neg (not_not_intro hkeyword), hdeprecation, hbody]
  · have hlarger : i.keyword ∉ larger := fun hmem => hkeyword (h.mpr hmem)
    rw [if_pos hlarger, if_pos hkeyword]

/-! ## Documents -/

/-- **A larger whitelist.**  Under a larger whitelist the structural scan reports what it
reported before and then perhaps more, and what is said of the directive and of the first
instruction stays as it is.  The other diagnostics are those of the instructions, one by
one, and an instruction whose keyword was on the smaller list already, or is not even on
the larger one, has the same diagnostics under both. -/
theorem validate_enlarged (h : keywords ⊆ larger) (settings : LintSettings)
    (text : List Char) :
    let instructions := (Dockerfile.parse text).instructions
    let before := validate settings keywords (Document.ofText text)
    let after := validate settings larger (Document.ofText text)
    diagnosticsOf .scan before <+: diagnosticsOf .scan after ∧
      diagnosticsOf .directive before = diagnosticsOf .directive after ∧
      diagnosticsOf .sourceImage before = diagnosticsOf .sourceImage after ∧
      diagnosticsOf .instructions before =
        instructions.flatMap (instructionDiagnostics settings keywords text) ∧
      diagnosticsOf .instructions after =
        instructions.flatMap (instructionDiagnostics settings larger text) ∧
      ∀ i ∈ instructions, i.keyword ∈ keywords ∨ i.keyword ∉ larger →
        instructionDiagnostics settings keywords text i =
          instructionDiagnostics settings larger text i := by
  intro instructions before after
  refine ⟨?_, ?_, ?_, diagnosticsOf_instructions settings keywords text,
    diagnosticsOf_instructions settings larger text, ?_⟩
  · rw [diagnosticsOf_validate, diagnosticsOf_validate]
    exact (scanFrom_findings_enlarged _ h _ _).map _
  · rw [diagnosticsOf_validate, diagnosticsOf_validate]
    rfl
  · rw [diagnosticsOf_validate, diagnosticsOf_validate]
    rfl
  · intro i hi hkeyword
    have hagree : i.keyword ∈ keywords ↔ i.keyword ∈ larger := by
      rcases hkeyword with hmem | hnot
      · exact ⟨fun _ => h hmem, fun _ => hmem⟩
      · exact ⟨fun hmem => h hmem, fun hmem => absurd hmem hnot⟩
    have hcheck := checkInstruction_enlarged
      (contextOf settings keywords text (Dockerfile.parse text)) hagree
    unfold instructionDiagnostics
    rw [← hcheck]
    rfl

/-- A list that breaks at a quote, from where the scan reads on in the middle of the line. -/
def brokenTwice : List Char := "FROM x y\nVOLUME [\"a\" \"b\"]\nVOLUME [\n".toList

/-- Under `FROM` alone the scan of `brokenTwice` ends at the word behind the quote; with
that word and `VOLUME` on the list it finds the second list broken too. -/
theorem validate_enlarged_brokenTwice :
    let keywords := ["FROM"]
    let larger := ["FROM", "VOLUME", "\"B\"]"]
    let before := validate {} keywords (Document.ofText brokenTwice)
    let after := validate {} larger (Document.ofText brokenTwice)
    keywords ⊆ larger ∧ (diagnosticsOf .scan before).length = 1 ∧
      (diagnosticsOf .scan after).length = 2 ∧
      diagnosticsOf .scan before <+: diagnosticsOf .scan after ∧
      ∃ i ∈ (Dockerfile.parse brokenTwice).instructions, i.keyword = "FROM" ∧
        instructionDiagnostics {} keywords brokenTwice i ≠ [] ∧
        instructionDiagnostics {} keywords brokenTwice i =
          instructionDiagnostics {} larger brokenTwice i := by
  intro keywords larger before after
  have hsubset : keywords ⊆ larger := by
    decide
  obtain ⟨hscan, -, -, -, -, hinstructions⟩ := validate_enlarged hsubset {} brokenTwice
  refine ⟨hsubset, by decide +kernel, by decide +kernel, hscan,
    readInstruction (some '\\') 0 brokenTwice, by decide +kernel, by decide +kernel,
    by decide +kernel, ?_⟩
  exact hinstructions _ (by decide +kernel) (.inl (by decide +kernel))

end DockerfileLint
