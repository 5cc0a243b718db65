import DockerfileLint.Proofs.ReportOrder

/-!
# The setting for deprecated instructions

There is one setting, and it decides what becomes of an instruction that names a
maintainer.  What it adds to the findings of an instruction comes in front of the others,
which are found whatever the setting is: `checkInstruction_eq_append`.  So the setting
hides nothing but what it is about, although an instruction that is deprecated has yet to
be checked for its arguments when this is found.

* `lint_findings_others`: findings without the deprecated instructions;
* `lint_findings_deprecations`: the deprecated instructions alone;
* `validate_maintainerPolicy`: the diagnostics of a document under any two settings.
-/

namespace DockerfileLint

variable {ctx : CheckContext} {i : Instruction} {f : Finding} {text : List Char}
  {keywords : List String}

/-! ## One instruction -/

/-- The instruction is an allowed one, and its keyword is written just so. -/
def Instruction.namesMaintainer (i : Instruction) (keywords : List String) : Bool :=
  i.keyword ∈ keywords ∧ i.written = "MAINTAINER"

/-- A finding is about a deprecated instruction. -/
def Finding.isDeprecation (f : Finding) : Bool :=
  f.problem.code = .deprecatedMaintainer

/-- A deprecated instruction is found at its very start. -/
def Instruction.deprecation (i : Instruction) (severity : Severity) : Finding :=
  ⟨.deprecatedMaintainer severity, ⟨i.nameSpan.start, i.nameSpan.start⟩⟩

/-- What a policy adds to the findings of an instruction. -/
def MaintainerPolicy.findings (policy : MaintainerPolicy) (keywords : List String)
    (i : Instruction) : List Finding :=
  if i.namesMaintainer keywords then policy.severity?.toList.map i.deprecation else []

/-- The checks with deprecated instructions ignored. -/
def CheckContext.ignoring (ctx : CheckContext) : CheckContext :=
  { ctx with settings := { deprecatedMaintainer := .ignore } }

/-- One keyword is deprecated. -/
theorem ruleFor_deprecated_iff {keyword : String} :
    (ruleFor keyword).deprecated = true ↔ keyword = "MAINTAINER" := by
  have htable : ∀ entry ∈ rules, entry.2.deprecated = true ↔ entry.1 = "MAINTAINER" := by
    simp [rules]
  constructor
  · intro h
    unfold ruleFor at h
    cases hlookup : rules.lookup keyword with
    | none => simp [hlookup] at h
    | some rule =>
        rw [hlookup, Option.getD_some] at h
        exact (htable _ (mem_rules_of_lookup hlookup)).mp h
  · rintro rfl
    rfl

/-- With deprecated instructions ignored there is nothing to say of them. -/
theorem checkDeprecation_ignoring (ctx : CheckContext) (i : Instruction) :
    checkDeprecation ctx.ignoring i = [] := by
  unfold checkDeprecation
  split <;> rfl

/-- What is said of a deprecated instruction goes by its keyword and the policy. -/
theorem checkDeprecation_eq (ctx : CheckContext) (i : Instruction) :
    checkDeprecation ctx i =
      if i.keyword = "MAINTAINER" then
        ctx.settings.deprecatedMaintainer.severity?.toList.map i.deprecation
      else
        [] := by
  unfold checkDeprecation MaintainerPolicy.problem?
  by_cases hkeyword : i.keyword = "MAINTAINER"
  · rw [if_pos (ruleFor_deprecated_iff.mpr hkeyword), if_pos hkeyword]
    cases ctx.settings.deprecatedMaintainer.severity? <;> rfl
  · rw [if_neg (fun h => hkeyword (ruleFor_deprecated_iff.mp h)), if_neg hkeyword]

/-- In an allowed keyword that is written in upper case nothing is converted. -/
theorem namesMaintainer_iff (hallowed : i.keyword ∈ keywords) (hupper : i.keyword = i.written) :
    i.namesMaintainer keywords = true ↔ i.keyword = "MAINTAINER" := by
  simp [Instruction.namesMaintainer, hallowed, ← hupper]

/-- A keyword that reads as the maintainer's is in upper case. -/
theorem namesMaintainer_eq_false (hlower : i.keyword ≠ i.written) :
    i.namesMaintainer keywords = false := by
  have hwritten : i.written ≠ "MAINTAINER" := by
    intro hwritten
    have hupper : i.keyword = Unicode.upper "MAINTAINER" := congrArg Unicode.upper hwritten
    rw [hwritten, hupper] at hlower
    exact hlower (by decide +kernel)
  simp [Instruction.namesMaintainer, hwritten]

/-- **What a setting adds** to the findings of an instruction comes before all others,
and the others are found under every setting. -/
theorem checkInstruction_eq_append (ctx : CheckContext) (i : Instruction) :
    checkInstruction ctx i =
      ctx.settings.deprecatedMaintainer.findings ctx.keywords i ++
        checkInstruction ctx.ignoring i := by
  have hkeywords : ctx.ignoring.keywords = ctx.keywords := rfl
  have hbody : checkBody ctx.ignoring i = checkBody ctx i := rfl
  unfold checkInstruction MaintainerPolicy.findings
  rw [hkeywords]
  by_cases hallowed : i.keyword ∈ ctx.keywords
  · rw [if_neg (not_not_intro hallowed), if_neg (not_not_intro hallowed)]
    by_cases hupper : i.keyword = i.written
    · rw [if_neg (not_not_intro hupper), if_neg (not_not_intro hupper),
        checkDeprecation_ignoring, hbody, List.nil_append, checkDeprecation_eq]
      simp only [namesMaintainer_iff hallowed hupper]
    · rw [if_pos hupper, if_pos hupper, namesMaintainer_eq_false hupper]
      rfl
  · rw [if_pos hallowed, if_pos hallowed]
    simp [Instruction.namesMaintainer, hallowed]

/-! ## Findings apart from deprecated instructions -/

/-- None of the findings is about a deprecated instruction. -/
def NoDeprecation (findings : List Finding) : Prop :=
  ∀ f ∈ findings, f.isDeprecation = false

/-- Findings without a deprecation are all among the others. -/
theorem NoDeprecation.filter_others {findings : List Finding} (h : NoDeprecation findings) :
    findings.filter (fun f => !f.isDeprecation) = findings := by
  rw [List.filter_eq_self]
  intro f hf
  rw [h f hf]
  rfl

/-- They leave nothing among the deprecations. -/
theorem NoDeprecation.filter_deprecations {findings : List Finding} (h : NoDeprecation findings) :
    findings.filter Finding.isDeprecation = [] := by
  rw [List.filter_eq_nil_iff]
  intro f hf
  simp [h f hf]

/-- With deprecated instructions ignored none is found. -/
theorem noDeprecation_checkInstruction (ctx : CheckContext) (i : Instruction) :
    NoDeprecation (checkInstruction ctx.ignoring i) := by
  intro f hf
  unfold checkInstruction at hf
  rw [checkDeprecation_ignoring, List.nil_append] at hf
  split at hf
  · rw [List.mem_singleton.mp hf]
    rfl
  · split at hf
    · rw [List.mem_singleton.mp hf]
      rfl
    · rcases mem_checkBody hf with rfl | ⟨a, -, -, hfault⟩
      · rfl
      · obtain ⟨problem, span⟩ := f
        cases hfault <;> rfl

/-- The findings of a report come part by part. -/
theorem LintReport.findings_eq_parts (r : LintReport) :
    r.findings = r.part .directive ++ r.part .sourceImage ++ r.part .instructions ++
      r.part .scan := rfl

/-- Only the checks of the instructions know of deprecated ones. -/
theorem noDeprecation_part {settings : LintSettings} (part : ReportPart)
    (hpart : part ≠ .instructions) : NoDeprecation ((lint settings keywords text).part part) := by
  intro f hf
  have hcode := part_of_mem_lint hf
  unfold Finding.isDeprecation
  rw [decide_eq_false_iff_not]
  intro hdeprecated
  rw [hdeprecated] at hcode
  exact hpart hcode.symm

/-- Only the checks of the instructions ask for the setting. -/
theorem lint_part_eq (settings settings' : LintSettings) {part : ReportPart}
    (hpart : part ≠ .instructions) :
    (lint settings keywords text).part part = (lint settings' keywords text).part part := by
  cases part with
  | instructions => exact absurd rfl hpart
  | directive | sourceImage | scan => simp only [LintReport.part, lint]

/-- What a policy adds is about deprecated instructions. -/
theorem isDeprecation_of_mem_findings {policy : MaintainerPolicy}
    (hf : f ∈ policy.findings keywords i) : f.isDeprecation = true := by
  unfold MaintainerPolicy.findings at hf
  split at hf
  · obtain ⟨severity, -, rfl⟩ := List.mem_map.mp hf
    rfl
  · cases hf

/-- What the policy finds is none of the others. -/
theorem MaintainerPolicy.findings_filter_others (policy : MaintainerPolicy) :
    (policy.findings keywords i).filter (fun f => !f.isDeprecation) = [] := by
  rw [List.filter_eq_nil_iff]
  intro f hf
  simp [isDeprecation_of_mem_findings hf]

/-- All that the policy finds is about deprecated instructions. -/
theorem MaintainerPolicy.findings_filter_deprecations (policy : MaintainerPolicy) :
    (policy.findings keywords i).filter Finding.isDeprecation = policy.findings keywords i := by
  rw [List.filter_eq_self]
  exact fun f hf => isDeprecation_of_mem_findings hf

/-! ## What is found in a document -/

/-- The settings under which deprecated instructions are ignored. -/
def LintSettings.ignoring : LintSettings where
  deprecatedMaintainer := .ignore

/-- The instructions of a text that are reported unless the setting ignores them. -/
def maintainers (keywords : List String) (text : List Char) : List Instruction :=
  (Dockerfile.parse text).instructions.filter fun i => i.namesMaintainer keywords

/-- The checks of the instructions find what a policy adds to each, and what they find
with deprecated instructions ignored. -/
theorem lint_instructions_eq (settings : LintSettings) (keywords : List String)
    (text : List Char) :
    (lint settings keywords text).instructions =
      (Dockerfile.parse text).instructions.flatMap fun i =>
        settings.deprecatedMaintainer.findings keywords i ++ checkInstruction
          (contextOf settings keywords text (Dockerfile.parse text)).ignoring i :=
  congrArg (fun check => (Dockerfile.parse text).instructions.flatMap check)
    (funext fun i => checkInstruction_eq_append _ i)

/-- **The other findings** of a text are those of ignoring deprecated instructions. -/
theorem lint_findings_others (settings : LintSettings) (keywords : List String)
    (text : List Char) :
    (lint settings keywords text).findings.filter (fun f => !f.isDeprecation) =
      (lint .ignoring keywords text).findings := by
  have hinstructions : (lint settings keywords text).instructions.filter
      (fun f => !f.isDeprecation) = (lint .ignoring keywords text).instructions := by
    rw [lint_instructions_eq, List.filter_flatMap]
    simp only [List.filter_append, MaintainerPolicy.findings_filter_others, List.nil_append,
      (noDeprecation_checkInstruction _ _).filter_others]
    rfl
  have hpart : ∀ part, ((lint settings keywords text).part part).filter
      (fun f => !f.isDeprecation) = (lint .ignoring keywords text).part part := by
    intro part
    by_cases h : part = .instructions
    · rw [h]
      exact hinstructions
    · rw [(noDeprecation_part part h).filter_others, lint_part_eq _ _ h]
  rw [LintReport.findings_eq_parts, LintReport.findings_eq_parts]
  simp only [List.filter_append, hpart]

/-- A policy adds one finding to each of the instructions that name a maintainer, or
none. -/
theorem flatMap_findings (policy : MaintainerPolicy) (keywords : List String)
    (instructions : List Instruction) :
    instructions.flatMap (policy.findings keywords) =
      policy.severity?.toList.flatMap fun severity =>
        (instructions.filter fun i => i.namesMaintainer keywords).map (·.deprecation severity) := by
  induction instructions with
  | nil => cases policy.severity? <;> rfl
  | cons i instructions ih =>
      rw [List.flatMap_cons, ih]
      unfold MaintainerPolicy.findings
      cases hnames : i.namesMaintainer keywords <;> cases policy.severity? <;> simp [hnames]

/-- **The deprecated instructions** are found one by one, with the severity that the
policy asks for. -/
theorem lint_findings_deprecations (settings : LintSettings) (keywords : List String)
    (text : List Char) :
    (lint settings keywords text).findings.filter Finding.isDeprecation =
      settings.deprecatedMaintainer.severity?.toList.flatMap fun severity =>
        (maintainers keywords text).map (·.deprecation severity) := by
  have hinstructions : (lint settings keywords text).instructions.filter
      Finding.isDeprecation = (Dockerfile.parse text).instructions.flatMap
        (settings.deprecatedMaintainer.findings keywords) := by
    rw [lint_instructions_eq, List.filter_flatMap]
    simp only [List.filter_append, MaintainerPolicy.findings_filter_deprecations, List.append_nil,
      (noDeprecation_checkInstruction _ _).filter_deprecations]
  have hpart : ∀ part, part ≠ .instructions →
      ((lint settings keywords text).part part).filter Finding.isDeprecation = [] :=
    fun part h => (noDeprecation_part part h).filter_deprecations
  rw [LintReport.findings_eq_parts, List.filter_append, List.filter_append, List.filter_append,
    hpart .directive nofun, hpart .sourceImage nofun, hpart .scan nofun, List.nil_append,
    List.nil_append, List.append_nil]
  exact hinstructions.trans (flatMap_findings _ _ _)

/-! ## Diagnostics -/

/-- A diagnostic with the deprecated instruction taken for an error. -/
def Diagnostic.raised (dg : Diagnostic) : Diagnostic :=
  if dg.code = .deprecatedMaintainer then { dg with severity := .error } else dg

/-- The diagnostic of a deprecated instruction, which has no width. -/
def Instruction.deprecationDiagnostic (i : Instruction) (d : Document) (severity : Severity) :
    Diagnostic where
  range := d.rangeAt i.nameSpan.start i.nameSpan.start
  message := "MAINTAINER has been deprecated"
  severity := severity
  code := .deprecatedMaintainer

/-- Diagnostics without a deprecation are not raised. -/
theorem NoDeprecation.map_raised {findings : List Finding} (h : NoDeprecation findings)
    (d : Document) :
    findings.map (fun f => (f.diagnostic d).raised) = findings.map (fun f => f.diagnostic d) := by
  apply List.map_congr_left
  intro f hf
  exact if_neg (of_decide_eq_false (h f hf))

/-- What the policy that warns adds is what the policy of errors adds, when it is
raised. -/
theorem MaintainerPolicy.findings_map_raised (d : Document) (keywords : List String)
    (i : Instruction) :
    (MaintainerPolicy.warning.findings keywords i).map (fun f => (f.diagnostic d).raised) =
      (MaintainerPolicy.error.findings keywords i).map fun f => f.diagnostic d := by
  unfold MaintainerPolicy.findings
  split <;> rfl

/-- **Warnings and errors**: the diagnostics of a document are the same, one by one, but
for the severity of those about deprecated instructions. -/
theorem lint_findings_raised (d : Document) (keywords : List String) (text : List Char) :
    (lint { deprecatedMaintainer := .error } keywords text).findings.map
        (fun f => f.diagnostic d) =
      (lint { deprecatedMaintainer := .warning } keywords text).findings.map
        fun f => (f.diagnostic d).raised := by
  have hinstructions : (lint { deprecatedMaintainer := .error } keywords text).instructions.map
      (fun f => f.diagnostic d) =
        (lint { deprecatedMaintainer := .warning } keywords text).instructions.map
          fun f => (f.diagnostic d).raised := by
    rw [lint_instructions_eq, lint_instructions_eq, List.map_flatMap, List.map_flatMap]
    simp only [List.map_append, MaintainerPolicy.findings_map_raised,
      (noDeprecation_checkInstruction _ _).map_raised]
    rfl
  have hpart : ∀ part, ((lint { deprecatedMaintainer := .error } keywords text).part part).map
      (fun f => f.diagnostic d) =
        ((lint { deprecatedMaintainer := .warning } keywords text).part part).map
          fun f => (f.diagnostic d).raised := by
    intro part
    by_cases h : part = .instructions
    · rw [h]
      exact hinstructions
    · rw [(noDeprecation_part part h).map_raised d, lint_part_eq _ _ h]
  rw [LintReport.findings_eq_parts, LintReport.findings_eq_parts]
  simp only [List.map_append, hpart]

/-- The diagnostics that are not about deprecated instructions. -/
theorem validate_others (settings : LintSettings) (keywords : List String) (text : List Char) :
    (validate settings keywords (Document.ofText text)).filter
        (fun dg => dg.code ≠ .deprecatedMaintainer) =
      (lint .ignoring keywords text).findings.map fun f => f.diagnostic (Document.ofText text) := by
  unfold validate
  rw [List.filter_map, ← lint_findings_others settings]
  refine congrArg _ (List.filter_congr fun f _ => ?_)
  exact decide_not

/-- The diagnostics about deprecated instructions. -/
theorem validate_deprecations (settings : LintSettings) (keywords : List String)
    (text : List Char) :
    (validate settings keywords (Document.ofText text)).filter
        (fun dg => dg.code = .deprecatedMaintainer) =
      settings.deprecatedMaintainer.severity?.toList.flatMap fun severity =>
        (maintainers keywords text).map
          (·.deprecationDiagnostic (Document.ofText text) severity) := by
  have hfindings := lint_findings_deprecations settings keywords text
  unfold validate
  rw [List.filter_map]
  refine (congrArg _ hfindings).trans ?_
  rw [List.map_flatMap]
  simp only [List.map_map]
  rfl

/-- **The setting for deprecated instructions.**  Under any two settings a document has
the same diagnostics but for those about deprecated instructions.  When these are ignored
there are none; as warnings and as errors the diagnostics are the same, one by one, but
for the severity of theirs; and there is exactly one of them, without width and at the
start of the keyword, for each instruction with an allowed keyword that is written
`MAINTAINER`. -/
theorem validate_maintainerPolicy (keywords : List String) (text : List Char) :
    let d := Document.ofText text
    let others := fun settings =>
      (validate settings keywords d).filter fun dg => dg.code ≠ .deprecatedMaintainer
    let deprecations := fun settings =>
      (validate settings keywords d).filter fun dg => dg.code = .deprecatedMaintainer
    (∀ settings settings', others settings = others settings') ∧
      deprecations { deprecatedMaintainer := .ignore } = [] ∧
      validate { deprecatedMaintainer := .error } keywords d =
        (validate { deprecatedMaintainer := .warning } keywords d).map Diagnostic.raised ∧
      deprecations { deprecatedMaintainer := .warning } =
        (maintainers keywords text).map (·.deprecationDiagnostic d .warning) ∧
      deprecations { deprecatedMaintainer := .error } =
        (maintainers keywords text).map (·.deprecationDiagnostic d .error) := by
  intro d others deprecations
  refine ⟨fun settings settings' => ?_, validate_deprecations _ keywords text, ?_, ?_, ?_⟩
  · exact (validate_others settings keywords text).trans
      (validate_others settings' keywords text).symm
  · show _ = ((lint _ keywords text).findings.map fun f => f.diagnostic d).map Diagnostic.raised
    rw [List.map_map]
    exact lint_findings_raised d keywords text
  · exact (validate_deprecations _ keywords text).trans (List.append_nil _)
  · exact (validate_deprecations _ keywords text).trans (List.append_nil _)

/-- A deprecated instruction is checked for its arguments all the same. -/
example : (validate {} standardKeywords (Document.ofText "FROM x\nMAINTAINER\n".toList)).map
    (·.code) = [.deprecatedMaintainer, .missingArgument] := by
  decide +kernel

end DockerfileLint
