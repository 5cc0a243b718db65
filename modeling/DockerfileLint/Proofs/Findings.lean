import DockerfileLint.Lint

/-!
# What the checks can say

Each check of the parsed document has a few things to say, each of them about one place:
the name or the value of a directive, the keyword of an instruction, or one of its
arguments.  They are listed here once.  Whatever is shown of findings later on, where
they lie, what they quote or in which order they come, goes through these lists and not
through the checks.

* `mem_checkDirective`, `mem_checkSourceImage`: the directive and the first instruction;
* `mem_checkInstruction`: every instruction;
* `checkInstruction_relocate`: the same instruction elsewhere;
* `mem_lint_findings`: everything that is found in a document.
-/

namespace DockerfileLint

variable {ctx : CheckContext} {i : Instruction} {f : Finding}

/-! ## Rules -/

/-- A rule that is found stands in the table. -/
theorem mem_rules_of_lookup {keyword : String} {rule : Rule}
    (h : rules.lookup keyword = some rule) : (keyword, rule) ∈ rules := by
  obtain ⟨before, after, heq, -⟩ := List.lookup_eq_some_iff.mp h
  rw [heq]
  simp

/-- The table has three rules for arguments. -/
theorem argumentRule_cases {keyword : String} {rule : ArgumentRule}
    (h : (ruleFor keyword).arguments = some rule) :
    rule = singleArgument ∨ rule = stopSignalArgument ∨ rule = portArguments := by
  unfold ruleFor at h
  cases hlookup : rules.lookup keyword with
  | none => simp [hlookup] at h
  | some found =>
      have hmem := mem_rules_of_lookup hlookup
      simp only [hlookup, Option.getD_some] at h
      simp only [rules, List.mem_cons, Prod.mk.injEq, List.not_mem_nil, or_false] at hmem
      rcases hmem with ⟨-, rfl⟩ | ⟨-, rfl⟩ | ⟨-, rfl⟩ | ⟨-, rfl⟩ | ⟨-, rfl⟩ | ⟨-, rfl⟩ | ⟨-, rfl⟩
        <;> simp_all

/-! ## Arguments -/

/-- What can be wrong with an argument. -/
inductive ArgumentFault (value : String) : Problem → Prop
  | extra : ArgumentFault value .extraArgument
  | signal : ArgumentFault value .invalidStopSignal
  | port : ArgumentFault value (.invalidPort value)

/-- Rules complain about signals and ports only. -/
theorem argumentFault_of_complaint {keyword value : String} {rule : ArgumentRule}
    {problem : Problem} (hrule : (ruleFor keyword).arguments = some rule)
    (h : rule.complaint value = some problem) : ArgumentFault value problem := by
  rcases argumentRule_cases hrule with rfl | rfl | rfl
  · cases h
  · simp only [stopSignalArgument] at h
    split at h
    · cases h
    · obtain rfl := Option.some.inj h
      exact .signal
  · simp only [portArguments] at h
    split at h
    · cases h
    · obtain rfl := Option.some.inj h
      exact .port

/-- The check of one argument passes on what the rule complains about. -/
theorem mem_checkArgument {rule : ArgumentRule} {a : Argument} (hf : f ∈ checkArgument rule a) :
    f.span = a.span ∧ rule.complaint a.value = some f.problem := by
  unfold checkArgument at hf
  split at hf
  · rename_i problem hproblem
    rw [List.mem_singleton.mp hf]
    exact ⟨rfl, hproblem⟩
  · simp at hf

/-- What is said of the arguments is said at one of them: that it is too many, or what
the rule complains about. -/
theorem mem_checkArguments {rule : ArgumentRule} {arguments : List Argument}
    (hf : f ∈ checkArguments rule arguments) :
    ∃ a ∈ arguments, f.span = a.span ∧
      (f.problem = .extraArgument ∨ rule.complaint a.value = some f.problem) := by
  unfold checkArguments at hf
  split at hf
  · split at hf
    · simp at hf
    · rename_i first
      have hfirst := mem_checkArgument hf
      exact ⟨first, List.mem_cons_self, hfirst.1, .inr hfirst.2⟩
    · rename_i first second others
      rcases List.mem_append.mp hf with hf | hf
      · have hfirst := mem_checkArgument hf
        exact ⟨first, List.mem_cons_self, hfirst.1, .inr hfirst.2⟩
      · refine ⟨second, by simp, ?_⟩
        rw [List.mem_singleton.mp hf]
        exact ⟨rfl, .inl rfl⟩
  · obtain ⟨a, ha, hf⟩ := List.mem_flatMap.mp hf
    have hargument := mem_checkArgument hf
    exact ⟨a, ha, hargument.1, .inr hargument.2⟩

/-! ## Instructions -/

/-- What can be wrong with an instruction, and where. -/
inductive InstructionFault (ctx : CheckContext) (i : Instruction) : Finding → Prop
  | unknown (hkeyword : i.keyword ∉ ctx.keywords) :
      InstructionFault ctx i ⟨.unknownInstruction i.keyword, i.nameSpan⟩
  | lowercase : InstructionFault ctx i ⟨.lowercase, i.nameSpan⟩
  | deprecated (severity : Severity) :
      InstructionFault ctx i
        ⟨.deprecatedMaintainer severity, ⟨i.nameSpan.start, i.nameSpan.start⟩⟩
  | missing : InstructionFault ctx i ⟨.missingArgument, i.nameSpan⟩
  | argument {a : Argument} {problem : Problem} (hmem : a ∈ i.arguments ctx.escape)
      (hfault : ArgumentFault a.value problem) : InstructionFault ctx i ⟨problem, a.span⟩

/-- A deprecated instruction is reported as deprecated, at its very start. -/
theorem mem_checkDeprecation (hf : f ∈ checkDeprecation ctx i) :
    ∃ severity,
      f = ⟨.deprecatedMaintainer severity, ⟨i.nameSpan.start, i.nameSpan.start⟩⟩ := by
  unfold checkDeprecation MaintainerPolicy.problem? at hf
  split at hf
  · cases hseverity : ctx.settings.deprecatedMaintainer.severity? with
    | none => simp [hseverity] at hf
    | some severity =>
        simp only [hseverity, Option.map_some, List.mem_singleton] at hf
        exact ⟨severity, hf⟩
  · simp at hf

/-- The body of an instruction is reported for its arguments only. -/
theorem mem_checkBody (hf : f ∈ checkBody ctx i) :
    f = ⟨.missingArgument, i.nameSpan⟩ ∨
      ∃ a ∈ i.arguments ctx.escape, f.span = a.span ∧ ArgumentFault a.value f.problem := by
  unfold checkBody at hf
  split at hf
  · split at hf
    · rename_i rule hrule
      obtain ⟨a, ha, hspan, hproblem⟩ := mem_checkArguments hf
      refine .inr ⟨a, ha, hspan, ?_⟩
      rcases hproblem with hextra | hcomplaint
      · rw [hextra]
        exact .extra
      · exact argumentFault_of_complaint hrule hcomplaint
    · simp at hf
  · exact .inl (List.mem_singleton.mp hf)

/-- What is found in an instruction is one of the faults that it can have. -/
theorem mem_checkInstruction (hf : f ∈ checkInstruction ctx i) : InstructionFault ctx i f := by
  unfold checkInstruction at hf
  split at hf
  · rename_i hkeyword
    rw [List.mem_singleton.mp hf]
    exact .unknown hkeyword
  · split at hf
    · rw [List.mem_singleton.mp hf]
      exact .lowercase
    · rcases List.mem_append.mp hf with hf | hf
      · obtain ⟨severity, rfl⟩ := mem_checkDeprecation hf
        exact .deprecated severity
      · rcases mem_checkBody hf with rfl | ⟨a, ha, hspan, hfault⟩
        · exact .missing
        · obtain ⟨problem, span⟩ := f
          obtain rfl : span = a.span := hspan
          exact .argument ha hfault

/-! ## Instructions elsewhere -/

/-- The span between the places that `φ` takes its ends to. -/
def Span.relocate (φ : Nat → Nat) (s : Span Nat) : Span Nat :=
  ⟨φ s.start, φ s.stop⟩

/-- The same argument under a moved span. -/
def Argument.relocate (φ : Nat → Nat) (a : Argument) : Argument :=
  { a with span := a.span.relocate φ }

/-- The same finding under a moved span. -/
def Finding.relocate (φ : Nat → Nat) (f : Finding) : Finding :=
  { f with span := f.span.relocate φ }

/-- What is wrong with an argument is wrong with it elsewhere. -/
theorem checkArgument_relocate (φ : Nat → Nat) (rule : ArgumentRule) (a : Argument) :
    checkArgument rule (a.relocate φ) = (checkArgument rule a).map (Finding.relocate φ) := by
  unfold checkArgument Argument.relocate
  simp only
  split <;> rfl

/-- What is wrong with arguments is wrong with them elsewhere. -/
theorem checkArguments_relocate (φ : Nat → Nat) (rule : ArgumentRule)
    (arguments : List Argument) :
    checkArguments rule (arguments.map (Argument.relocate φ)) =
      (checkArguments rule arguments).map (Finding.relocate φ) := by
  unfold checkArguments
  cases rule.single with
  | true =>
      match arguments with
      | [] => rfl
      | [first] => exact checkArgument_relocate φ rule first
      | first :: second :: others =>
          simp only [List.map_cons, if_true, List.map_append, checkArgument_relocate]
          rfl
  | false =>
      simp only [Bool.false_eq_true, if_false, List.flatMap_map, List.map_flatMap,
        checkArgument_relocate]

/-- The checks look at no offset but to report it.  Of an instruction that is written the
same elsewhere, and whose arguments are the same elsewhere, they say the same there. -/
theorem checkInstruction_relocate (φ : Nat → Nat) (ctx : CheckContext) {finish : Nat}
    {i j : Instruction} (hwritten : j.written = i.written)
    (hname : j.nameSpan = i.nameSpan.relocate φ)
    (harguments : j.arguments ctx.escape =
      (i.arguments ctx.escape).map (Argument.relocate φ))
    (hpresent : j.hasArguments ctx.escape finish = i.hasArguments ctx.escape ctx.finish) :
    checkInstruction { ctx with finish := finish } j =
      (checkInstruction ctx i).map (Finding.relocate φ) := by
  have hkeyword : j.keyword = i.keyword := congrArg Unicode.upper hwritten
  have hdeprecation : checkDeprecation { ctx with finish := finish } j =
      (checkDeprecation ctx i).map (Finding.relocate φ) := by
    unfold checkDeprecation
    rw [hkeyword, hname]
    split
    · simp only
      split <;> rfl
    · rfl
  have hbody : checkBody { ctx with finish := finish } j =
      (checkBody ctx i).map (Finding.relocate φ) := by
    unfold checkBody
    rw [hkeyword, hname]
    simp only [hpresent, harguments, checkArguments_relocate]
    split
    · split <;> rfl
    · rfl
  unfold checkInstruction
  rw [hkeyword, hwritten, hname, hdeprecation, hbody]
  simp only
  split
  · rfl
  · split
    · rfl
    · rw [List.map_append]

/-! ## The directive and the first instruction -/

/-- What can be wrong with a directive, and where. -/
inductive DirectiveFault (d : Directive) : Finding → Prop
  | name : DirectiveFault d ⟨.unknownDirective d.rawName, d.nameSpan⟩
  | value (hvalue : d.value ≠ "") : DirectiveFault d ⟨.invalidEscape d.value, d.valueSpan⟩

/-- What is wrong with a directive is its name or its value. -/
theorem mem_checkDirective {directive : Option Directive} (hf : f ∈ checkDirective directive) :
    ∃ d, directive = some d ∧ DirectiveFault d f := by
  unfold checkDirective at hf
  split at hf
  · simp at hf
  · rename_i d
    refine ⟨d, rfl, ?_⟩
    split at hf
    · rw [List.mem_singleton.mp hf]
      exact .name
    · split at hf
      · rename_i hvalue
        rw [List.mem_singleton.mp hf]
        exact .value hvalue.2
      · simp at hf

/-- What is wrong with the first instruction is that it is not there, or that it names no
base image. -/
theorem mem_checkSourceImage {instructions : List Instruction}
    (hf : f ∈ checkSourceImage instructions) :
    (instructions = [] ∧ f = ⟨.noSourceImage, ⟨0, 0⟩⟩) ∨
      ∃ first, instructions.head? = some first ∧ f = ⟨.noSourceImage, first.nameSpan⟩ := by
  unfold checkSourceImage at hf
  split at hf
  · exact .inl ⟨rfl, List.mem_singleton.mp hf⟩
  · rename_i first others
    split at hf
    · exact .inr ⟨first, rfl, List.mem_singleton.mp hf⟩
    · simp at hf

/-! ## Codes -/

/-- A directive has a name or a value that is wrong. -/
theorem code_of_mem_checkDirective {directive : Option Directive}
    (hf : f ∈ checkDirective directive) :
    f.problem.code = .unknownDirective ∨ f.problem.code = .invalidEscapeDirective := by
  obtain ⟨d, -, hfault⟩ := mem_checkDirective hf
  cases hfault with
  | name => exact .inl rfl
  | value => exact .inr rfl

/-- A first instruction lacks its base image, and has no other fault. -/
theorem code_of_mem_checkSourceImage {instructions : List Instruction}
    (hf : f ∈ checkSourceImage instructions) : f.problem.code = .noSourceImage := by
  rcases mem_checkSourceImage hf with ⟨-, rfl⟩ | ⟨first, -, rfl⟩
  · rfl
  · rfl

/-! ## Documents -/

/-- What a validation finds in a text, by the part of it that does. -/
inductive Finding.FoundIn (settings : LintSettings) (keywords : List String)
    (text : List Char) (f : Finding) : Prop
  | directive (hf : f ∈ checkDirective (Directive.parse? text))
  | sourceImage (hf : f ∈ checkSourceImage (Dockerfile.parse text).instructions)
  | instruction (i : Instruction) (hi : i ∈ (Dockerfile.parse text).instructions)
      (hf : f ∈ checkInstruction (contextOf settings keywords text (Dockerfile.parse text)) i)
  | scan (hf : f ∈ (scanFrom (some (Dockerfile.parse text).escape) keywords
      (Dockerfile.parse text).bodyOffset
      (text.drop (Dockerfile.parse text).bodyOffset)).findings)

/-- What is found in a document is found by one of the passes. -/
theorem mem_lint_findings {settings : LintSettings} {keywords : List String} {text : List Char}
    (hf : f ∈ (lint settings keywords text).findings) : f.FoundIn settings keywords text := by
  simp only [LintReport.findings, lint, List.mem_append] at hf
  rcases hf with ((hf | hf) | hf) | hf
  · exact .directive hf
  · exact .sourceImage hf
  · obtain ⟨i, hi, hf⟩ := List.mem_flatMap.mp hf
    exact .instruction i hi hf
  · exact .scan hf

end DockerfileLint
