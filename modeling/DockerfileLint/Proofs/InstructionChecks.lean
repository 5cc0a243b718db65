import DockerfileLint.Proofs.MaintainerSetting

/-!
# What is said of one instruction

The checks of an instruction ask one thing after another, and what they say is fixed by
the answers: a keyword that is not allowed or not in upper case ends them, a deprecated
one does not, and arguments that are missing end them again.  Only five keywords ask for
the shape of their arguments, and there are three shapes.

Values are judged here by what makes them wrong, a character that has no place in them or
a dash at an end, and not by the tests of the rules: `isPort_eq_false_iff` and
`isStopSignal_eq_false_iff`.

* `checkArguments_of_single`, `flatMap_checkArgument`: lists of arguments of any length;
* `checkBody_decision`: the arguments of an instruction;
* `checkInstruction_decision`: everything that is said of an instruction.
-/

namespace DockerfileLint

variable {ctx : CheckContext} {i : Instruction} {rule : ArgumentRule}

/-! ## Values -/

/-- A value is neither a port nor a range of ports: it has a character besides digits and
dashes, or a dash at an end. -/
def IsNoPort (value : String) : Prop :=
  (∃ c ∈ value.toList, c ≠ '-' ∧ ¬ ('0' ≤ c ∧ c ≤ '9')) ∨
    value.toList.head? = some '-' ∨ value.toList.getLast? = some '-'

instance (value : String) : Decidable (IsNoPort value) :=
  inferInstanceAs (Decidable (_ ∨ _ ∨ _))

/-- A value neither starts as the name of a signal does nor is a number. -/
def IsNoSignal (value : String) : Prop :=
  ¬ "SIG".toList <+: value.toList ∧ ∃ c ∈ value.toList, ¬ ('0' ≤ c ∧ c ≤ '9')

instance (value : String) : Decidable (IsNoSignal value) :=
  inferInstanceAs (Decidable (_ ∧ _))

/-- What is no digit lies outside their range. -/
theorem isDigit_eq_false_iff {c : Char} : isDigit c = false ↔ ¬ ('0' ≤ c ∧ c ≤ '9') := by
  simp [isDigit]

/-- What is no port is so for one of three reasons. -/
theorem isPort_eq_false_iff {value : String} : isPort value = false ↔ IsNoPort value := by
  unfold isPort IsNoPort
  simp only [Bool.and_eq_false_iff, List.all_eq_false, bne_eq_false_iff_eq, or_assoc,
    ← isDigit_eq_false_iff]
  simp

/-- What is no signal is neither a name nor a number. -/
theorem isStopSignal_eq_false_iff {value : String} :
    isStopSignal value = false ↔ IsNoSignal value := by
  unfold isStopSignal IsNoSignal
  simp only [Bool.or_eq_false_iff, List.all_eq_false, ← isDigit_eq_false_iff,
    ← List.isPrefixOf_iff_prefix, Bool.not_eq_true]

/-! ## Lists of arguments -/

/-- The finding that an argument is one too many. -/
def Argument.extra (a : Argument) : Finding :=
  ⟨.extraArgument, a.span⟩

/-- A rule for a single argument looks at the first one and at whether there is a
second. -/
theorem checkArguments_of_single (h : rule.single = true) (arguments : List Argument) :
    checkArguments rule arguments =
      (arguments.take 1).flatMap (checkArgument rule) ++
        ((arguments.drop 1).take 1).map Argument.extra := by
  unfold checkArguments
  rw [if_pos h]
  match arguments with
  | [] => rfl
  | [first] => simp
  | first :: second :: _ => simp [Argument.extra]

/-- A rule that refuses some of the values complains about each of them, in order. -/
theorem flatMap_checkArgument {refused : String → Prop} [DecidablePred refused]
    {problem : String → Problem}
    (h : ∀ value, rule.complaint value = if refused value then some (problem value) else none)
    (arguments : List Argument) :
    arguments.flatMap (checkArgument rule) =
      (arguments.filter (refused ·.value)).map fun a => ⟨problem a.value, a.span⟩ := by
  induction arguments with
  | nil => rfl
  | cons a arguments ih =>
      rw [List.flatMap_cons, ih]
      unfold checkArgument
      rw [h]
      by_cases hrefused : refused a.value
      · simp [hrefused]
      · simp [hrefused]

/-- The rule of a signal complains of what is no signal. -/
theorem stopSignalArgument_complaint (value : String) :
    stopSignalArgument.complaint value =
      if IsNoSignal value then some .invalidStopSignal else none := by
  unfold stopSignalArgument
  simp only [← isStopSignal_eq_false_iff]
  cases isStopSignal value <;> rfl

/-- The rule of ports complains of what is no port. -/
theorem portArguments_complaint (value : String) :
    portArguments.complaint value =
      if IsNoPort value then some (.invalidPort value) else none := by
  unfold portArguments
  simp only [← isPort_eq_false_iff]
  cases isPort value <;> rfl

/-! ## Rules -/

/-- The keywords that ask for a shape of their arguments. -/
def shapedKeywords : List String :=
  ["EXPOSE", "STOPSIGNAL", "FROM", "WORKDIR", "USER"]

/-- No other keyword has a rule for its arguments. -/
theorem ruleFor_arguments_eq_none {keyword : String} (h : keyword ∉ shapedKeywords) :
    (ruleFor keyword).arguments = none := by
  have htable : ∀ entry ∈ rules, entry.1 ∉ shapedKeywords → entry.2.arguments = none := by
    simp [rules, shapedKeywords]
  unfold ruleFor
  cases hlookup : rules.lookup keyword with
  | none => rfl
  | some found => exact htable _ (mem_rules_of_lookup hlookup) h

/-! ## The arguments of an instruction -/

/-- What is said of the arguments of an instruction.  Where there are none, only that; and
otherwise what the keyword asks for. -/
structure BodyDecision (ctx : CheckContext) (i : Instruction) (findings : List Finding) :
    Prop where
  missing : i.hasArguments ctx.escape ctx.finish = false →
    findings = [⟨.missingArgument, i.nameSpan⟩]
  ports : i.hasArguments ctx.escape ctx.finish = true → i.keyword = "EXPOSE" →
    findings = ((i.arguments ctx.escape).filter (IsNoPort ·.value)).map fun a =>
      ⟨.invalidPort a.value, a.span⟩
  signal : i.hasArguments ctx.escape ctx.finish = true → i.keyword = "STOPSIGNAL" →
    findings =
      (((i.arguments ctx.escape).take 1).filter (IsNoSignal ·.value)).map
          (fun a => ⟨.invalidStopSignal, a.span⟩) ++
        (((i.arguments ctx.escape).drop 1).take 1).map Argument.extra
  single : i.hasArguments ctx.escape ctx.finish = true →
    i.keyword ∈ ["FROM", "WORKDIR", "USER"] →
    findings = (((i.arguments ctx.escape).drop 1).take 1).map Argument.extra
  other : i.hasArguments ctx.escape ctx.finish = true → i.keyword ∉ shapedKeywords →
    findings = []

/-- What is said of an instruction that has arguments is what its rule says of them. -/
theorem checkBody_of_present (hpresent : i.hasArguments ctx.escape ctx.finish = true)
    (hrule : (ruleFor i.keyword).arguments = some rule) :
    checkBody ctx i = checkArguments rule (i.arguments ctx.escape) := by
  unfold checkBody
  rw [if_pos hpresent, hrule]

/-- The arguments of an instruction are judged by its keyword. -/
theorem checkBody_decision (ctx : CheckContext) (i : Instruction) :
    BodyDecision ctx i (checkBody ctx i) where
  missing habsent := by
    unfold checkBody
    rw [habsent]
    rfl
  ports hpresent hkeyword := by
    have hrule : (ruleFor i.keyword).arguments = some portArguments := by
      rw [hkeyword]
      rfl
    rw [checkBody_of_present hpresent hrule]
    exact flatMap_checkArgument portArguments_complaint _
  signal hpresent hkeyword := by
    have hrule : (ruleFor i.keyword).arguments = some stopSignalArgument := by
      rw [hkeyword]
      rfl
    rw [checkBody_of_present hpresent hrule, checkArguments_of_single rfl,
      flatMap_checkArgument stopSignalArgument_complaint]
  single hpresent hkeyword := by
    have hrule : (ruleFor i.keyword).arguments = some singleArgument := by
      simp only [List.mem_cons, List.not_mem_nil, or_false] at hkeyword
      rcases hkeyword with h | h | h <;> rw [h] <;> rfl
    rw [checkBody_of_present hpresent hrule, checkArguments_of_single rfl]
    simp [checkArgument, singleArgument]
  other hpresent hkeyword := by
    unfold checkBody
    rw [if_pos hpresent, ruleFor_arguments_eq_none hkeyword]

/-! ## One argument too many -/

/-- A finding says that there is an argument too many. -/
def Finding.isExtra (f : Finding) : Bool :=
  f.problem = .extraArgument

/-- Findings about something else do not say so. -/
theorem countP_isExtra_map (problem : String → Problem)
    (h : ∀ value, problem value ≠ .extraArgument) (arguments : List Argument) :
    (arguments.map fun a => Finding.mk (problem a.value) a.span).countP Finding.isExtra = 0 := by
  rw [List.countP_eq_zero]
  intro f hf
  obtain ⟨a, -, rfl⟩ := List.mem_map.mp hf
  simpa [Finding.isExtra] using h a.value

/-- Of all further arguments one at most is reported. -/
theorem countP_isExtra_second (arguments : List Argument) :
    (((arguments.drop 1).take 1).map Argument.extra).countP Finding.isExtra ≤ 1 :=
  calc (((arguments.drop 1).take 1).map Argument.extra).countP Finding.isExtra
    _ ≤ (((arguments.drop 1).take 1).map Argument.extra).length := List.countP_le_length
    _ = ((arguments.drop 1).take 1).length := List.length_map _
    _ ≤ 1 := List.length_take_le 1 _

/-- However many arguments there are, it is said of one of them at most. -/
theorem BodyDecision.countP_isExtra_le {findings : List Finding}
    (h : BodyDecision ctx i findings) : findings.countP Finding.isExtra ≤ 1 := by
  have hsecond := countP_isExtra_second (i.arguments ctx.escape)
  cases hpresent : i.hasArguments ctx.escape ctx.finish with
  | false =>
      rw [h.missing hpresent]
      exact Nat.zero_le 1
  | true =>
      by_cases hports : i.keyword = "EXPOSE"
      · have hnone := countP_isExtra_map .invalidPort fun _ heq => nomatch heq
        rw [h.ports hpresent hports, hnone]
        exact Nat.zero_le 1
      · by_cases hsignal : i.keyword = "STOPSIGNAL"
        · have hnone := countP_isExtra_map (fun _ => .invalidStopSignal) fun _ heq => nomatch heq
          rw [h.signal hpresent hsignal, List.countP_append, hnone, Nat.zero_add]
          exact hsecond
        · by_cases hsingle : i.keyword ∈ ["FROM", "WORKDIR", "USER"]
          · rw [h.single hpresent hsingle]
            exact hsecond
          · have hother : i.keyword ∉ shapedKeywords := by
              simp only [shapedKeywords, List.mem_cons, not_or] at hsingle ⊢
              exact ⟨hports, hsignal, hsingle⟩
            rw [h.other hpresent hother]
            exact Nat.zero_le 1

/-- A deprecated instruction is not for that reason extra. -/
theorem countP_isExtra_checkDeprecation (ctx : CheckContext) (i : Instruction) :
    (checkDeprecation ctx i).countP Finding.isExtra = 0 := by
  rw [List.countP_eq_zero]
  intro f hf
  obtain ⟨severity, rfl⟩ := mem_checkDeprecation hf
  simp [Finding.isExtra]

/-! ## Instructions -/

/-- What is said of a deprecated instruction, if the settings do not ignore it. -/
structure DeprecationDecision (ctx : CheckContext) (i : Instruction) (findings : List Finding) :
    Prop where
  reported : i.keyword = "MAINTAINER" → ctx.settings.deprecatedMaintainer ≠ .ignore →
    ∃ severity, ctx.settings.deprecatedMaintainer.severity? = some severity ∧
      findings = [i.deprecation severity]
  silent : i.keyword ≠ "MAINTAINER" ∨ ctx.settings.deprecatedMaintainer = .ignore →
    findings = []

/-- **Deprecation** is decided as the policy says. -/
theorem checkDeprecation_decision (ctx : CheckContext) (i : Instruction) :
    DeprecationDecision ctx i (checkDeprecation ctx i) where
  reported hkeyword hpolicy := by
    rw [checkDeprecation_eq, if_pos hkeyword]
    cases h : ctx.settings.deprecatedMaintainer with
    | ignore => exact absurd h hpolicy
    | warning => exact ⟨.warning, rfl, rfl⟩
    | error => exact ⟨.error, rfl, rfl⟩
  silent h := by
    rw [checkDeprecation_eq]
    split
    · rename_i hkeyword
      rcases h with hother | hignore
      · exact absurd hkeyword hother
      · rw [hignore]
        rfl
    · rfl

/-- What is said of an instruction. -/
structure InstructionDecision (ctx : CheckContext) (i : Instruction) (findings : List Finding) :
    Prop where
  unknown : i.keyword ∉ ctx.keywords →
    findings = [⟨.unknownInstruction i.keyword, i.nameSpan⟩]
  lowercase : i.keyword ∈ ctx.keywords → i.keyword ≠ i.written →
    findings = [⟨.lowercase, i.nameSpan⟩]
  checked : i.keyword ∈ ctx.keywords → i.keyword = i.written →
    ∃ deprecations body, findings = deprecations ++ body ∧
      DeprecationDecision ctx i deprecations ∧ BodyDecision ctx i body
  extra_once : findings.countP Finding.isExtra ≤ 1

/-- **What is said of an instruction** under any whitelist and settings: that its keyword
is unknown, or not in upper case, or else that it is deprecated and what is wrong with its
arguments. -/
theorem checkInstruction_decision (ctx : CheckContext) (i : Instruction) :
    InstructionDecision ctx i (checkInstruction ctx i) where
  unknown hunknown := by
    unfold checkInstruction
    rw [if_pos hunknown]
  lowercase hallowed hlower := by
    unfold checkInstruction
    rw [if_neg (not_not_intro hallowed), if_pos hlower]
  checked hallowed hupper := by
    refine ⟨checkDeprecation ctx i, checkBody ctx i, ?_, checkDeprecation_decision ctx i,
      checkBody_decision ctx i⟩
    unfold checkInstruction
    rw [if_neg (not_not_intro hallowed), if_neg (not_not_intro hupper)]
  extra_once := by
    unfold checkInstruction
    split
    · exact Nat.zero_le 1
    · split
      · exact Nat.zero_le 1
      · rw [List.countP_append, countP_isExtra_checkDeprecation, Nat.zero_add]
        exact (checkBody_decision ctx i).countP_isExtra_le

/-- Arguments are counted and judged in order; a document cut off behind a continuation
has none to judge. -/
example :
    let text := "FROM a b c\nSTOPSIGNAL KILL 9 8\nEXPOSE 80 -1 8-9 8a\nSTOPSIGNAL \\\n".toList
    (lint {} standardKeywords text).instructions.map (·.problem) =
      [.extraArgument, .invalidStopSignal, .extraArgument, .invalidPort "-1",
        .invalidPort "8a"] := by
  decide +kernel

end DockerfileLint
