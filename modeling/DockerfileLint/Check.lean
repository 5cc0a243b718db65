import DockerfileLint.Instruction.Argument
import DockerfileLint.Policy
import DockerfileLint.Rule

/-!
# Checks of the parsed document

These checks look at the directive and at the instructions one by one, in the
order of the document.  For an instruction they decide in this order: is its
keyword allowed, is it written in upper case, is it deprecated, has it
arguments, and have its arguments the shape that its rule asks for.
-/

namespace DockerfileLint

/-- What the checks of one document know besides the instruction they look at. -/
structure CheckContext where
  /-- The keywords allowed. -/
  keywords : List String
  settings : LintSettings
  escape : Escape
  /-- The number of characters of the document. -/
  finish : Nat
deriving DecidableEq, Repr

/-- A directive must be the one that selects the escape character, and its value
a legal escape character or nothing. -/
def checkDirective (directive : Option Directive) : List Finding :=
  match directive with
  | none => []
  | some d =>
    if d.name ≠ escapeDirectiveName then
      [⟨.unknownDirective d.rawName, d.nameSpan⟩]
    else if d.value ∉ legalEscapes ∧ d.value ≠ "" then
      [⟨.invalidEscape d.value, d.valueSpan⟩]
    else
      []

/-- The first instruction must name a base image. -/
def checkSourceImage (instructions : List Instruction) : List Finding :=
  match instructions with
  | [] => [⟨.noSourceImage, ⟨0, 0⟩⟩]
  | first :: _ => if first.keyword ≠ "FROM" then [⟨.noSourceImage, first.nameSpan⟩] else []

/-- The complaint about one argument, at the argument. -/
def checkArgument (rule : ArgumentRule) (argument : Argument) : List Finding :=
  match rule.complaint argument.value with
  | some problem => [⟨problem, argument.span⟩]
  | none => []

/-- The arguments must have the shape that the rule asks for.  However many
arguments are too many, only the second one is reported. -/
def checkArguments (rule : ArgumentRule) (arguments : List Argument) : List Finding :=
  if rule.single then
    match arguments with
    | [] => []
    | [first] => checkArgument rule first
    | first :: second :: _ => checkArgument rule first ++ [⟨.extraArgument, second.span⟩]
  else
    arguments.flatMap (checkArgument rule)

/-- What the settings say of a deprecated instruction, at its very start. -/
def checkDeprecation (ctx : CheckContext) (i : Instruction) : List Finding :=
  if (ruleFor i.keyword).deprecated then
    match ctx.settings.deprecatedMaintainer.problem? with
    | some problem => [⟨problem, ⟨i.nameSpan.start, i.nameSpan.start⟩⟩]
    | none => []
  else
    []

/-- The arguments must be there, and have the right shape. -/
def checkBody (ctx : CheckContext) (i : Instruction) : List Finding :=
  if i.hasArguments ctx.escape ctx.finish then
    match (ruleFor i.keyword).arguments with
    | some rule => checkArguments rule (i.arguments ctx.escape)
    | none => []
  else
    [⟨.missingArgument, i.nameSpan⟩]

/-- All that is wrong with one instruction. -/
def checkInstruction (ctx : CheckContext) (i : Instruction) : List Finding :=
  if i.keyword ∉ ctx.keywords then
    [⟨.unknownInstruction i.keyword, i.nameSpan⟩]
  else if i.keyword ≠ i.written then
    [⟨.lowercase, i.nameSpan⟩]
  else
    checkDeprecation ctx i ++ checkBody ctx i

/-- All that is wrong with the instructions one by one. -/
def checkInstructions (ctx : CheckContext) (instructions : List Instruction) : List Finding :=
  instructions.flatMap (checkInstruction ctx)

end DockerfileLint
