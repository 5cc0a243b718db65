import DockerfileLint.Document
import DockerfileLint.Text.Span

/-!
# Diagnostics

A check finds a *problem* at a *span* of offsets.  Nothing about a problem but
what the check itself knows is kept: its code, its wording and its severity are
functions of it.  A diagnostic is a finding with the span turned into a range of
positions and the problem into words.
-/

namespace DockerfileLint

/-- How serious a diagnostic is. -/
inductive Severity
  | error
  | warning
deriving DecidableEq, Repr

/-- The number an editor knows a severity by. -/
def Severity.number : Severity → Nat
  | .error => 1
  | .warning => 2

/-- The check that produced a diagnostic. -/
inductive Code
  | unexpectedToken
  | lowercase
  | extraArgument
  | noSourceImage
  | missingArgument
  | invalidEscapeDirective
  | invalidPort
  | invalidStopSignal
  | unknownDirective
  | unknownInstruction
  | deprecatedMaintainer
deriving DecidableEq, Repr

/-- The wording of a message: a text, or two texts with a slot for a value
between them. -/
structure Wording where
  lead : String
  tail : Option String := none
deriving DecidableEq, Repr

namespace Wording

/-- The message for a value.  The value goes into the slot as it is, and where
there is no slot it is left out. -/
def fill (w : Wording) (value : String) : String :=
  match w.tail with
  | some tail => w.lead ++ value ++ tail
  | none => w.lead

/-- The wording with a mark where the slot is. -/
def template (w : Wording) : String :=
  w.fill "\x7b0\x7d"

end Wording

namespace Code

/-- Every code, in the order of their numbers. -/
def all : List Code :=
  [unexpectedToken, lowercase, extraArgument, noSourceImage, missingArgument,
   invalidEscapeDirective, invalidPort, invalidStopSignal, unknownDirective,
   unknownInstruction, deprecatedMaintainer]

/-- The number of a code. -/
def number : Code → Nat
  | unexpectedToken => 0
  | lowercase => 1
  | extraArgument => 2
  | noSourceImage => 3
  | missingArgument => 4
  | invalidEscapeDirective => 5
  | invalidPort => 6
  | invalidStopSignal => 7
  | unknownDirective => 8
  | unknownInstruction => 9
  | deprecatedMaintainer => 10

/-- The name a report shows for a code. -/
def name : Code → String
  | unexpectedToken => "DEFAULT"
  | lowercase => "LOWERCASE"
  | extraArgument => "EXTRA_ARGUMENT"
  | noSourceImage => "NO_SOURCE_IMAGE"
  | missingArgument => "MISSING_ARGUMENT"
  | invalidEscapeDirective => "INVALID_ESCAPE_DIRECTIVE"
  | invalidPort => "INVALID_PORT"
  | invalidStopSignal => "INVALID_STOPSIGNAL"
  | unknownDirective => "UNKNOWN_DIRECTIVE"
  | unknownInstruction => "UNKNOWN_INSTRUCTION"
  | deprecatedMaintainer => "DEPRECATED_MAINTAINER"

/-- The key of a message in the catalogue. -/
def messageKey : Code → String
  | unexpectedToken => "unexpected_token"
  | lowercase => "instruction_casing"
  | extraArgument => "instruction_extra_argument"
  | noSourceImage => "no_source_image"
  | missingArgument => "instruction_missing_argument"
  | invalidEscapeDirective => "directive_escape_invalid"
  | invalidPort => "invalid_port"
  | invalidStopSignal => "invalid_stop_signal"
  | unknownDirective => "directive_unknown"
  | unknownInstruction => "instruction_unknown"
  | deprecatedMaintainer => "deprecated_maintainer"

/-- How the message of a code reads. -/
def wording : Code → Wording
  | unexpectedToken => ⟨"Unexpected token", none⟩
  | lowercase => ⟨"Instructions should be written in uppercase letters", none⟩
  | extraArgument => ⟨"Instruction has an extra argument", none⟩
  | noSourceImage => ⟨"No source image provided with `FROM`", none⟩
  | missingArgument => ⟨"Instruction has no arguments", none⟩
  | invalidEscapeDirective => ⟨"invalid ESCAPE '", some "'. Must be ` or \\"⟩
  | invalidPort => ⟨"Invalid containerPort: ", some ""⟩
  | invalidStopSignal => ⟨"Invalid stop signal", none⟩
  | unknownDirective => ⟨"Unknown directive: ", some ""⟩
  | unknownInstruction => ⟨"Unknown instruction: ", some ""⟩
  | deprecatedMaintainer => ⟨"MAINTAINER has been deprecated", none⟩

/-- The code whose message has a key. -/
def ofMessageKey? (key : String) : Option Code :=
  all.find? fun code => code.messageKey == key

end Code

/-- What a check can find. -/
inductive Problem
  /-- A token that the form of a bracketed list does not allow. -/
  | unexpectedToken
  /-- A keyword that is not written in upper case. -/
  | lowercase
  /-- A second argument where one is allowed. -/
  | extraArgument
  /-- The first instruction does not name a base image. -/
  | noSourceImage
  /-- Nothing follows the keyword. -/
  | missingArgument
  /-- A value that is no legal escape character. -/
  | invalidEscape (value : String)
  /-- An argument that is neither a port nor a range of ports. -/
  | invalidPort (port : String)
  /-- An argument that is neither the name nor the number of a signal. -/
  | invalidStopSignal
  /-- A directive other than the one that means something. -/
  | unknownDirective (name : String)
  /-- A keyword outside the list of those allowed. -/
  | unknownInstruction (keyword : String)
  /-- The instruction that names a maintainer, as serious as the settings say. -/
  | deprecatedMaintainer (severity : Severity)
deriving DecidableEq, Repr

namespace Problem

/-- The code of a problem. -/
def code : Problem → Code
  | unexpectedToken => .unexpectedToken
  | lowercase => .lowercase
  | extraArgument => .extraArgument
  | noSourceImage => .noSourceImage
  | missingArgument => .missingArgument
  | invalidEscape _ => .invalidEscapeDirective
  | invalidPort _ => .invalidPort
  | invalidStopSignal => .invalidStopSignal
  | unknownDirective _ => .unknownDirective
  | unknownInstruction _ => .unknownInstruction
  | deprecatedMaintainer _ => .deprecatedMaintainer

/-- Everything is an error but a keyword that is not in upper case, and what the
settings declare to be a warning. -/
def severity : Problem → Severity
  | lowercase => .warning
  | deprecatedMaintainer severity => severity
  | _ => .error

/-- The piece of the document that a problem quotes. -/
def quote : Problem → String
  | invalidEscape value => value
  | invalidPort port => port
  | unknownDirective name => name
  | unknownInstruction keyword => keyword
  | _ => ""

/-- A problem in words. -/
def message (p : Problem) : String :=
  p.code.wording.fill p.quote

end Problem

/-- A problem and where in the document it was found. -/
structure Finding where
  problem : Problem
  span : Span Nat
deriving DecidableEq, Repr

/-- A positioned record for an editor. -/
structure Diagnostic where
  range : Range
  message : String
  severity : Severity
  code : Code
deriving DecidableEq, Repr

/-- The name that diagnostics are reported under. -/
def Diagnostic.source : String := "dockerfile-lsp"

/-- The diagnostic of a problem between two offsets. -/
def Problem.locate (p : Problem) (d : Document) (span : Span Int) : Diagnostic where
  range := d.rangeAt span.start span.stop
  message := p.message
  severity := p.severity
  code := p.code

/-- The diagnostic of a finding. -/
def Finding.diagnostic (f : Finding) (d : Document) : Diagnostic :=
  f.problem.locate d f.span.toInt

end DockerfileLint
