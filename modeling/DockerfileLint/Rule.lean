import DockerfileLint.Diagnostic
import DockerfileLint.Text.Integer

/-!
# Rules by keyword

A rule says what the structural scan does with the body of an instruction, what
shape its arguments have, and whether the instruction is deprecated.  Keywords
without a rule of their own share the default one, whose body must hold
something.
-/

namespace DockerfileLint

/-- What the structural scan does with the rest of an instruction's line. -/
inductive BodyForm
  /-- Skips it. -/
  | skipLine
  /-- Checks a bracketed list of strings. -/
  | stringArray
  /-- Expects something besides white space. -/
  | requireContent
deriving DecidableEq, Repr

/-- The shape of the arguments.  With `single` only the first argument is looked
at and a second one is too many; otherwise every argument is looked at. -/
structure ArgumentRule where
  single : Bool
  /-- What is wrong with an argument, if anything is. -/
  complaint : String → Option Problem

/-- What is known of the instructions with one keyword. -/
structure Rule where
  body : BodyForm := .requireContent
  arguments : Option ArgumentRule := none
  deprecated : Bool := false

/-- A signal is named by a word that starts with `SIG`, or numbered. -/
def isStopSignal (value : String) : Bool :=
  "SIG".toList.isPrefixOf value.toList || value.toList.all isDigit

/-- A port, or a range of ports: digits and dashes, with no dash at either end. -/
def isPort (value : String) : Bool :=
  value.toList.all (fun c => c == '-' || isDigit c) &&
    value.toList.head? != some '-' && value.toList.getLast? != some '-'

/-- One argument, whatever it is. -/
def singleArgument : ArgumentRule where
  single := true
  complaint _ := none

/-- One argument that names or numbers a signal. -/
def stopSignalArgument : ArgumentRule where
  single := true
  complaint value := if isStopSignal value then none else some .invalidStopSignal

/-- Any number of arguments, each of them a port or a range of ports. -/
def portArguments : ArgumentRule where
  single := false
  complaint value := if isPort value then none else some (.invalidPort value)

/-- The keywords with a rule of their own, in alphabetical order. -/
def rules : List (String × Rule) :=
  [("EXPOSE", { body := .skipLine, arguments := some portArguments }),
   ("FROM", { body := .skipLine, arguments := some singleArgument }),
   ("MAINTAINER", { body := .skipLine, deprecated := true }),
   ("STOPSIGNAL", { body := .skipLine, arguments := some stopSignalArgument }),
   ("USER", { body := .skipLine, arguments := some singleArgument }),
   ("VOLUME", { body := .stringArray }),
   ("WORKDIR", { body := .skipLine, arguments := some singleArgument })]

/-- The rule of an upper-case keyword. -/
def ruleFor (keyword : String) : Rule :=
  (rules.lookup keyword).getD {}

/-- The keywords of the standard instructions. -/
def standardKeywords : List String :=
  ["ADD", "ARG", "CMD", "COPY", "ENTRYPOINT", "ENV", "EXPOSE", "FROM", "HEALTHCHECK",
   "LABEL", "MAINTAINER", "ONBUILD", "RUN", "SHELL", "STOPSIGNAL", "USER", "VOLUME",
   "WORKDIR"]

end DockerfileLint
