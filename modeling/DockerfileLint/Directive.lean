import DockerfileLint.Text.Continuation
import DockerfileLint.Text.Span
import DockerfileLint.Unicode.Casing
import DockerfileLint.Unicode.Word

/-!
# The parser directive

The first line of a document may be a directive: blanks, a number sign, blanks,
a name, blanks, an equals sign, and a value with blanks around it that do not
count.  A comment of that shape anywhere else is just a comment.

The one directive that means something is `escape`, but whatever its name a
directive whose value is a legal escape character selects that character.
-/

namespace DockerfileLint

/-- A `# name=value` line at the head of a document, with the places of its
parts. -/
structure Directive where
  rawName : String
  value : String
  span : Span Nat
  nameSpan : Span Nat
  valueSpan : Span Nat
deriving DecidableEq, Repr

/-- The escape character where no directive selects another. -/
def defaultEscape : Char := '\\'

/-- The escape characters a directive can select. -/
def legalEscapes : List String := ["\\", "`"]

/-- The name of the directive that selects the escape character. -/
def escapeDirectiveName : String := "escape"

/-- A letter of ASCII. -/
def isAsciiLetter (c : Char) : Bool :=
  ('A' ≤ c && c ≤ 'Z') || ('a' ≤ c && c ≤ 'z')

/-- A character that may stand in the name of a directive. -/
def isNameChar (c : Char) : Bool :=
  Unicode.isWord c || c == '-'

namespace Directive

/-- The directive that a line spells, if it spells one. -/
def ofLine? (line : List Char) : Option Directive :=
  match line.dropWhile isBlank with
  | '#' :: mark =>
    let named := mark.dropWhile isBlank
    let name := named.takeWhile isNameChar
    if name.head?.any isAsciiLetter then
      match (named.drop name.length).dropWhile isBlank with
      | '=' :: valued =>
        let led := valued.dropWhile isBlank
        let value := trimEnd isBlank led
        let nameStart := line.length - named.length
        let valueStart := line.length - led.length
        some {
          rawName := String.ofList name
          value := String.ofList value
          span := ⟨0, line.length⟩
          nameSpan := ⟨nameStart, nameStart + name.length⟩
          valueSpan := ⟨valueStart, valueStart + value.length⟩
        }
      | _ => none
    else
      none
  | _ => none

/-- The directive of a document. -/
def parse? (text : List Char) : Option Directive :=
  ofLine? (firstLine text)

/-- Names of directives do not tell upper from lower case. -/
def name (d : Directive) : String :=
  Unicode.lower d.rawName

/-- The escape character a directive selects, whatever its name. -/
def escape (d : Directive) : Char :=
  if d.value = "`" then '`' else defaultEscape

end Directive

/-- The escape character of a document with a directive or without one. -/
def escapeOf (directive : Option Directive) : Char :=
  match directive with
  | some d => d.escape
  | none => defaultEscape

/-- The offset where instructions can start: behind the directive. -/
def bodyOffset (directive : Option Directive) : Nat :=
  match directive with
  | some d => d.span.stop
  | none => 0

end DockerfileLint
