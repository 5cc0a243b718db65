import DockerfileLint.Directive
import DockerfileLint.Text.Reading

/-!
# Instructions

Behind the directive a document is a row of white space, comments and
instructions.  A comment starts with a number sign and runs to the end of its
logical line, so a continuation at its end carries it on.  Everything else
starts an instruction: a word, and the rest of its logical line.

A continuation that no character of the same line follows is no instruction;
reading resumes behind it.
-/

namespace DockerfileLint

/-- One logical instruction, over one physical line or several. -/
structure Instruction where
  /-- The keyword as it is written, continuations taken out. -/
  written : String
  /-- The text under the span. -/
  content : List Char
  span : Span Nat
  /-- The place of the keyword: from the start of the instruction to just past
  the last character of the keyword. -/
  nameSpan : Span Nat
deriving DecidableEq, Repr

namespace Instruction

/-- The keyword in upper case. -/
def keyword (i : Instruction) : String :=
  Unicode.upper i.written

/-- The place of the arguments: everything behind the keyword. -/
def argumentsSpan (i : Instruction) : Span Nat :=
  ⟨i.nameSpan.stop, i.span.stop⟩

/-- The text of the arguments. -/
def argumentsText (i : Instruction) : List Char :=
  i.content.drop (i.nameSpan.stop - i.span.start)

end Instruction

/-- The instructions of a text that starts at offset `off`. -/
def instructionsFrom (esc : Escape) : Nat → List Char → List Instruction
  | _, [] => []
  | off, c :: cs =>
    if _hspace : isSpace c then
      instructionsFrom esc (off + 1) cs
    else if _hmark : c = '#' then
      let comment := readLine esc off (c :: cs)
      instructionsFrom esc comment.stop comment.rest
    else
      let word := readWord esc off (c :: cs)
      if word.taken = [] then
        instructionsFrom esc word.stop word.rest
      else
        let line := readLine esc word.stop word.rest
        { written := word.text
          content := (c :: cs).take (line.stop - off)
          span := ⟨off, line.stop⟩
          nameSpan := ⟨off, word.reach off⟩ } ::
          instructionsFrom esc line.stop line.rest
termination_by _ cs => cs.length
decreasing_by
  · simp
  · exact readWhile_rest_length_lt off (by subst _hmark; rfl)
  · exact readWhile_rest_length_lt off (by simpa using _hspace)
  · exact Nat.lt_of_le_of_lt (readWhile_rest_length_le ..)
      (readWhile_rest_length_lt off (by simpa using _hspace))

/-- A parsed document: its directive and its instructions in order. -/
structure Dockerfile where
  directive : Option Directive
  instructions : List Instruction
deriving DecidableEq, Repr

namespace Dockerfile

/-- The escape character in force. -/
def escape (d : Dockerfile) : Char :=
  escapeOf d.directive

/-- The offset where instructions can start. -/
def bodyOffset (d : Dockerfile) : Nat :=
  DockerfileLint.bodyOffset d.directive

/-- Parses a text. -/
def parse (text : List Char) : Dockerfile :=
  let directive := Directive.parse? text
  let start := DockerfileLint.bodyOffset directive
  { directive
    instructions := instructionsFrom (some (escapeOf directive)) start (text.drop start) }

end Dockerfile

end DockerfileLint
