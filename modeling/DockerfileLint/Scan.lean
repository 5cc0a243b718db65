import DockerfileLint.Diagnostic
import DockerfileLint.Rule
import DockerfileLint.StringArray
import DockerfileLint.Unicode.Casing

/-!
# The structural scan

The scan walks the raw text once more, without the parsed instructions.  It
finds the instructions by itself: white space and comments come between them, a
word starts one, and what follows the word is checked as the rule of its keyword
says.  Here a comment ends with its physical line, and a list of strings can stop
in the middle of a line, where the scan then reads on.

The scan ends with the text, or at the first word that is no keyword.
-/

namespace DockerfileLint

/-- What the scan found behind a word. -/
inductive VisitOutcome
  /-- The word is no keyword; the scan ends there. -/
  | unknown
  /-- The line was skipped. -/
  | skipped
  /-- The body was checked as a list of strings. -/
  | array (fault : Option Nat)
  /-- The body was searched for anything besides white space. -/
  | content (found : Bool)
deriving DecidableEq, Repr

/-- A word that the scan read, and what it did about it. -/
structure Visit where
  /-- Where the reading of the word began, before any continuation. -/
  start : Nat
  word : String
  /-- Where the scan stood behind the word. -/
  bodyStart : Nat
  outcome : VisitOutcome
  /-- Where the scan stood in the end. -/
  stop : Nat
deriving DecidableEq, Repr

/-- What a visit reports: the place where a list of strings breaks. -/
def Visit.findings (v : Visit) : List Finding :=
  match v.outcome with
  | .array (some off) => [⟨.unexpectedToken, ⟨off, off + 1⟩⟩]
  | _ => []

/-- The words a scan read, in order, and the offset where it ended. -/
structure Scan where
  visits : List Visit
  stop : Nat
deriving DecidableEq, Repr

namespace Scan

/-- A visit before those of a scan. -/
def cons (v : Visit) (s : Scan) : Scan :=
  { s with visits := v :: s.visits }

/-- What a scan reports, in the order of the document. -/
def findings (s : Scan) : List Finding :=
  s.visits.flatMap Visit.findings

end Scan

/-- What the scan does with the body of a keyword, if the word is one: the
keywords with a rule are known whatever the list of those allowed says. -/
def bodyForm? (keywords : List String) (keyword : String) : Option BodyForm :=
  match rules.lookup keyword with
  | some rule => some rule.body
  | none => if keyword ∈ keywords then some .requireContent else none

/-- How the check of a body came out, and where it stopped. -/
structure BodyScan where
  outcome : VisitOutcome
  stop : Nat
  rest : List Char
deriving DecidableEq, Repr

/-- Checks the body of an instruction. -/
def scanBody (esc : Escape) (form : BodyForm) (off : Nat) (cs : List Char) : BodyScan :=
  match form with
  | .skipLine =>
    let line := readLine esc off cs
    ⟨.skipped, line.stop, line.rest⟩
  | .stringArray =>
    let verdict := checkArrayBody esc true off cs
    ⟨.array verdict.fault, verdict.stop, verdict.rest⟩
  | .requireContent =>
    let line := readLine esc off cs
    ⟨.content (line.taken.any fun (c, _) => !isBlank c), line.stop, line.rest⟩

/-- Checks the body behind a word, if the word is a keyword; otherwise nothing is
read. -/
def scanBehind (esc : Escape) (form : Option BodyForm) (off : Nat) (cs : List Char) : BodyScan :=
  match form with
  | some form => scanBody esc form off cs
  | none => ⟨.unknown, off, cs⟩

/-- The check of a body leaves no more than it found. -/
theorem scanBehind_rest_length_le (esc : Escape) (form : Option BodyForm) (off : Nat)
    (cs : List Char) : (scanBehind esc form off cs).rest.length ≤ cs.length := by
  cases form with
  | none => exact Nat.le_refl _
  | some form =>
    cases form with
    | skipLine => exact readWhile_rest_length_le ..
    | stringArray => exact checkArrayBody_rest_length_le ..
    | requireContent => exact readWhile_rest_length_le ..

/-- Scans a text that starts at offset `off`. -/
def scanFrom (esc : Escape) (keywords : List String) : Nat → List Char → Scan
  | off, [] => ⟨[], off⟩
  | off, c :: cs =>
    if _hspace : isSpace c then
      scanFrom esc keywords (off + 1) cs
    else if _hmark : c = '#' then
      scanFrom esc keywords (off + (firstLine (c :: cs)).length) (afterFirstLine (c :: cs))
    else
      let word := readWord esc off (c :: cs)
      if word.taken = [] then
        scanFrom esc keywords word.stop word.rest
      else
        let form := bodyForm? keywords (Unicode.upper word.text)
        let body := scanBehind esc form word.stop word.rest
        let visit := ⟨off, word.text, word.stop, body.outcome, body.stop⟩
        if form.isNone then
          ⟨[visit], body.stop⟩
        else
          (scanFrom esc keywords body.stop body.rest).cons visit
termination_by _ cs => cs.length
decreasing_by
  · simp
  · exact afterFirstLine_length_lt (by subst _hmark; rfl)
  · exact readWhile_rest_length_lt off (by simpa using _hspace)
  · exact Nat.lt_of_le_of_lt (scanBehind_rest_length_le ..)
      (readWhile_rest_length_lt off (by simpa using _hspace))

end DockerfileLint
