import DockerfileLint.Check
import DockerfileLint.Scan

/-!
# Validation

A document is validated in four parts, which are reported one after the other:
its directive, its first instruction, its instructions one by one, and the
structural scan.  Each part reports in the order of the document; the parts are
not merged.
-/

namespace DockerfileLint

/-- What each part of a validation found. -/
structure LintReport where
  directive : List Finding
  sourceImage : List Finding
  instructions : List Finding
  scan : List Finding
deriving DecidableEq, Repr

namespace LintReport

/-- All findings, part by part. -/
def findings (r : LintReport) : List Finding :=
  r.directive ++ r.sourceImage ++ r.instructions ++ r.scan

end LintReport

/-- What the checks of a parsed text know. -/
def contextOf (settings : LintSettings) (keywords : List String) (text : List Char)
    (file : Dockerfile) : CheckContext where
  keywords := keywords
  settings := settings
  escape := some file.escape
  finish := text.length

/-- The structural scan of a text from where instructions can start. -/
def scan (esc : Escape) (keywords : List String) (start : Nat) (text : List Char) : Scan :=
  scanFrom esc keywords start (text.drop start)

/-- Validates a text. -/
def lint (settings : LintSettings) (keywords : List String) (text : List Char) : LintReport :=
  let file := Dockerfile.parse text
  { directive := checkDirective file.directive
    sourceImage := checkSourceImage file.instructions
    instructions := checkInstructions (contextOf settings keywords text file) file.instructions
    scan := (scan (some file.escape) keywords file.bodyOffset text).findings }

/-- The diagnostics of a document. -/
def validate (settings : LintSettings) (keywords : List String) (d : Document) :
    List Diagnostic :=
  (lint settings keywords d.text).findings.map fun finding => finding.diagnostic d

/-- How many diagnostics are errors. -/
def errorCount (diagnostics : List Diagnostic) : Nat :=
  diagnostics.countP fun d => d.severity = .error

/-- How many diagnostics are warnings. -/
def warningCount (diagnostics : List Diagnostic) : Nat :=
  diagnostics.length - errorCount diagnostics

end DockerfileLint
