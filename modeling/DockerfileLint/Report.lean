import DockerfileLint.Lint
import DockerfileLint.Settings

/-!
# Reports in plain text

A report counts the errors and warnings of a document in its first line and then
gives two lines for every diagnostic: where it is, counted from one, what it is,
and the line of the document it starts on.
-/

namespace DockerfileLint

/-- Why no report is made. -/
inductive ReportError
  /-- The document has too many characters. -/
  | tooLarge (message : String)
  /-- The policy asked for does not exist. -/
  | unknownPolicy (name : String)
deriving DecidableEq, Repr

/-- A report error in words. -/
def ReportError.message : ReportError → String
  | .tooLarge message => message
  | .unknownPolicy name =>
    "Invalid deprecated_maintainer '" ++ name ++ "'. Use one of: " ++
      ", ".intercalate (MaintainerPolicy.all.map MaintainerPolicy.name)

/-- How a report calls a severity. -/
def Severity.word : Severity → String
  | .error => "error"
  | .warning => "warning"

/-- The line of a diagnostic, with its position counted from one. -/
def Diagnostic.summary (d : Diagnostic) : String :=
  "  " ++ toString (d.range.start.line + 1) ++ ":" ++ toString (d.range.start.character + 1) ++
    " " ++ d.severity.word ++ " [" ++ d.code.name ++ "] " ++ d.message

/-- The line of the document that a diagnostic starts on, if the document has it. -/
def Diagnostic.quotation (d : Diagnostic) (doc : Document) : String :=
  let line := d.range.start.line
  "      | " ++ String.ofList (if line < doc.lineCount then doc.lineContent line.toNat else [])

/-- The first line of a report. -/
def reportHeader (diagnostics : List Diagnostic) : String :=
  "Found " ++ toString (errorCount diagnostics) ++ " error(s) and " ++
    toString (warningCount diagnostics) ++ " warning(s):"

/-- The lines of a report. -/
def reportLines (doc : Document) (diagnostics : List Diagnostic) : List String :=
  reportHeader diagnostics :: diagnostics.flatMap fun d => [d.summary, d.quotation doc]

/-- The report of the diagnostics of a document. -/
def reportText (doc : Document) (diagnostics : List Diagnostic) : String :=
  if diagnostics.isEmpty then
    "No problems found."
  else
    "\n".intercalate (reportLines doc diagnostics)

/-- The settings of a validation for which a policy is asked, or none. -/
def reportSettings (settings : Settings) (policy : Option String) :
    Except ReportError LintSettings :=
  match policy with
  | none => .ok settings.lintSettings
  | some name =>
    match MaintainerPolicy.ofName? name with
    | some policy => .ok { deprecatedMaintainer := policy }
    | none => .error (.unknownPolicy name)

/-- The report of a document.  Its size is looked at before the policy. -/
def report (settings : Settings) (content : List Char) (policy : Option String) :
    Except ReportError String :=
  if settings.exceeds content then
    .error (.tooLarge (settings.tooLargeMessage content))
  else
    (reportSettings settings policy).map fun lintSettings =>
      let doc := Document.ofText content
      reportText doc (validate lintSettings standardKeywords doc)

/-- The keywords of the standard instructions, one a line. -/
def keywordReport : String :=
  "\n".intercalate standardKeywords

end DockerfileLint
