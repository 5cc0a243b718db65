import DockerfileLint.Proofs.BodyLimit
import DockerfileLint.Proofs.ReportLines
import Mathlib.Data.List.Forall2

/-!
# The service and the report agree

A document can be validated in two places: a request gives it to the service, which answers
with its diagnostics, and a report shows them in plain text.  Both have the same settings and
the same limit on documents, and both can be asked for a policy of their own.  They then take
the same settings, refuse the same documents, and count and show the same diagnostics in the
same order.

How a request becomes a payload and an outcome an answer is up to the framework.  What it is
documented to do with well-formed requests and with outcomes is `Framework.Documented`, and
nothing else is assumed of it.  The answer is compared as the caller gets it: its entries are
read back from the JSON of its body.

* `Framework.Documented`: what the framework is documented to do;
* `Json.entries?`: the entries of an answer, read back;
* `validateDocument_asked`, `report_asked`: the two sides for the same request;
* `service_agrees_with_report`: both side by side.
-/

namespace DockerfileLint

variable {settings : Settings} {content : String} {asked : Option String}

/-! ## What is asked for -/

/-- The words for the policies. -/
def policyWords : List (String × MaintainerPolicy) :=
  [("ignore", .ignore), ("warning", .warning), ("error", .error)]

/-- A word for a policy, or none, asks for the settings of a validation, or for none. -/
inductive Asks : Option String → Option LintSettings → Prop
  | nothing : Asks none none
  | policy {word : String} {policy : MaintainerPolicy} (h : (word, policy) ∈ policyWords) :
      Asks (some word) (some { deprecatedMaintainer := policy })

/-- Each of the words asks for settings. -/
theorem exists_asks (h : ∀ word ∈ asked, word ∈ ["ignore", "warning", "error"]) :
    ∃ lintSettings, Asks asked lintSettings := by
  cases asked with
  | none => exact ⟨none, .nothing⟩
  | some word =>
      have hword : word ∈ policyWords.map Prod.fst := h word rfl
      obtain ⟨⟨word, policy⟩, hmem, rfl⟩ := List.mem_map.mp hword
      exact ⟨some ⟨policy⟩, .policy hmem⟩

/-- A report takes the policy it is asked for, or that of the server. -/
theorem reportSettings_asked {lintSettings : Option LintSettings} (h : Asks asked lintSettings)
    (settings : Settings) :
    reportSettings settings asked = .ok (lintSettings.getD settings.lintSettings) := by
  cases h with
  | nothing => rfl
  | @policy word policy h =>
      have hname : ∀ entry ∈ policyWords, MaintainerPolicy.ofName? entry.1 = some entry.2 := by
        decide
      simp only [reportSettings, hname _ h, Option.getD_some]

namespace Json

/-- An object has no member of a name, or its value is null. -/
def Lacks (j : Json) (name : String) : Prop :=
  j.member? name = none ∨ j.member? name = some .null

end Json

namespace Service

/-- An object gives a payload.  What else it says does not matter, nor does the order. -/
structure Payload.GivenBy (p : Payload) (j : Json) : Prop where
  content : j.member? "content" = some (.string p.content)
  keywords : match p.keywords with
    | none => j.Lacks "keywords"
    | some words => j.member? "keywords" = some (.array (words.map .string))
  settings : match p.settings with
    | none => j.Lacks "settings"
    | some lintSettings => ∃ (given : Json) (word : String), j.member? "settings" = some given ∧
        given.member? "deprecatedMaintainer" = some (.string word) ∧
        (word, lintSettings.deprecatedMaintainer) ∈ policyWords

/-- A request gives a document, and asks for a policy or gives no settings.  In which order it
does so, and what else it says, does not matter. -/
structure AsksFor (j : Json) (content : String) (asked : Option String) : Prop where
  content : j.member? "content" = some (.string content)
  keywords : j.Lacks "keywords"
  settings : match asked with
    | none => j.Lacks "settings"
    | some word => ∃ given, j.member? "settings" = some given ∧
        given.member? "deprecatedMaintainer" = some (.string word)

/-- What a request asks for is the payload that it gives. -/
theorem AsksFor.givenBy {j : Json} {lintSettings : Option LintSettings}
    (h : AsksFor j content asked) (hasks : Asks asked lintSettings) :
    Payload.GivenBy ⟨content, none, lintSettings⟩ j := by
  refine ⟨h.content, h.keywords, ?_⟩
  cases hasks with
  | nothing => exact h.settings
  | policy hpolicy =>
      obtain ⟨given, hgiven, hword⟩ := h.settings
      exact ⟨given, _, hgiven, hword, hpolicy⟩

/-! ## Diagnostics in JSON -/

/-- An object holds a position. -/
structure WritesPosition (j : Json) (p : Position) : Prop where
  line : j.member? "line" = some (.int p.line)
  character : j.member? "character" = some (.int p.character)

/-- An object holds a range. -/
structure WritesRange (j : Json) (range : Range) : Prop where
  start : ∃ inner, j.member? "start" = some inner ∧ WritesPosition inner range.start
  stop : ∃ inner, j.member? "end" = some inner ∧ WritesPosition inner range.stop

/-- An object holds a diagnostic. -/
structure WritesDiagnostic (j : Json) (d : Diagnostic) : Prop where
  range : ∃ inner, j.member? "range" = some inner ∧ WritesRange inner d.range
  message : j.member? "message" = some (.string d.message)
  severity : j.member? "severity" = some (.int d.severity.number)
  code : j.member? "code" = some (.int d.code.number)
  source : j.member? "source" = some (.string Diagnostic.source)

/-- An object holds the result of a validation. -/
structure WritesResult (j : Json) (result : ValidationResult) : Prop where
  diagnostics : ∃ items, j.member? "diagnostics" = some (.array items) ∧
    List.Forall₂ WritesDiagnostic items result.diagnostics
  errors : j.member? "errors" = some (.int result.errors)
  warnings : j.member? "warnings" = some (.int result.warnings)

/-- What the framework is documented to do, given how it reads JSON. -/
structure Framework.Documented (fw : Framework) (json? : ByteArray → Option Json) : Prop where
  /-- The path and the method of an endpoint lead to it. -/
  route : ∀ (r : Request) (endpoint : Endpoint),
    r.method = endpoint.method → r.path = endpoint.path → fw.route r = .ok endpoint
  /-- A body that is declared to be JSON and holds an object that gives a payload is taken
  for that payload. -/
  payload : ∀ (r : Request) (body : ByteArray) (j : Json) (p : Payload),
    r.header "content-type" = some "application/json" → json? body = some j → p.GivenBy j →
      fw.payload r (some body) = .ok p
  /-- An endpoint that gives up is answered with its status and its explanation. -/
  failed : ∀ (status : Nat) (detail : String),
    (fw.reply (.failed status detail)).status = status ∧
      ∃ j, (fw.reply (.failed status detail)).body = some j ∧
        j.member? "detail" = some (.string detail)
  /-- The result of a validation is answered as it is. -/
  validated : ∀ result : ValidationResult,
    (fw.reply (.validated result)).status = 200 ∧
      ∃ j, (fw.reply (.validated result)).body = some j ∧ WritesResult j result

/-! ## Reading an answer -/

/-- A diagnostic as an answer lists it. -/
structure Entry where
  range : Range
  severity : Int
  code : Int
  message : String
deriving DecidableEq, Repr

end Service

namespace Json

/-- The integer that a value is. -/
def int? : Json → Option Int
  | int n => some n
  | _ => none

/-- The string that a value is. -/
def string? : Json → Option String
  | string s => some s
  | _ => none

/-- The position that an object holds. -/
def position? (j : Json) : Option Position := do
  let line ← j.member? "line" >>= int?
  let character ← j.member? "character" >>= int?
  return ⟨line, character⟩

/-- The entry that an object holds. -/
def entry? (j : Json) : Option Service.Entry := do
  let range ← j.member? "range"
  let start ← range.member? "start" >>= position?
  let stop ← range.member? "end" >>= position?
  let severity ← j.member? "severity" >>= int?
  let code ← j.member? "code" >>= int?
  let message ← j.member? "message" >>= string?
  return ⟨⟨start, stop⟩, severity, code, message⟩

/-- The entries of an answer. -/
def entries? (j : Json) : Option (List Service.Entry) :=
  match j.member? "diagnostics" with
  | some (array items) => items.mapM entry?
  | _ => none

end Json

namespace Service

/-- A diagnostic as it is listed. -/
def entryOf (d : Diagnostic) : Entry :=
  ⟨d.range, d.severity.number, d.code.number, d.message⟩

/-- A position is read as it was written. -/
theorem WritesPosition.position? {j : Json} {p : Position} (h : WritesPosition j p) :
    j.position? = some p := by
  simp [Json.position?, h.line, h.character, Json.int?]

/-- An entry is read as it was written. -/
theorem WritesDiagnostic.entry? {j : Json} {d : Diagnostic} (h : WritesDiagnostic j d) :
    j.entry? = some (entryOf d) := by
  obtain ⟨range, hrange, ⟨start, hstart, hstartAt⟩, stop, hstop, hstopAt⟩ := h.range
  simp [Json.entry?, hrange, hstart, hstop, hstartAt.position?, hstopAt.position?, h.severity,
    h.code, h.message, Json.int?, Json.string?, entryOf]

/-- Entries are read as they were written, one by one. -/
theorem mapM_entry? {items : List Json} {ds : List Diagnostic}
    (h : List.Forall₂ WritesDiagnostic items ds) :
    items.mapM Json.entry? = some (ds.map entryOf) := by
  induction h with
  | nil => rfl
  | cons hd _ ih => simp [hd.entry?, ih]

/-- The entries of an answer are the diagnostics of the validation. -/
theorem WritesResult.entries? {j : Json} {result : ValidationResult} (h : WritesResult j result) :
    j.entries? = some (result.diagnostics.map entryOf) := by
  obtain ⟨items, hitems, hdiagnostics⟩ := h.diagnostics
  simp only [Json.entries?, hitems]
  exact mapM_entry? hdiagnostics

/-! ## Both sides -/

/-- The service validates the document with the settings that are asked for, or with those of
the server, unless it is too long. -/
theorem validateDocument_asked (settings : Settings) (content : String)
    (lintSettings : Option LintSettings) :
    validateDocument settings ⟨content, none, lintSettings⟩ =
      if settings.exceeds content.toList then
        .failed 413 (settings.tooLargeMessage content.toList)
      else
        let ds := validate (lintSettings.getD settings.lintSettings) standardKeywords
          (Document.ofText content.toList)
        .validated ⟨ds, errorCount ds, warningCount ds⟩ :=
  rfl

/-- The report is on the same document with the same settings, or refused for its length. -/
theorem report_asked {lintSettings : Option LintSettings} (h : Asks asked lintSettings)
    (settings : Settings) (content : List Char) :
    report settings content asked =
      if settings.exceeds content then .error (.tooLarge (settings.tooLargeMessage content))
      else .ok (reportText (Document.ofText content)
        (validate (lintSettings.getD settings.lintSettings) standardKeywords
          (Document.ofText content))) := by
  unfold report
  rw [reportSettings_asked h]
  rfl

/-- A request for a validation, whose body is not too long, is answered for its payload. -/
theorem Framework.Documented.answer {fw : Framework} {json? : ByteArray → Option Json}
    (hfw : fw.Documented json?) (settings : Settings) {r : Request} (hmethod : r.method = "POST")
    (hpath : r.path = "/validate") (htype : r.header "content-type" = some "application/json")
    (hsize : ¬r.Oversized (bodyLimit r.path)) {j : Json} (hjson : json? (joined r.chunks) = some j)
    {p : Payload} (hp : p.GivenBy j) :
    fw.answer settings r = { fw.reply (validateDocument settings p) with timed := true } := by
  have hbody : r.method ∈ bodyMethods := by
    rw [hmethod]
    decide
  have hroute : fw.route r = .ok .validate := hfw.route r .validate hmethod hpath
  have hpayload : fw.payload r (some (joined r.chunks)) = .ok p :=
    hfw.payload r _ j p htype hjson hp
  unfold Framework.answer
  rw [(limitBody_cases hbody _).2 hsize]
  simp only [Framework.respond, hroute, hpayload]

/-- A report has nothing to say only where there are no diagnostics. -/
theorem reportText_eq_clean_iff {settings : LintSettings} {keywords : List String}
    {text : List Char} :
    reportText (Document.ofText text) (validate settings keywords (Document.ofText text)) =
        "No problems found." ↔
      validate settings keywords (Document.ofText text) = [] := by
  constructor
  · intro h
    apply Classical.byContradiction
    intro hne
    have hsplit := congrArg List.length (splitOn_reportText hne).1
    rw [h, List.length_map, reportLines_length] at hsplit
    have hone : ("No problems found.".toList.splitOn '\n').length = 1 := by
      decide
    have hpos := List.length_pos_iff.mpr hne
    omega
  · intro h
    rw [h]
    rfl

/-- The errors and the warnings of a validation are the entries with their numbers. -/
theorem countP_entryOf (ds : List Diagnostic) :
    (ds.map entryOf).countP (fun e => e.severity = 1) = errorCount ds ∧
      (ds.map entryOf).countP (fun e => e.severity = 2) = warningCount ds := by
  rw [warningCount_eq]
  unfold errorCount
  rw [List.countP_map, List.countP_map]
  constructor
  all_goals
    apply List.countP_congr
    intro d _
    cases h : d.severity <;> simp [entryOf, h, Severity.number]

/-- Every diagnostic is an error or a warning. -/
theorem errorCount_add_warningCount (ds : List Diagnostic) :
    errorCount ds + warningCount ds = ds.length := by
  have hle : errorCount ds ≤ ds.length := List.countP_le_length
  unfold warningCount
  omega

/-- The lines of an entry in a report on a text: its place counted from one, its kind, the name
of its code and its message, and the line of the text that it starts on. -/
def Entry.lines (e : Entry) (text : List Char) : List (List Char) :=
  [("  " ++ toString (e.range.start.line + 1) ++ ":" ++
      toString (e.range.start.character + 1) ++ " " ++
      (if e.severity = 1 then "error" else "warning") ++
      " [" ++ codeNames.getD e.code.toNat "" ++ "] " ++ e.message).toList,
    "      | ".toList ++ (sourceLines text).getD e.range.start.line.toNat []]

/-- The report has these lines for the entries of the answer. -/
theorem reportLines_entryOf {lintSettings : LintSettings} {keywords : List String}
    (text : List Char) :
    let ds := validate lintSettings keywords (Document.ofText text)
    (reportLines (Document.ofText text) ds).map String.toList =
      (reportHeader ds).toList :: (ds.map entryOf).flatMap (·.lines text) := by
  intro ds
  rw [reportLines_toList _ fun d hd => (onOneLine_of_mem_validate hd).2.line_lt, List.flatMap_map]
  refine congrArg _ (List.flatMap_congr fun d hd => ?_)
  have hline := (onOneLine_of_mem_validate hd).2.sourceLine.1
  have hkind : (if d.severity = .error then "error" else "warning") =
      if (d.severity.number : Int) = 1 then "error" else "warning" := by
    cases d.severity <;> rfl
  have hquoted : (sourceLines text).getD d.range.start.line.toNat [] =
      (Document.ofText text).lineContent d.range.start.line.toNat := by
    rw [List.getD_eq_getElem?_getD, hline, Option.getD_some]
  rw [Diagnostic.summary_eq, hkind, ← hquoted]
  rfl

/-- What the report of a validation says is what its entries say. -/
theorem reportText_entryOf (lintSettings : LintSettings) (text : List Char) :
    let ds := validate lintSettings standardKeywords (Document.ofText text)
    let entries := ds.map entryOf
    let errors := entries.countP fun e => e.severity = 1
    let warnings := entries.countP fun e => e.severity = 2
    let reported := reportText (Document.ofText text) ds
    errors + warnings = entries.length ∧
      (reported = "No problems found." ↔ entries = []) ∧
      (entries ≠ [] →
        reported.toList.splitOn '\n' =
          ("Found " ++ toString errors ++ " error(s) and " ++ toString warnings ++
              " warning(s):").toList ::
            entries.flatMap (·.lines text)) := by
  intro ds entries errors warnings reported
  have herrors : errors = errorCount ds := (countP_entryOf ds).1
  have hwarnings : warnings = warningCount ds := (countP_entryOf ds).2
  have hnil : entries = [] ↔ ds = [] := List.map_eq_nil_iff
  rw [herrors, hwarnings]
  refine ⟨?_, reportText_eq_clean_iff.trans hnil.symm, fun hne => ?_⟩
  · rw [List.length_map]
    exact errorCount_add_warningCount ds
  · rw [(splitOn_reportText (mt hnil.mpr hne)).1, reportLines_entryOf]
    rfl

/-- An answer to a validation counts its entries. -/
theorem WritesResult.counts {j : Json} {ds : List Diagnostic}
    (h : WritesResult j ⟨ds, errorCount ds, warningCount ds⟩) :
    let entries := ds.map entryOf
    j.member? "errors" = some (.int (entries.countP fun e => e.severity = 1)) ∧
      j.member? "warnings" = some (.int (entries.countP fun e => e.severity = 2)) := by
  intro entries
  rw [(countP_entryOf ds).1, (countP_entryOf ds).2]
  exact ⟨h.errors, h.warnings⟩

/-- **The service and the report agree.**  A request gives the service a document, with a word
for a policy for deprecated instructions or without settings, in a body that neither is nor is
declared too long.  It is answered that the document is too large if and only if the report of
that document with that word, or without one, is refused for it.  Otherwise the report finds no
problems if and only if the service answers without diagnostics, and if there are any, its
header counts the errors and warnings of the answer, which are all of its diagnostics, and its
entries are the diagnostics of the answer in the same order, with lines and columns counted
from one. -/
theorem service_agrees_with_report {fw : Framework} {json? : ByteArray → Option Json}
    (hfw : fw.Documented json?) (settings : Settings) {r : Request} {content : String}
    {asked : Option String} (hasked : ∀ word ∈ asked, word ∈ ["ignore", "warning", "error"])
    (hmethod : r.method = "POST") (hpath : r.path = "/validate")
    (htype : r.header "content-type" = some "application/json")
    (htotal : totalSize r.chunks ≤ 5 * 1024 * 1024)
    (hdeclared : ∀ (value : String) (n : Int), r.header "content-length" = some value →
      WritesInteger value.toList n → n ≤ 5 * 1024 * 1024)
    {j : Json} (hjson : json? (joined r.chunks) = some j) (hasks : AsksFor j content asked) :
    let reported := report settings content.toList asked
    let response := fw.answer settings r
    (response.status = 413 ↔ ∃ message, reported = .error (.tooLarge message)) ∧
      (∀ message, reported = .error (.tooLarge message) →
        ∃ body, response.body = some body ∧ body.member? "detail" = some (.string message)) ∧
      (response.status ≠ 413 →
        ∃ (body : Json) (entries : List Entry) (text : String),
          response.status = 200 ∧ response.body = some body ∧ body.entries? = some entries ∧
          let errors := entries.countP fun e => e.severity = 1
          let warnings := entries.countP fun e => e.severity = 2
          body.member? "errors" = some (.int errors) ∧
          body.member? "warnings" = some (.int warnings) ∧
          errors + warnings = entries.length ∧
          reported = .ok text ∧
          (text = "No problems found." ↔ entries = []) ∧
          (entries ≠ [] →
            text.toList.splitOn '\n' =
              ("Found " ++ toString errors ++ " error(s) and " ++ toString warnings ++
                  " warning(s):").toList ::
                entries.flatMap (·.lines content.toList))) := by
  intro reported response
  obtain ⟨lintSettings, hlint⟩ := exists_asks hasked
  have hplace : LeadsToValidation r.path := by
    rw [hpath]
    exact ⟨[], 0, by decide⟩
  have hfits : ¬r.Oversized (bodyLimit r.path) := by
    rw [(bodyLimit_cases r.path).1 hplace]
    exact Request.not_oversized htotal hdeclared
  have hresponse : response =
      { fw.reply (validateDocument settings ⟨content, none, lintSettings⟩) with timed := true } :=
    hfw.answer settings hmethod hpath htype hfits hjson (hasks.givenBy hlint)
  have hreported : reported = _ := report_asked hlint settings content.toList
  rw [validateDocument_asked] at hresponse
  cases hexceeds : settings.exceeds content.toList with
  | true =>
      simp only [hexceeds, if_true] at hresponse hreported
      obtain ⟨hstatus, body, hbody, hdetail⟩ :=
        hfw.failed 413 (settings.tooLargeMessage content.toList)
      have hrefused : response.status = 413 := by
        rw [hresponse]
        exact hstatus
      refine ⟨⟨fun _ => ⟨_, hreported⟩, fun _ => hrefused⟩, ?_, fun h => absurd hrefused h⟩
      intro message hmessage
      cases hreported.symm.trans hmessage
      exact ⟨body, by rw [hresponse]; exact hbody, hdetail⟩
  | false =>
      simp only [hexceeds, Bool.false_eq_true, if_false] at hresponse hreported
      obtain ⟨hstatus, body, hbody, hresult⟩ := hfw.validated
        ⟨validate (lintSettings.getD settings.lintSettings) standardKeywords
          (Document.ofText content.toList), errorCount _, warningCount _⟩
      have hok : response.status = 200 := by
        rw [hresponse]
        exact hstatus
      have hnever : ∀ message, reported ≠ .error (.tooLarge message) := by
        rw [hreported]
        intro message h
        cases h
      refine ⟨⟨fun h => ?_, fun ⟨message, h⟩ => absurd h (hnever message)⟩,
        fun message h => absurd h (hnever message), fun _ => ?_⟩
      · rw [hok] at h
        cases h
      · obtain ⟨herrors, hwarnings⟩ := hresult.counts
        obtain ⟨hsum, hclean, hlines⟩ := reportText_entryOf
          (lintSettings.getD settings.lintSettings) content.toList
        exact ⟨body, _, _, hok, by rw [hresponse]; exact hbody, hresult.entries?, herrors,
          hwarnings, hsum, hreported, hclean, hlines⟩

/-! ## A framework that does as documented -/

end Service

namespace Json

/-- The strings that an array holds. -/
def strings? : Json → Option (List String)
  | array items => items.mapM string?
  | _ => none

/-- An array of strings is read as it is listed. -/
theorem strings?_map (words : List String) :
    strings? (.array (words.map .string)) = some words := by
  show (words.map Json.string).mapM string? = some words
  induction words with
  | nil => rfl
  | cons word words ih => simp [ih, string?]

/-- A member that may be lacking, as `read` reads it. -/
def optional? {α : Type} (j : Json) (name : String) (read : Json → Option α) :
    Option (Option α) :=
  match j.member? name with
  | none => some none
  | some null => some none
  | some value => (read value).map some

/-- A member that is left out is read as one that is not given. -/
theorem Lacks.optional? {α : Type} {j : Json} {name : String} (h : j.Lacks name)
    (read : Json → Option α) : j.optional? name read = some none := by
  unfold Json.optional?
  rcases h with h | h <;> rw [h]

/-- A member that is given is read, unless it is null. -/
theorem optional?_of_read {α : Type} {j value : Json} {name : String}
    {read : Json → Option α} {a : α} (h : j.member? name = some value) (hread : read value = some a)
    (hnull : value ≠ null) : j.optional? name read = some (some a) := by
  unfold Json.optional?
  rw [h]
  cases value <;> simp_all

end Json

namespace Service

/-- The settings that an object gives. -/
def givenSettings? (j : Json) : Option LintSettings := do
  let word ← j.member? "deprecatedMaintainer" >>= Json.string?
  let policy ← policyWords.lookup word
  return { deprecatedMaintainer := policy }

/-- The payload that an object gives. -/
def Payload.ofJson? (j : Json) : Option Payload := do
  let content ← j.member? "content" >>= Json.string?
  let keywords ← j.optional? "keywords" Json.strings?
  let settings ← j.optional? "settings" givenSettings?
  return ⟨content, keywords, settings⟩

/-- A payload is read as it was given. -/
theorem Payload.GivenBy.ofJson? {p : Payload} {j : Json} (h : p.GivenBy j) :
    Payload.ofJson? j = some p := by
  obtain ⟨content, keywords, settings⟩ := p
  obtain ⟨hcontent, hkeywords, hsettings⟩ := h
  have hkeywords : j.optional? "keywords" Json.strings? = some keywords := by
    cases keywords with
    | none => exact hkeywords.optional? _
    | some words =>
        exact Json.optional?_of_read hkeywords (Json.strings?_map words) Json.noConfusion
  have hsettings : j.optional? "settings" givenSettings? = some settings := by
    cases settings with
    | none => exact hsettings.optional? _
    | some lintSettings =>
        obtain ⟨given, word, hgiven, hword, hpolicy⟩ := hsettings
        have hlookup : ∀ entry ∈ policyWords, policyWords.lookup entry.1 = some entry.2 := by
          decide
        have hread : givenSettings? given = some lintSettings := by
          simp [givenSettings?, hword, Json.string?, hlookup _ hpolicy]
        refine Json.optional?_of_read hgiven hread ?_
        rintro rfl
        cases hword
  simp [Payload.ofJson?, hcontent, Json.string?, hkeywords, hsettings]

/-- A position in JSON. -/
def positionJson (p : Position) : Json :=
  .object [("line", .int p.line), ("character", .int p.character)]

/-- A diagnostic in JSON. -/
def diagnosticJson (d : Diagnostic) : Json :=
  .object
    [("range", .object [("start", positionJson d.range.start), ("end", positionJson d.range.stop)]),
      ("message", .string d.message), ("severity", .int d.severity.number),
      ("code", .int d.code.number), ("source", .string Diagnostic.source)]

/-- The result of a validation in JSON. -/
def resultJson (result : ValidationResult) : Json :=
  .object
    [("diagnostics", .array (result.diagnostics.map diagnosticJson)),
      ("errors", .int result.errors), ("warnings", .int result.warnings)]

/-- The object of a diagnostic writes it. -/
theorem writesDiagnostic_diagnosticJson (d : Diagnostic) :
    WritesDiagnostic (diagnosticJson d) d where
  range := ⟨_, rfl, ⟨_, rfl, rfl, rfl⟩, _, rfl, rfl, rfl⟩
  message := rfl
  severity := rfl
  code := rfl
  source := rfl

/-- The object of a result writes it. -/
theorem writesResult_resultJson (result : ValidationResult) :
    WritesResult (resultJson result) result where
  diagnostics := by
    refine ⟨_, rfl, ?_⟩
    rw [List.forall₂_map_left_iff, List.forall₂_same]
    exact fun d _ => writesDiagnostic_diagnosticJson d
  errors := rfl
  warnings := rfl

/-- The framework that does what is documented, and refuses everything else. -/
def plainFramework (json? : ByteArray → Option Json) : Framework where
  route r :=
    match Endpoint.all.find? fun endpoint =>
        endpoint.method = r.method ∧ endpoint.path = r.path with
    | some endpoint => .ok endpoint
    | none => .error (.explain 404 "Not Found")
  payload r body :=
    match r.header "content-type", body >>= json? >>= Payload.ofJson? with
    | some "application/json", some p => .ok p
    | _, _ => .error (.explain 422 "Unprocessable Content")
  reply
    | .validated result => { status := 200, body := some (resultJson result) }
    | .keywords names =>
      { status := 200, body := some (.object [("keywords", .array (names.map .string))]) }
    | .health status version =>
      { status := 200
        body := some (.object [("status", .string status), ("version", .string version)]) }
    | .failed status detail => .explain status detail

/-- The plain framework does what is documented. -/
theorem plainFramework_documented (json? : ByteArray → Option Json) :
    (plainFramework json?).Documented json? where
  route r endpoint hmethod hpath := by
    cases endpoint <;>
      simp [plainFramework, Endpoint.all, hmethod, hpath, Endpoint.method, Endpoint.path]
  payload r body j p htype hjson hp := by
    simp [plainFramework, htype, hjson, hp.ofJson?]
  failed status detail := ⟨rfl, _, rfl, rfl⟩
  validated result := ⟨rfl, _, rfl, writesResult_resultJson result⟩

/-- A document and a policy that makes its maintainer an error. -/
def maintainerBody : Json :=
  .object [("settings", .object [("deprecatedMaintainer", .string "error")]),
    ("content", .string "from x\nMAINTAINER é\n")]

/-- A request with `maintainerBody` in two chunks. -/
def maintainerRequest : Request where
  method := "POST"
  path := "/validate"
  header name :=
    [("content-type", "application/json"), ("content-length", " 0_85")].lookup name
  chunks :=
    ["\x7b\"settings\":\x7b\"deprecatedMaintainer\":\"error\"\x7d,\"content\":\"from x".toUTF8,
      "\\nMAINTAINER \\u00e9\\n\"\x7d".toUTF8]

/-- A reader that knows the one text. -/
def maintainerJson? (body : ByteArray) : Option Json :=
  if body.data.toList = (joined maintainerRequest.chunks).data.toList then
    some maintainerBody
  else
    none

/-- `maintainerRequest` is answered with a warning and an error, which are the entries of the
report.  Servers that take shorter documents only refuse it both ways. -/
theorem service_agrees_with_report_maintainer :
    let fw := plainFramework maintainerJson?
    let content := "from x\nMAINTAINER é\n"
    fw.Documented maintainerJson? ∧
      AsksFor maintainerBody content (some "error") ∧
      (∃ (body : Json) (text : String),
        (fw.answer {} maintainerRequest).status = 200 ∧
          (fw.answer {} maintainerRequest).body = some body ∧
          body.entries? = some
            [⟨⟨⟨0, 0⟩, ⟨0, 4⟩⟩, 2, 1, "Instructions should be written in uppercase letters"⟩,
              ⟨⟨⟨1, 0⟩, ⟨1, 0⟩⟩, 1, 10, "MAINTAINER has been deprecated"⟩] ∧
          body.member? "errors" = some (.int 1) ∧ body.member? "warnings" = some (.int 1) ∧
          report {} content.toList (some "error") = .ok text ∧
          text.toList.splitOn '\n' =
            ["Found 1 error(s) and 1 warning(s):",
              "  1:1 warning [LOWERCASE] Instructions should be written in uppercase letters",
              "      | from x",
              "  2:1 error [DEPRECATED_MAINTAINER] MAINTAINER has been deprecated",
              "      | MAINTAINER é"].map String.toList) ∧
      (fw.answer { maxDocumentChars := 19 } maintainerRequest).status = 413 ∧
      ∃ body, (fw.answer { maxDocumentChars := 19 } maintainerRequest).body = some body ∧
        body.member? "detail" = some (.string "Document too large (20 chars > 19 limit)") := by
  intro fw content
  have hfw : fw.Documented maintainerJson? := plainFramework_documented maintainerJson?
  have hasks : AsksFor maintainerBody content (some "error") :=
    ⟨rfl, .inl rfl, _, rfl, rfl⟩
  have hasked : ∀ word ∈ some "error", word ∈ ["ignore", "warning", "error"] := by
    simp
  have hdeclared : ∀ (value : String) (n : Int),
      maintainerRequest.header "content-length" = some value →
        WritesInteger value.toList n → n ≤ 5 * 1024 * 1024 := by
    intro value n hvalue hwrites
    obtain rfl : " 0_85" = value := Option.some.inj hvalue
    have hread : integerValue? " 0_85".toList = some 85 := by
      decide +kernel
    obtain rfl : 85 = n :=
      Option.some.inj (hread.symm.trans (integerValue?_eq_some_iff.mpr hwrites))
    decide
  have hjson : maintainerJson? (joined maintainerRequest.chunks) = some maintainerBody :=
    if_pos rfl
  have htotal : totalSize maintainerRequest.chunks ≤ 5 * 1024 * 1024 := by
    decide +kernel
  have hagree := fun settings : Settings =>
    service_agrees_with_report hfw settings hasked rfl rfl rfl htotal hdeclared hjson hasks
  refine ⟨hfw, hasks, ?_, ?_⟩
  · obtain ⟨hstatus, -, hlisted⟩ := hagree {}
    have hreport : (report {} content.toList (some "error")).toOption.isSome = true := by
      decide +kernel
    have hentries : (fw.answer {} maintainerRequest).body.bind Json.entries? = some
        [⟨⟨⟨0, 0⟩, ⟨0, 4⟩⟩, 2, 1, "Instructions should be written in uppercase letters"⟩,
          ⟨⟨⟨1, 0⟩, ⟨1, 0⟩⟩, 1, 10, "MAINTAINER has been deprecated"⟩] := by
      decide +kernel
    have hnot : (fw.answer {} maintainerRequest).status ≠ 413 := by
      intro h
      obtain ⟨message, hmessage⟩ := hstatus.mp h
      rw [hmessage] at hreport
      cases hreport
    obtain ⟨body, entries, text, hok, hbody, hread, herrors, hwarnings, -, htext, -, hlines⟩ :=
      hlisted hnot
    rw [hbody, Option.bind_some, hread] at hentries
    cases hentries
    refine ⟨body, text, hok, hbody, hread, herrors, hwarnings, htext, ?_⟩
    rw [hlines (List.cons_ne_nil _ _)]
    decide +kernel
  · obtain ⟨hstatus, hdetail, -⟩ := hagree { maxDocumentChars := 19 }
    have hreport : report { maxDocumentChars := 19 } content.toList (some "error") =
        .error (.tooLarge "Document too large (20 chars > 19 limit)") := by
      decide +kernel
    exact ⟨hstatus.mpr ⟨_, hreport⟩, hdetail _ hreport⟩

end Service

end DockerfileLint
