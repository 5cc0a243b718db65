import DockerfileLint.Launch
import DockerfileLint.Lint
import DockerfileLint.Service.Body

/-!
# Answering requests

The service has three endpoints: one validates a document, one lists the keywords
of the standard instructions, one says that the service is up.  Each has a path
and takes one method.  The limit on the body is looked at first, whatever the
request is for.

Which endpoint a request is for, what payload its body holds, and how the outcome
of an endpoint becomes an answer is left to the framework that the service is
built on.  The service is a function of it.
-/

namespace DockerfileLint.Service

/-- What a caller asks to be validated: a document, and if the caller wants so the
keywords allowed and the settings of the validation. -/
structure Payload where
  content : String
  keywords : Option (List String) := none
  settings : Option LintSettings := none
deriving DecidableEq, Repr

/-- What a validation answers: the diagnostics in the order of the report, and how
many of them are errors and warnings. -/
structure ValidationResult where
  diagnostics : List Diagnostic
  errors : Nat
  warnings : Nat
deriving DecidableEq, Repr

/-- What an endpoint comes to. -/
inductive Outcome
  | validated (result : ValidationResult)
  | keywords (names : List String)
  | health (status version : String)
  /-- The endpoint gives up, with a status and an explanation. -/
  | failed (status : Nat) (detail : String)
deriving DecidableEq, Repr

/-- The diagnostics of a payload, unless its document is too large. -/
def validateDocument (settings : Settings) (p : Payload) : Outcome :=
  let content := p.content.toList
  if settings.exceeds content then
    .failed 413 (settings.tooLargeMessage content)
  else
    let diagnostics :=
      validate (p.settings.getD settings.lintSettings) (p.keywords.getD standardKeywords)
        (Document.ofText content)
    .validated ⟨diagnostics, errorCount diagnostics, warningCount diagnostics⟩

/-- An endpoint of the service. -/
inductive Endpoint
  | validate
  | keywords
  | health
deriving DecidableEq, Repr

namespace Endpoint

/-- The endpoints of the service. -/
def all : List Endpoint :=
  [validate, keywords, health]

/-- The path of an endpoint. -/
def path : Endpoint → String
  | validate => "/validate"
  | keywords => "/keywords"
  | health => "/health"

/-- The one method that an endpoint takes. -/
def method : Endpoint → String
  | validate => "POST"
  | keywords => "GET"
  | health => "GET"

end Endpoint

/-- What the service leaves to the framework it is built on. -/
structure Framework where
  /-- The endpoint that a request is for, or the answer to a request for none. -/
  route : Request → Except Response Endpoint
  /-- The payload of a request for a validation with the body that was received, or
  the answer that refuses it. -/
  payload : Request → Option ByteArray → Except Response Payload
  /-- The answer that carries an outcome. -/
  reply : Outcome → Response

namespace Framework

/-- Answers a request whose body is not too long. -/
def respond (fw : Framework) (settings : Settings) (r : Request) (body : Option ByteArray) :
    Response :=
  match fw.route r with
  | .error response => response
  | .ok .validate =>
    match fw.payload r body with
    | .error response => response
    | .ok p => fw.reply (validateDocument settings p)
  | .ok .keywords => fw.reply (.keywords standardKeywords)
  | .ok .health => fw.reply (.health "ok" version)

/-- Answers a request, and says how long it took. -/
def answer (fw : Framework) (settings : Settings) (r : Request) : Response :=
  { limitBody r (fw.respond settings r) with timed := true }

end Framework

end DockerfileLint.Service
