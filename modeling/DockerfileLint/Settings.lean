import DockerfileLint.Policy
import DockerfileLint.Text.Integer
import DockerfileLint.Text.Numeral
import DockerfileLint.Unicode.Casing

/-!
# Settings

The settings of the servers come from environment variables, whose names do not
tell upper from lower case.  They are refused with everything that is wrong with
them.  They hold the settings of every validation that is given none of its own.
-/

namespace DockerfileLint

/-- The settings of the servers. -/
structure Settings where
  logLevel : String := "INFO"
  deprecatedMaintainer : MaintainerPolicy := .warning
  maxDocumentChars : Int := 1000000
  apiServerHost : String := "localhost"
  apiServerPort : Int := 8000
  /-- A port that takes precedence over that of the server. -/
  port : Option Int := none
  mcpTransport : String := "stdio"
  mcpServerHost : String := "localhost"
  mcpServerPort : Int := 9000
deriving DecidableEq, Repr

/-- Why a variable is refused. -/
inductive SettingFault
  | notAnInteger
  | tooManyDigits
  | notAPolicy
deriving DecidableEq, Repr

/-- A variable that is refused. -/
structure SettingError where
  name : String
  fault : SettingFault
deriving DecidableEq, Repr

/-- A refused variable in words. -/
def SettingError.message (e : SettingError) : String :=
  match e.fault with
  | .notAnInteger => e.name ++ " is not an integer"
  | .tooManyDigits => e.name ++ " has too many digits"
  | .notAPolicy =>
    e.name ++ " is none of " ++ ", ".intercalate (MaintainerPolicy.all.map MaintainerPolicy.name)

/-- Variables and their values, in the order in which they were set. -/
abbrev Environment := List (String × String)

namespace Environment

/-- The value of a variable, the one set last if several differ in case only. -/
def value? (env : Environment) (name : String) : Option String :=
  (env.reverse.find? fun (key, _) => Unicode.lower key == name).map Prod.snd

/-- A variable that holds any text. -/
def text (env : Environment) (name : String) (default : String) : String :=
  (env.value? name).getD default

/-- A variable that holds an integer, if it is set. -/
def integerIfSet (env : Environment) (name : String) : Except SettingError (Option Int) :=
  match env.value? name with
  | none => .ok none
  | some value =>
    match Numeral.read value.toList with
    | .ok n => .ok (some n)
    | .error .malformed => .error ⟨name, .notAnInteger⟩
    | .error .tooLong => .error ⟨name, .tooManyDigits⟩

/-- A variable that holds an integer. -/
def integer (env : Environment) (name : String) (default : Int) : Except SettingError Int :=
  (env.integerIfSet name).map (·.getD default)

/-- A variable that holds a policy. -/
def policy (env : Environment) (name : String) (default : MaintainerPolicy) :
    Except SettingError MaintainerPolicy :=
  match env.value? name with
  | none => .ok default
  | some value =>
    match MaintainerPolicy.ofName? value with
    | some policy => .ok policy
    | none => .error ⟨name, .notAPolicy⟩

end Environment

/-- The error of a result that is none. -/
def errorOf {ε α : Type} : Except ε α → List ε
  | .error e => [e]
  | .ok _ => []

namespace Settings

/-- The variables that are looked at. -/
def variableNames : List String :=
  ["log_level", "deprecated_maintainer", "max_document_chars", "api_server_host",
   "api_server_port", "port", "mcp_transport", "mcp_server_host", "mcp_server_port"]

/-- The settings that an environment gives, or everything that is wrong with it
in the order of the settings. -/
def ofEnvironment (env : Environment) : Except (List SettingError) Settings :=
  let defaults : Settings := {}
  let policy := env.policy "deprecated_maintainer" defaults.deprecatedMaintainer
  let maxChars := env.integer "max_document_chars" defaults.maxDocumentChars
  let apiPort := env.integer "api_server_port" defaults.apiServerPort
  let port := env.integerIfSet "port"
  let mcpPort := env.integer "mcp_server_port" defaults.mcpServerPort
  match policy, maxChars, apiPort, port, mcpPort with
  | .ok policy, .ok maxChars, .ok apiPort, .ok port, .ok mcpPort =>
    .ok {
      logLevel := env.text "log_level" defaults.logLevel
      deprecatedMaintainer := policy
      maxDocumentChars := maxChars
      apiServerHost := env.text "api_server_host" defaults.apiServerHost
      apiServerPort := apiPort
      port := port
      mcpTransport := env.text "mcp_transport" defaults.mcpTransport
      mcpServerHost := env.text "mcp_server_host" defaults.mcpServerHost
      mcpServerPort := mcpPort
    }
  | policy, maxChars, apiPort, port, mcpPort =>
    .error (errorOf policy ++ errorOf maxChars ++ errorOf apiPort ++ errorOf port ++
      errorOf mcpPort)

/-- The port to listen on. -/
def effectivePort (s : Settings) : Int :=
  s.port.getD s.apiServerPort

/-- The settings of a validation that gives none itself. -/
def lintSettings (s : Settings) : LintSettings where
  deprecatedMaintainer := s.deprecatedMaintainer

/-- A document has more characters than the servers take. -/
def exceeds (s : Settings) (content : List Char) : Bool :=
  s.maxDocumentChars < content.length

/-- What is said of a document that has too many characters. -/
def tooLargeMessage (s : Settings) (content : List Char) : String :=
  "Document too large (" ++ grouped content.length ++ " chars > " ++
    grouped s.maxDocumentChars ++ " limit)"

end Settings

end DockerfileLint
