import DockerfileLint.Settings
import DockerfileLint.Text.Quoted

/-!
# Launching the servers

There are two servers: one answers requests over HTTP, the other one offers the
same checks as tools to a language model.  Launching a server sets the level of
the log first, so an unknown level keeps the server from starting.
-/

namespace DockerfileLint

/-- The version of the program. -/
def version : String := "0.1.0"

/-- The levels of the log, and their numbers. -/
def logLevels : List (String × Nat) :=
  [("CRITICAL", 50), ("FATAL", 50), ("ERROR", 40), ("WARN", 30), ("WARNING", 30),
   ("INFO", 20), ("DEBUG", 10), ("NOTSET", 0)]

/-- Why a server does not start: nobody knows the level of its log. -/
structure UnknownLevel where
  level : String
deriving DecidableEq, Repr

/-- An unknown level in words. -/
def UnknownLevel.message (e : UnknownLevel) : String :=
  "Unknown level: " ++ quoted e.level

/-- The server to start. -/
inductive Server
  /-- The server that answers requests over HTTP. -/
  | api
  /-- The server that offers tools. -/
  | tools
deriving DecidableEq, Repr

/-- The server of a name. -/
def Server.ofName? : String → Option Server
  | "api" => some .api
  | "tools" => some .tools
  | _ => none

/-- How a server is reached. -/
inductive Listening
  /-- Over HTTP. -/
  | http (host : String) (port : Int) (logLevel : String)
  /-- Over the standard streams. -/
  | standardStreams
  /-- Over a transport of the tool server's own. -/
  | transport (name : String) (host : String) (port : Int) (logLevel : String)
deriving DecidableEq, Repr

/-- A server that has been set up: the number of its log level, and how it is
reached. -/
structure Launch where
  rootLevel : Nat
  listening : Listening
deriving DecidableEq, Repr

/-- The number of a log level, whose name may be in lower case. -/
def rootLevel (s : Settings) : Except UnknownLevel Nat :=
  match logLevels.lookup (Unicode.upper s.logLevel) with
  | some number => .ok number
  | none => .error ⟨Unicode.upper s.logLevel⟩

/-- How a server is reached. -/
def listening (s : Settings) : Server → Listening
  | .api => .http s.apiServerHost s.effectivePort (Unicode.lower s.logLevel)
  | .tools =>
    if s.mcpTransport = "stdio" then
      .standardStreams
    else
      .transport s.mcpTransport s.mcpServerHost s.mcpServerPort (Unicode.lower s.logLevel)

/-- Sets a server up. -/
def launch (s : Settings) (server : Server) : Except UnknownLevel Launch :=
  (rootLevel s).map fun level => ⟨level, listening s server⟩

/-- What the log says when a server starts. -/
def Launch.announcement (l : Launch) : String :=
  match l.listening with
  | .http host port _ =>
    "API server v" ++ version ++ " starting (host=" ++ host ++ ", port=" ++ toString port ++ ")"
  | .standardStreams => "Tool server v" ++ version ++ " starting (transport=stdio)"
  | .transport name _ _ _ => "Tool server v" ++ version ++ " starting (transport=" ++ name ++ ")"

end DockerfileLint
