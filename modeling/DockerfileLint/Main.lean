import DockerfileLint.Launch

/-!
# The command line

The argument names the server to set up, `api` or `tools`; everything else
comes from environment variables, written in upper or in lower case.  What the
server would listen on is announced, and what keeps it from starting goes to the
standard error.
-/

namespace DockerfileLint

/-- The variables of the surrounding process that are settings. -/
def processEnvironment : IO Environment := do
  let names := Settings.variableNames.flatMap fun name => [name, Unicode.upper name]
  let found ← names.mapM fun name => return (← IO.getEnv name).map (name, ·)
  return found.filterMap id

/-- Sets up the server of a name from the variables of the process: the
announcement of the server, or all that keeps it from starting. -/
def setUp (name : String) (env : Environment) : Except (List String) String :=
  match Server.ofName? name with
  | none => .error ["Unknown server " ++ name ++ ". Use one of: api, tools"]
  | some server =>
    match Settings.ofEnvironment env with
    | .error errors => .error (errors.map SettingError.message)
    | .ok settings =>
      match launch settings server with
      | .error e => .error [e.message]
      | .ok started => .ok started.announcement

end DockerfileLint

open DockerfileLint

/-- Sets up the server that the argument names, the HTTP server without one. -/
def main (args : List String) : IO UInt32 := do
  match setUp (args.headD "api") (← processEnvironment) with
  | .ok announcement =>
    IO.println announcement
    return 0
  | .error messages =>
    messages.forM IO.eprintln
    return 1
