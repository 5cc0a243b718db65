import DockerfileLint.Diagnostic

/-!
# What can be configured

Only one check can be configured: the deprecated instruction that names a
maintainer is ignored, a warning or an error.
-/

namespace DockerfileLint

/-- What becomes of a deprecated instruction. -/
inductive MaintainerPolicy
  | ignore
  | warning
  | error
deriving DecidableEq, Repr

namespace MaintainerPolicy

/-- The policies there are. -/
def all : List MaintainerPolicy :=
  [ignore, warning, error]

/-- The name of a policy. -/
def name : MaintainerPolicy → String
  | ignore => "ignore"
  | warning => "warning"
  | error => "error"

/-- The policy of a name, which has to be exact. -/
def ofName? (name : String) : Option MaintainerPolicy :=
  all.find? fun policy => policy.name == name

/-- How serious the deprecated instruction is, unless it is ignored. -/
def severity? : MaintainerPolicy → Option Severity
  | ignore => none
  | warning => some .warning
  | error => some .error

/-- What is reported of the deprecated instruction. -/
def problem? (policy : MaintainerPolicy) : Option Problem :=
  policy.severity?.map .deprecatedMaintainer

end MaintainerPolicy

/-- The settings of a validation. -/
structure LintSettings where
  deprecatedMaintainer : MaintainerPolicy := .warning
deriving DecidableEq, Repr

end DockerfileLint
