/- Diagnostics: what a front end reports about one package. They never make loading fail. -/
namespace ProgramIndex

/-- The stage that reports: listing packages, parsing or type checking. -/
inductive DiagnosticKind where
  | unknown
  | list
  | parse
  | type
deriving DecidableEq

inductive Severity where
  | error
  | warning
deriving DecidableEq

structure Diagnostic where
  kind : DiagnosticKind
  severity : Severity
  position : Option String := none
  message : String
deriving DecidableEq

namespace Diagnostic

def isError (d : Diagnostic) : Bool := d.severity == .error

/-- The message, after its position if one is known. -/
def text (d : Diagnostic) : String :=
  match d.position with
  | some position => position ++ ": " ++ d.message
  | none => d.message

end Diagnostic

end ProgramIndex
