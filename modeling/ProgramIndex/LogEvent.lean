import ProgramIndex.Diagnostic
import ProgramIndex.Id

/- What a load writes to its log. -/
namespace ProgramIndex

inductive LogLevel where
  | error
  | warn
  | debug
  | trace
deriving DecidableEq

def LogLevel.name : LogLevel → String
  | .error => "ERROR"
  | .warn => "WARN"
  | .debug => "DEBUG"
  | .trace => "TRACE"

inductive LogEvent where
  /-- The front end is about to be asked. -/
  | loading (directory : String) (patterns : List String) (tests dependencies : Bool)
  /-- The front end found no roots. -/
  | noPackages
  /-- A reached package has a diagnostic. -/
  | diagnostic (package : PackageId) (path : String) (diagnostic : Diagnostic)
  /-- A reached file has a marker. -/
  | generated (file generator : String)
  /-- The load is done: the numbers of roots, of indexed paths and of generated files. -/
  | complete (roots packages generated : Nat)
deriving DecidableEq

namespace LogEvent

def level : LogEvent → LogLevel
  | .loading .. => .debug
  | .noPackages => .warn
  | .diagnostic .. => .error
  | .generated .. => .trace
  | .complete .. => .debug

def message : LogEvent → String
  | .loading .. => "loading packages"
  | .noPackages => "no packages found"
  | .diagnostic _ _ d => d.text
  | .generated .. => "generated file"
  | .complete .. => "load complete"

/-- The note about a file with a marker and its generator. -/
def ofGenerated (entry : String × String) : LogEvent := .generated entry.1 entry.2

end LogEvent

end ProgramIndex
