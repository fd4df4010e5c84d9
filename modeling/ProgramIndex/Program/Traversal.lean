import ProgramIndex.Program.Load

/- Traversals of a program. Units are taken from the roots, in order. Packages are visited from the
   roots along the import literals of their files, each one once; a visit enters the package, goes
   through its files and leaves it. Package filters are asked about roots only, file filters about
   every unit that a traversal comes to, and every such question is an event of its own. -/
namespace ProgramIndex

/-- A question to a filter, which is given by its place among the filters of its kind. -/
inductive FilterCall where
  | onPackage (filter : Nat) (package : PackageId)
  | onFile (filter : Nat) (package : PackageId) (place : Nat)
deriving DecidableEq

inductive VisitEvent where
  | asked (call : FilterCall)
  | enter (package : PackageId)
  | leave (package : PackageId)
deriving DecidableEq

namespace VisitEvent

/-- The question, if the event is one. -/
def call? : VisitEvent → Option FilterCall
  | .asked call => some call
  | _ => none

/-- The package, if the event is that it is left. -/
def left? : VisitEvent → Option PackageId
  | .leave package => some package
  | _ => none

end VisitEvent

namespace Program

/-! Questions to filters. -/

def packageCalls (program : Program) (package : Package) : List FilterCall :=
  (program.options.packageFiltersAsked package).map fun filter => .onPackage filter package.id

def fileCalls (program : Program) (unit : SourceUnit) : List FilterCall :=
  (program.options.fileFiltersAsked unit).map fun filter => .onFile filter unit.package.id unit.place

/-! Units. -/

/-- The roots that the package filters accept; a repeated root is repeated. -/
def acceptedRoots (program : Program) : List Package :=
  program.rootPackages.filter program.options.acceptsPackage

/-- The units of a package that the file filters accept. -/
def acceptedUnits (program : Program) (package : Package) : List SourceUnit :=
  (program.unitsOf package).filter program.options.acceptsFile

/-- The accepted units of the accepted roots. -/
def rootUnits (program : Program) : List SourceUnit :=
  program.acceptedRoots.flatMap program.acceptedUnits

/-- The questions that are asked to find the units of the roots. -/
def rootUnitCalls (program : Program) : List FilterCall :=
  program.rootPackages.flatMap fun package =>
    program.packageCalls package ++
      if program.options.acceptsPackage package then (program.unitsOf package).flatMap program.fileCalls
      else []

/-! Packages. -/

/-- The packages that the import literals of a unit lead to. -/
def importTargets (program : Program) (unit : SourceUnit) : List PackageId :=
  (unit.file.tree.importPaths.filterMap program.packageAt?).map (·.id)

/-- What a visit does with a unit: it asks the file filters, and follows the imports of an
    accepted one. -/
def unitSteps (program : Program) (unit : SourceUnit) : List (Step PackageId VisitEvent) :=
  (program.fileCalls unit).map (fun call => .report (.asked call)) ++
    if program.options.acceptsFile unit then (program.importTargets unit).map .visit else []

/-- What a visit of a package does; `descend` decides whether its files are looked at. -/
def visitScript (program : Program) (descend : Package → Bool) (id : PackageId) :
    List (Step PackageId VisitEvent) :=
  match program.package? id with
  | none => []
  | some package =>
    .report (.enter id) ::
      (if descend package then (program.unitsOf package).flatMap program.unitSteps else []) ++
      [.report (.leave id)]

/-- What is done with a root: the package filters are asked, and an accepted root is visited. -/
def rootSteps (program : Program) (package : Package) : List (Step PackageId VisitEvent) :=
  (program.packageCalls package).map (fun call => .report (.asked call)) ++
    if program.options.acceptsPackage package then [.visit package.id] else []

/-- The events of a traversal of the packages. -/
def visitPackages (program : Program) (descend : Package → Bool) : List VisitEvent :=
  Walk.events (packageIds program.packages.length) (program.visitScript descend)
    (program.rootPackages.flatMap program.rootSteps)

/-- The packages that a full traversal visits, in the order in which it leaves them. -/
def postOrder (program : Program) : List Package :=
  ((program.visitPackages fun _ => true).filterMap VisitEvent.left?).filterMap program.package?

end Program

end ProgramIndex
