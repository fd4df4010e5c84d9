import ProgramIndex.Directory
import ProgramIndex.LogEvent
import ProgramIndex.Program
import ProgramIndex.Walk

/- Loading: a front end is asked once, its answer is checked, and the program is put together. The
   reached packages are the roots, and what they import if that is wanted; a depth-first walk over
   the imports, in the order of their paths, lists them in post-order. -/
namespace ProgramIndex

/-! What is made of the packages. -/

/-- The packages with their places as numbers. -/
def numbered (packages : List Package) : List Package :=
  packages.zipIdx.map fun (package, place) => { package with id := ⟨place⟩ }

theorem length_numbered (packages : List Package) : (numbered packages).length = packages.length := by
  simp [numbered]

/-- Numbering keeps every package in its place. -/
theorem getElem?_numbered (packages : List Package) (place : Nat) :
    (numbered packages)[place]? = packages[place]?.map fun package => { package with id := ⟨place⟩ } := by
  rw [numbered, List.getElem?_map, List.getElem?_zipIdx, Option.map_map]
  simp [Function.comp_def]

/-- The numbers of as many packages. -/
def packageIds (count : Nat) : List PackageId := (List.range count).map PackageId.mk

theorem mem_packageIds (count : Nat) (id : PackageId) : id ∈ packageIds count ↔ id.index < count := by
  obtain ⟨i⟩ := id
  simp [packageIds]

/-- What a visit of a package does when packages are gathered: it visits the imports, if those
    are wanted, and then reports the package itself. -/
def gatherScript (packages : List Package) (dependencies : Bool) (id : PackageId) :
    List (Step PackageId PackageId) :=
  match packages[id.index]? with
  | none => []
  | some package =>
    (if dependencies then package.sortedImports.map .visit else []) ++ [.report id]

/-- The packages that are reached from the roots, each one once, after what it imports. -/
def gather (packages : List Package) (dependencies : Bool) (roots : List PackageId) : List PackageId :=
  Walk.events (packageIds packages.length) (gatherScript packages dependencies) (roots.map .visit)

/-- The packages by path: a path keeps its first place and its last package. -/
def indexByPath (packages : List Package) : OrderedMap String PackageId :=
  .ofList (packages.map fun package => (package.path, package.id))

/-- For each file name the generator of the first file of that name. -/
def markersByName (packages : List Package) : OrderedMap String (Option String) :=
  (packages.flatMap (·.files)).foldl (fun markers file => markers.insertIfNew file.name file.tree.generator?)
    .empty

/-- The files of all packages, each with the package that lists it and its place there. -/
def listings (packages : List Package) : List (FileId × PackageId × Nat) :=
  packages.flatMap fun package =>
    package.files.zipIdx.map fun (file, place) => (file.file, package.id, place)

/-- For each file its first listing. -/
def ownersByFile (packages : List Package) : OrderedMap FileId (PackageId × Nat) :=
  (listings packages).foldl (fun owners l => owners.insertIfNew l.1 l.2) .empty

/-- The machine that a load runs on. Files are looked through for markers side by side, so in which order the
    marked ones are noted in the log is up to the machine. -/
structure Host where
  workingDirectory : String := "/"
  order : List (String × String) → List (String × String) := id
  perm_order : ∀ files, (order files).Perm files := by exact List.Perm.refl

namespace Program

/-- The program that findings amount to. -/
def ofFindings (options : LoadOptions) (directory : String) (findings : Findings) : Program :=
  let packages := numbered findings.packages
  let reached := gather packages options.dependencies findings.roots
  let reachedPackages := reached.filterMap fun id => packages[id.index]?
  { options, directory, packages, reached
    files := findings.files
    symbols := findings.symbols
    universeScope := findings.universeScope
    roots := findings.roots
    index := indexByPath reachedPackages
    markers := markersByName reachedPackages
    owners := ownersByFile packages }

/-- The diagnostics of the reached packages, one event each. -/
def diagnosticEvents (program : Program) : List LogEvent :=
  (program.reached.filterMap program.package?).flatMap fun package =>
    package.diagnostics.map fun d => .diagnostic package.id package.path d

/-- The files with a marker, one event each. -/
def generatedEvents (host : Host) (program : Program) : List LogEvent :=
  (host.order program.generatedFiles).map .ofGenerated

theorem level_of_mem_generatedEvents {host : Host} {program : Program} {event : LogEvent}
    (h : event ∈ program.generatedEvents host) : event.level = .trace := by
  obtain ⟨_, _, rfl⟩ := List.mem_map.1 h
  rfl

/-- What is logged once the program is there. -/
def completionLog (host : Host) (program : Program) : List LogEvent :=
  (if program.roots = [] then [.noPackages] else []) ++
    (if program.options.logDiagnostics then program.diagnosticEvents else []) ++
    program.generatedEvents host ++
    [.complete program.roots.length program.index.size program.generatedFiles.length]

end Program

/-! The load. -/

/-- The request that options make for a directory. -/
def LoadOptions.request (options : LoadOptions) (directory : String) : Request where
  directory := directory
  patterns := options.patterns
  tests := options.tests
  dependencies := options.dependencies
  buildFlags := options.buildFlags
  environment := options.environment

/-- What is logged before a front end is asked. -/
def LoadOptions.loadingEvent (options : LoadOptions) (directory : String) : LogEvent :=
  .loading directory options.patterns options.tests options.dependencies

/-- What a load did: the requests it made, what it logged, and how it ended. -/
structure LoadRun where
  requests : List Request
  log : List LogEvent
  outcome : Except LoadError Program

/-- Loads the program below a directory. -/
def load (host : Host) (directory : String) (options : LoadOptions) (frontEnd : FrontEnd) : LoadRun :=
  match Directory.absolute? host.workingDirectory directory with
  -- without a directory there is nothing to ask for
  | none => ⟨[], [], .error .emptyDirectory⟩
  | some absolute =>
    let request := options.request absolute
    let loading := options.loadingEvent absolute
    match frontEnd request with
    | .error reason => ⟨[request], [loading], .error (.discoveryFailed reason)⟩
    | .ok findings =>
      match findings.fault? with
      | some fault => ⟨[request], [loading], .error fault⟩
      | none =>
        let program := Program.ofFindings options absolute findings
        ⟨[request], loading :: program.completionLog host, .ok program⟩

end ProgramIndex
