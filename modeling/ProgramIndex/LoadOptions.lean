import ProgramIndex.Filters
import ProgramIndex.SourceUnit
import ProgramIndex.Text.Quoted

/- Options of a load: what to ask the front end for, whether to follow imports and to log
   diagnostics, and the filters that limit later traversals. Package filters apply to roots,
   file filters to source units; the unit that a test run generates is left out before any file
   filter is asked. -/
namespace ProgramIndex

structure LoadOptions where
  patterns : List String := ["./..."]
  buildTags : String := ""
  environment : List (String × String) := []
  /-- Whether test variants of packages are wanted. -/
  tests : Bool := false
  /-- Whether imported packages are indexed too. -/
  dependencies : Bool := false
  logDiagnostics : Bool := true
  packageFilters : List (Package → Bool) := []
  fileFilters : List (SourceUnit → Bool) := []

namespace LoadOptions

/-! Setting options. -/

def setEnvironment (options : LoadOptions) (key value : String) : LoadOptions :=
  { options with environment := options.environment ++ [(key, value)] }

/-- Sets the directory in which modules are found. -/
def setModuleRoot (options : LoadOptions) (directory : String) : LoadOptions :=
  options.setEnvironment "GOPATH" directory

def addPackageFilter (options : LoadOptions) (filter : Package → Bool) : LoadOptions :=
  { options with packageFilters := options.packageFilters ++ [filter] }

def addFileFilter (options : LoadOptions) (filter : SourceUnit → Bool) : LoadOptions :=
  { options with fileFilters := options.fileFilters ++ [filter] }

/-- Leaves generated files out. -/
def skipGenerated (options : LoadOptions) : LoadOptions :=
  options.addFileFilter fun unit => !unit.isGenerated

/-! Using options. -/

/-- The generator's name in the unit that a test run generates. -/
def testMain : String := "by 'go test'."

def acceptsPackage (options : LoadOptions) (package : Package) : Bool :=
  Filters.accept options.packageFilters package

def acceptsFile (options : LoadOptions) (unit : SourceUnit) : Bool :=
  unit.generatedBy != testMain && Filters.accept options.fileFilters unit

/-- The places of the package filters that are asked about a root. -/
def packageFiltersAsked (options : LoadOptions) (package : Package) : List Nat :=
  Filters.asked options.packageFilters package

/-- The places of the file filters that are asked about a unit. -/
def fileFiltersAsked (options : LoadOptions) (unit : SourceUnit) : List Nat :=
  if unit.generatedBy = testMain then [] else Filters.asked options.fileFilters unit

/-- The flags that the build tags stand for. -/
def buildFlags (options : LoadOptions) : List String := ["-tags=" ++ options.buildTags]

/-! Text. -/

def describeBool (b : Bool) : String := if b then "true" else "false"

/-- All options on one line; of the filters only their number is shown. -/
def describe (options : LoadOptions) : String :=
  let setting (v : String × String) : String := "(" ++ Text.quoted v.1 ++ ", " ++ Text.quoted v.2 ++ ")"
  let fields : List (String × String) :=
    [("patterns", Text.bracketed (options.patterns.map Text.quoted)),
     ("build_tags", Text.quoted options.buildTags),
     ("env", Text.bracketed (options.environment.map setting)),
     ("tests", describeBool options.tests),
     ("load_deps", describeBool options.dependencies),
     ("print_errors", describeBool options.logDiagnostics),
     ("package_filters", toString options.packageFilters.length),
     ("file_filters", toString options.fileFilters.length)]
  "LoadConfig \x7b " ++ String.intercalate ", " (fields.map fun f => f.1 ++ ": " ++ f.2) ++ " \x7d"

end LoadOptions

end ProgramIndex
