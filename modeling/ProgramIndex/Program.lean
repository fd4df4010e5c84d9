import ProgramIndex.Findings
import ProgramIndex.LoadOptions
import ProgramIndex.SyntaxTree.GeneratedMarker

/- Programs: what a load makes of a findings. The packages that were reached are indexed by path;
   for every file name that was reached there is a note of its generator, and every listed file
   has an owner. -/
namespace ProgramIndex

structure Program where
  options : LoadOptions
  directory : String
  files : FileTable
  symbols : SymbolTable
  universeScope : Scope
  packages : List Package
  roots : List PackageId
  /-- The packages that were reached from the roots, imported ones first. -/
  reached : List PackageId
  /-- The reached packages by path; of several with one path the last stands for it. -/
  index : OrderedMap String PackageId
  /-- For each reached file name the generator of its first file, if that has a marker. -/
  markers : OrderedMap String (Option String)
  /-- For each file the first package that lists it, and its place there. -/
  owners : OrderedMap FileId (PackageId × Nat)

namespace Program

/-! Packages. -/

def package? (program : Program) (id : PackageId) : Option Package := program.packages[id.index]?

def rootPackages (program : Program) : List Package := program.roots.filterMap program.package?

def indexedPackages (program : Program) : List Package := program.index.values.filterMap program.package?

/-- The package that stands for a path. -/
def packageAt? (program : Program) (path : String) : Option Package :=
  (program.index.get? path).bind program.package?

/-- The diagnostics of the indexed packages. -/
def diagnostics (program : Program) : List (PackageId × Diagnostic) :=
  program.indexedPackages.flatMap fun package => package.diagnostics.map fun d => (package.id, d)

/-! Source units and generated files. -/

/-- The generator of the file with a given name, if that file has a marker. -/
def generatedBy? (program : Program) (name : String) : Option String :=
  (program.markers.get? name).join

/-- The file names with a marker and their generators, in the order of the names. -/
def generatedFiles (program : Program) : List (String × String) :=
  (program.markers.filterMap fun _ generator => generator).entriesByKey

/-- A package's files as source units. -/
def unitsOf (program : Program) (package : Package) : List SourceUnit :=
  package.files.zipIdx.map fun (file, place) =>
    ⟨package, place, file, (program.generatedBy? file.name).getD ""⟩

/-! Occurrences. -/

/-- The package that owns an occurrence's file. -/
def packageOf? (program : Program) (occurrence : Occurrence) : Option Package :=
  (program.owners.get? occurrence.file).bind fun owner => program.package? owner.1

/-- The identifier at an occurrence, in the tree of the file's owner. -/
def ident? (program : Program) (occurrence : Occurrence) : Option Ident := do
  let (owner, place) ← program.owners.get? occurrence.file
  let package ← program.package? owner
  let file ← package.files[place]?
  file.tree.idents[occurrence.place]?

/-- Where an occurrence stands: by line and column if the file's contents are known, or else by
    offset. -/
def describePlace (program : Program) (occurrence : Occurrence) : String :=
  match program.files.name? occurrence.file, program.ident? occurrence with
  | some name, some ident =>
    match program.files.position? occurrence.file ident.offset with
    | some position => name ++ ":" ++ position.label
    | none => name ++ ":@" ++ toString ident.offset
  | _, _ => "-"

end Program

end ProgramIndex
