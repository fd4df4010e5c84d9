import ProgramIndex.Diagnostic
import ProgramIndex.Scope
import ProgramIndex.SyntaxTree

/- Packages, as a front end hands them over: their files with syntax trees, the packages they
   import, the names they declare, and which symbol each identifier defines or uses. -/
namespace ProgramIndex

/-- One source file of a package. -/
structure SourceFile where
  file : FileId
  name : String
  tree : SyntaxTree
deriving DecidableEq

structure Package where
  /-- The place among the discovered packages; loading sets it. -/
  id : PackageId := ⟨0⟩
  /-- The front end's own name, which tells the variants of one path apart. -/
  key : String
  path : String
  name : String
  files : List SourceFile := []
  /-- The imported packages by import path. -/
  imports : OrderedMap String PackageId := .empty
  scope : Scope := {}
  /-- The defining occurrences. A definition may have no symbol of its own. -/
  definitions : OrderedMap Occurrence (Option SymbolId) := .empty
  uses : OrderedMap Occurrence SymbolId := .empty
  diagnostics : List Diagnostic := []

namespace Package

/-- The symbol that an occurrence defines, or else the one it uses. -/
def symbolAt? (package : Package) (occurrence : Occurrence) : Option SymbolId :=
  match package.definitions.get? occurrence with
  | some defined => defined
  | none => package.uses.get? occurrence

/-- The imported packages, in the order of the import paths. -/
def sortedImports (package : Package) : List PackageId := package.imports.entriesByKey.map Prod.snd

end Package

end ProgramIndex
