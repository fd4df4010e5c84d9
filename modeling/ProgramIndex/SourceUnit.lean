import ProgramIndex.Package

/- Source units: a source file together with its package, its place in it, and the name of the
   generator that wrote it. -/
namespace ProgramIndex

structure SourceUnit where
  package : Package
  /-- The file's place among the files of its package. -/
  place : Nat
  file : SourceFile
  /-- The generator's name, empty for a hand-written file. -/
  generatedBy : String

namespace SourceUnit

def isGenerated (unit : SourceUnit) : Bool := unit.generatedBy != ""

/-- The file's name without its directories, which either kind of slash may divide. -/
def baseName (unit : SourceUnit) : String :=
  String.ofList (unit.file.name.toList.reverse.takeWhile fun c => c ≠ '/' ∧ c ≠ '\\').reverse

end SourceUnit

end ProgramIndex
