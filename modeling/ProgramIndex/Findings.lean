import ProgramIndex.FileTable
import ProgramIndex.Package
import ProgramIndex.SymbolTable

/- Findings: a front end is asked for the packages below a directory and answers with all it
   found, or with a reason why it found nothing. Roots and imports name packages by place, and
   `fault?` finds the first of them that is out of range. -/
namespace ProgramIndex

/-- What a front end is asked for. -/
structure Request where
  directory : String
  patterns : List String
  tests : Bool
  dependencies : Bool
  buildFlags : List String
  environment : List (String × String)
deriving DecidableEq

/-- What a front end found: packages, those of them that were asked for, and what they share. -/
structure Findings where
  packages : List Package := []
  roots : List PackageId := []
  symbols : SymbolTable := {}
  universeScope : Scope := {}
  files : FileTable := .empty

/-- A front end answers a request, or says why it cannot. -/
abbrev FrontEnd := Request → Except String Findings

inductive LoadError where
  | emptyDirectory
  | discoveryFailed (reason : String)
  | danglingImport (package path : String) (target : PackageId)
  | unknownRoot (root : PackageId)
deriving DecidableEq

namespace LoadError

/-- The reason that stands behind an error of another part. -/
def cause? : LoadError → Option String
  | .emptyDirectory => some "cannot make an empty path absolute"
  | .discoveryFailed reason => some reason
  | .danglingImport .. => none
  | .unknownRoot _ => none

def message : LoadError → String
  | .emptyDirectory => "invalid root directory : cannot make an empty path absolute"
  | .discoveryFailed reason => "package discovery failed: " ++ reason
  | .danglingImport package path target =>
    "package " ++ package ++ " imports " ++ path ++ " through unknown package index " ++
      toString target.index
  | .unknownRoot root => "unknown root package index " ++ toString root.index

end LoadError

namespace Findings

/-- Whether a package number is out of range. -/
def isUnknown (findings : Findings) (id : PackageId) : Bool :=
  decide (findings.packages.length ≤ id.index)

/-- The first import of a package that is out of range. -/
def danglingImport? (findings : Findings) (package : Package) : Option LoadError :=
  (package.imports.entries.find? fun e => findings.isUnknown e.2).map fun e =>
    .danglingImport package.path e.1 e.2

/-- The first root that is out of range, or else the first such import. -/
def fault? (findings : Findings) : Option LoadError :=
  match findings.roots.find? findings.isUnknown with
  | some root => some (.unknownRoot root)
  | none => findings.packages.findSome? findings.danglingImport?

theorem fault?_eq_none_iff (findings : Findings) :
    findings.fault? = none ↔
      (∀ root ∈ findings.roots, root.index < findings.packages.length) ∧
      ∀ package ∈ findings.packages, ∀ e ∈ package.imports.entries,
        e.2.index < findings.packages.length := by
  unfold fault?
  cases h : findings.roots.find? findings.isUnknown with
  | some root =>
    have hroot := List.find?_some h
    simp only [isUnknown, decide_eq_true_eq] at hroot
    simp only [reduceCtorEq, false_iff, not_and]
    intro hall
    exact absurd (hall root (List.mem_of_find?_eq_some h)) (by omega)
  | none =>
    simp only [List.find?_eq_none, isUnknown, decide_eq_true_eq, Nat.not_le] at h
    simp only [List.findSome?_eq_none_iff, danglingImport?, Option.map_eq_none_iff,
      List.find?_eq_none, isUnknown, decide_eq_true_eq, Nat.not_le]
    exact ⟨fun himports => ⟨h, himports⟩, fun hall => hall.2⟩

end Findings

end ProgramIndex
