/- Numbers for the things an index speaks about. Files, symbols, types and packages are numbered
   from zero in the order in which they were added, and an occurrence is an identifier token:
   its file and its place among that file's identifiers. Occurrences are ordered by file and
   then by place (`Occurrence.le_trans`, `Occurrence.le_total`). -/
namespace ProgramIndex

/-- A source file. -/
structure FileId where
  index : Nat
deriving DecidableEq

/-- A declared entity. -/
structure SymbolId where
  index : Nat
deriving DecidableEq

/-- A type of the symbol table. -/
structure TypeId where
  index : Nat
deriving DecidableEq

/-- A package, by its place among the discovered packages. -/
structure PackageId where
  index : Nat
deriving DecidableEq

/-- An identifier token: the file it stands in and its place among that file's identifiers. -/
structure Occurrence where
  file : FileId
  place : Nat
deriving DecidableEq

/-! Texts. -/

/-- The short text of a file number, as messages show it. -/
def FileId.label (f : FileId) : String := "file#" ++ toString f.index

def FileId.describe (f : FileId) : String := "FileId(" ++ toString f.index ++ ")"
def SymbolId.describe (s : SymbolId) : String := "SymbolId(" ++ toString s.index ++ ")"
def TypeId.describe (t : TypeId) : String := "TypeId(" ++ toString t.index ++ ")"
def PackageId.describe (p : PackageId) : String := "PackageId(" ++ toString p.index ++ ")"

def Occurrence.describe (o : Occurrence) : String :=
  "Occurrence(" ++ o.file.describe ++ ":" ++ toString o.place ++ ")"

/-! The order of occurrences. -/

namespace Occurrence

/-- By file, and within a file by place. -/
def le (a b : Occurrence) : Bool :=
  decide (a.file.index < b.file.index ∨ (a.file.index = b.file.index ∧ a.place ≤ b.place))

theorem le_trans (a b c : Occurrence) (hab : le a b = true) (hbc : le b c = true) : le a c = true := by
  simp only [le, decide_eq_true_eq] at *
  omega

theorem le_total (a b : Occurrence) : (le a b || le b a) = true := by
  simp only [le, Bool.or_eq_true, decide_eq_true_eq]
  omega

/-- The occurrences in order, each one once. -/
def sortUnique (occurrences : List Occurrence) : List Occurrence :=
  (occurrences.mergeSort le).eraseReps

end Occurrence

end ProgramIndex
