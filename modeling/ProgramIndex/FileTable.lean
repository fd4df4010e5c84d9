import ProgramIndex.Id
import ProgramIndex.OrderedMap
import ProgramIndex.Position

/- File tables: numbers for file names, and line tables for the files whose contents are known. A
   new name gets the next number, so the numbers in use are those below `size`. Names and numbers
   are kept in both directions, and each is the inverse of the other (`id?_eq_some_iff`). -/
namespace ProgramIndex

structure FileTable where
  numbers : OrderedMap String FileId
  /-- The names, each at the place that its number gives. -/
  names : List String
  lineTables : OrderedMap FileId LineTable
  inverse : ∀ name file, numbers.get? name = some file ↔ names[file.index]? = some name

namespace FileTable

/-- A table without files. -/
def empty : FileTable where
  numbers := .empty
  names := []
  lineTables := .empty
  inverse := fun _ _ => ⟨nofun, nofun⟩

def size (files : FileTable) : Nat := files.names.length

/-- The number of a name that has one. -/
def id? (files : FileTable) (name : String) : Option FileId := files.numbers.get? name

/-- The name of a file. -/
def name? (files : FileTable) (file : FileId) : Option String := files.names[file.index]?

/-- The numbering is one to one: a number belongs to a name exactly if the name is its name. -/
theorem id?_eq_some_iff (files : FileTable) (name : String) (file : FileId) :
    files.id? name = some file ↔ files.name? file = some name :=
  files.inverse name file

theorem id?_eq_none_iff (files : FileTable) (name : String) :
    files.id? name = none ↔ name ∉ files.names := by
  simp only [Option.eq_none_iff_forall_ne_some, ne_eq, id?_eq_some_iff, name?, List.mem_iff_getElem?, not_exists]
  exact ⟨fun h i => h ⟨i⟩, fun h file => h file.index⟩

theorem getElem?_concat_eq_some_iff (names : List String) (name other : String) (i : Nat) :
    (names ++ [name])[i]? = some other ↔ names[i]? = some other ∨ i = names.length ∧ name = other := by
  rw [List.getElem?_append]
  split
  · next hlt => exact ⟨Or.inl, fun h => h.resolve_right fun hlast => Nat.ne_of_lt hlt hlast.1⟩
  · next hge =>
    rw [List.getElem?_eq_none_iff.mpr (Nat.le_of_not_lt hge), List.getElem?_singleton]
    simp only [Option.ite_none_right_eq_some, Option.some.injEq, reduceCtorEq, false_or]
    exact and_congr_left fun _ => by omega

/-- A name without a number takes the next one in both directions. -/
theorem inverse_concat (files : FileTable) {name : String} (h : files.id? name = none) (other : String)
    (file : FileId) :
    (files.numbers.insert name ⟨files.names.length⟩).get? other = some file ↔
      (files.names ++ [name])[file.index]? = some other := by
  rw [OrderedMap.get?_insert, getElem?_concat_eq_some_iff, ← files.inverse other file]
  obtain ⟨i⟩ := file
  by_cases heq : other = name
  · subst heq
    have hnone : files.numbers.get? other = none := h
    simp [hnone, eq_comm]
  · simp [heq, Ne.symm heq]

/-- The number of a name, which gets the next free one if it has none. -/
def intern (files : FileTable) (name : String) : FileTable × FileId :=
  match h : files.id? name with
  | some file => (files, file)
  | none =>
    ({ files with
        numbers := files.numbers.insert name ⟨files.names.length⟩
        names := files.names ++ [name]
        inverse := files.inverse_concat h },
      ⟨files.names.length⟩)

theorem intern_of_id? {files : FileTable} {name : String} {file : FileId} (h : files.id? name = some file) :
    files.intern name = (files, file) := by
  unfold intern
  split
  · next found hfound => rw [h] at hfound; rw [Option.some.inj hfound]
  · next hnone => rw [h] at hnone; cases hnone

theorem intern_of_not_mem {files : FileTable} {name : String} (h : name ∉ files.names) :
    (files.intern name).1.names = files.names ++ [name] ∧
      (files.intern name).1.lineTables = files.lineTables ∧
      (files.intern name).2 = ⟨files.size⟩ := by
  unfold intern
  split
  · next file hfile =>
    rw [(id?_eq_none_iff files name).2 h] at hfile
    cases hfile
  · exact ⟨rfl, rfl, rfl⟩

/-- Records the contents of a file; later contents replace earlier ones. -/
def setContents (files : FileTable) (file : FileId) (contents : String) : FileTable :=
  { files with lineTables := files.lineTables.insert file (.ofText contents) }

/-- The position of an offset in a file whose contents are known. -/
def position? (files : FileTable) (file : FileId) (offset : Nat) : Option Position :=
  (files.lineTables.get? file).bind (·.position? offset)

end FileTable

end ProgramIndex
