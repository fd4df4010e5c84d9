import ProgramIndex.FileTable
import ProgramIndex.Proofs.OrderedMap

/- The numbers of files over a whole history. A file table is changed by interning names and by setting contents, in
   any order; contents may be set under numbers that no name has. After any steps the names stand in the order in
   which they first came (`names_run`), a name has the number that interning it answered (`id?_run_iff`), and a file
   has the lines of the contents that were set last (`get?_lineTables_run`). So names and numbers stay one to
   one, the numbers in use stay dense, and neither is disturbed by a later step (`numbers_stay_dense`). -/
namespace ProgramIndex

/-- A step that changes a file table. -/
inductive FileStep where
  | intern (name : String)
  | setContents (file : FileId) (contents : String)

namespace FileStep

/-- The name that a step interns. -/
def name? : FileStep → Option String
  | .intern name => some name
  | .setContents _ _ => none

/-- The contents that a step sets for a file. -/
def contents? (file : FileId) : FileStep → Option String
  | .intern _ => none
  | .setContents other contents => if other = file then some contents else none

/-- The names in the order in which they first came. -/
def firstNames (steps : List FileStep) : List String := (steps.filterMap name?).eraseDups

/-- The contents that were last set for a file. -/
def lastContents? (steps : List FileStep) (file : FileId) : Option String :=
  steps.reverse.findSome? (contents? file)

theorem lastContents?_cons (s : FileStep) (rest : List FileStep) (file : FileId) :
    lastContents? (s :: rest) file = (lastContents? rest file).or (s.contents? file) := by
  simp [lastContents?, List.findSome?_append]

end FileStep

namespace FileTable

def step (files : FileTable) : FileStep → FileTable
  | .intern name => (files.intern name).1
  | .setContents file contents => files.setContents file contents

def run (files : FileTable) (steps : List FileStep) : FileTable := steps.foldl step files

/-- The names that are interned on the way, each with the number that was answered for it. -/
def handedOut (files : FileTable) : List FileStep → List (String × FileId)
  | [] => []
  | .intern name :: rest => (name, (files.intern name).2) :: (files.intern name).1.handedOut rest
  | .setContents file contents :: rest => (files.setContents file contents).handedOut rest

/-- The table that steps make of an empty one. -/
def ofSteps (steps : List FileStep) : FileTable := empty.run steps

/-! One step. -/

theorem nodup_names (files : FileTable) : files.names.Nodup := by
  refine List.pairwise_iff_getElem.mpr fun i j hi hj hlt heq => ?_
  have hfirst := (files.inverse files.names[i] ⟨i⟩).mpr (List.getElem?_eq_getElem hi)
  have hsecond := (files.inverse files.names[j] ⟨j⟩).mpr (List.getElem?_eq_getElem hj)
  rw [heq, hsecond] at hfirst
  exact Nat.ne_of_gt hlt (congrArg FileId.index (Option.some.inj hfirst))

theorem exists_id?_of_mem {files : FileTable} {name : String} (h : name ∈ files.names) :
    ∃ file, files.id? name = some file := by
  rw [← Option.ne_none_iff_exists', Ne, id?_eq_none_iff]
  exact not_not_intro h

theorem names_intern (files : FileTable) (name : String) :
    (files.intern name).1.names = if name ∈ files.names then files.names else files.names ++ [name] := by
  split
  · next h =>
    obtain ⟨file, hfile⟩ := exists_id?_of_mem h
    rw [intern_of_id? hfile]
  · next h => exact (intern_of_not_mem h).1

theorem lineTables_intern (files : FileTable) (name : String) :
    (files.intern name).1.lineTables = files.lineTables := by
  by_cases h : name ∈ files.names
  · obtain ⟨file, hfile⟩ := exists_id?_of_mem h
    rw [intern_of_id? hfile]
  · exact (intern_of_not_mem h).2.1

theorem id?_intern_self (files : FileTable) (name : String) :
    (files.intern name).1.id? name = some (files.intern name).2 := by
  by_cases h : name ∈ files.names
  · obtain ⟨file, hfile⟩ := exists_id?_of_mem h
    rw [intern_of_id? hfile, hfile]
  · obtain ⟨hnames, _, hid⟩ := intern_of_not_mem h
    rw [id?_eq_some_iff, name?, hnames, hid]
    exact List.getElem?_concat_length

theorem id?_intern_ne (files : FileTable) {name other : String} (h : other ≠ name) :
    (files.intern name).1.id? other = files.id? other := by
  unfold intern
  split
  · rfl
  · exact OrderedMap.get?_update_ne h _ files.numbers

theorem id?_intern_iff (files : FileTable) (name other : String) (file : FileId) :
    (files.intern name).1.id? other = some file ↔
      files.id? other = some file ∨ other = name ∧ file = (files.intern name).2 := by
  by_cases h : other = name
  · subst h
    rw [id?_intern_self, Option.some_inj]
    refine ⟨fun heq => Or.inr ⟨rfl, heq.symm⟩, fun hor => ?_⟩
    rcases hor with hid | ⟨_, rfl⟩
    · rw [intern_of_id? hid]
    · rfl
  · rw [files.id?_intern_ne h]
    simp [h]

theorem name?_intern_ne (files : FileTable) {name : String} {file : FileId} (h : file ≠ (files.intern name).2) :
    (files.intern name).1.name? file = files.name? file := by
  refine Option.ext fun other => ?_
  rw [← id?_eq_some_iff, id?_intern_iff, id?_eq_some_iff]
  simp [h]

/-! Many steps. -/

/-- The names stand in the order in which they first came. -/
theorem names_run (files : FileTable) (steps : List FileStep) :
    (files.run steps).names = (files.names ++ steps.filterMap FileStep.name?).eraseDups := by
  induction steps generalizing files with
  | nil =>
    rw [List.filterMap_nil, List.append_nil, OrderedMap.eraseDups_of_nodup files.nodup_names]
    rfl
  | cons s rest ih =>
    rw [run, List.foldl_cons]
    cases s with
    | intern name =>
      have hname : (FileStep.intern name).name? = some name := rfl
      rw [List.filterMap_cons_some hname]
      refine (ih (files.intern name).1).trans ?_
      rw [names_intern]
      -- A name that is listed already adds nothing to the list, and among the names to come it is a repetition.
      split
      · next h => rw [OrderedMap.eraseDups_append_cons h]
      · rw [List.append_assoc, List.singleton_append]
    | setContents file contents =>
      have hnone : (FileStep.setContents file contents).name? = none := rfl
      rw [List.filterMap_cons_none hnone]
      exact ih (files.setContents file contents)

/-- A name has a number exactly if it had it before, or if interning it on the way answered it. -/
theorem id?_run_iff (files : FileTable) (steps : List FileStep) (name : String) (file : FileId) :
    (files.run steps).id? name = some file ↔
      files.id? name = some file ∨ (name, file) ∈ files.handedOut steps := by
  induction steps generalizing files with
  | nil => simp [run, handedOut]
  | cons s rest ih =>
    rw [run, List.foldl_cons]
    cases s with
    | intern added =>
      refine (ih (files.intern added).1).trans ?_
      rw [id?_intern_iff, handedOut, List.mem_cons, Prod.mk.injEq, or_assoc]
    | setContents other contents => exact ih (files.setContents other contents)

/-- A file has the lines of the contents that were set last, or else those it had before. -/
theorem get?_lineTables_run (files : FileTable) (steps : List FileStep) (file : FileId) :
    (files.run steps).lineTables.get? file =
      ((FileStep.lastContents? steps file).map LineTable.ofText).or (files.lineTables.get? file) := by
  induction steps generalizing files with
  | nil => rfl
  | cons s rest ih =>
    rw [run, List.foldl_cons, FileStep.lastContents?_cons]
    refine (ih (files.step s)).trans ?_
    cases s with
    | intern name => rw [step, lineTables_intern, FileStep.contents?, Option.or_none]
    | setContents other contents =>
      rw [step, setContents, OrderedMap.get?_insert, FileStep.contents?, Option.map_or, Option.or_assoc]
      by_cases h : other = file
      · simp [h]
      · simp [h, Ne.symm h]

theorem names_ofSteps (steps : List FileStep) : (ofSteps steps).names = FileStep.firstNames steps :=
  names_run empty steps

theorem id?_ofSteps_iff (steps : List FileStep) (name : String) (file : FileId) :
    (ofSteps steps).id? name = some file ↔ (name, file) ∈ empty.handedOut steps := by
  have hnone : empty.id? name = none := rfl
  rw [ofSteps, id?_run_iff, hnone]
  simp

theorem position?_ofSteps (steps : List FileStep) (file : FileId) (offset : Nat) :
    (ofSteps steps).position? file offset =
      (FileStep.lastContents? steps file).bind fun text => (LineTable.ofText text).position? offset := by
  have hnone : empty.lineTables.get? file = none := rfl
  rw [position?, ofSteps, get?_lineTables_run, hnone, Option.or_none, Option.bind_map]
  rfl

theorem exists_id?_iff_lt_size (files : FileTable) (file : FileId) :
    (∃ name, files.id? name = some file) ↔ file.index < files.size := by
  simp only [id?_eq_some_iff, name?, List.getElem?_eq_some_iff]
  constructor
  · rintro ⟨_, hlt, _⟩
    exact hlt
  · intro hlt
    exact ⟨_, hlt, rfl⟩

/-- After any steps the numbers in use are those below the size, in the order in which the names first came; names
    and numbers are one to one, and a name's number is the one that was answered for it. A known name keeps its
    number and changes nothing; a new one gets the next number and disturbs no other name, number or line table. A
    position is that in the contents set last, also where they were set for a number that no name has. -/
theorem numbers_stay_dense (steps : List FileStep) :
    let files := ofSteps steps
    (∀ i, files.name? ⟨i⟩ = (FileStep.firstNames steps)[i]?) ∧
    (∀ file, (∃ name, files.id? name = some file) ↔ file.index < files.size) ∧
    (∀ name file, files.id? name = some file ↔ files.name? file = some name) ∧
    (∀ name file, files.id? name = some file ↔ (name, file) ∈ empty.handedOut steps) ∧
    (∀ name file, files.id? name = some file → files.intern name = (files, file)) ∧
    (∀ name, files.id? name = none →
      let grown := (files.intern name).1
      (files.intern name).2 = ⟨files.size⟩ ∧ grown.id? name = some ⟨files.size⟩ ∧ grown.size = files.size + 1 ∧
      (∀ other, other ≠ name → grown.id? other = files.id? other) ∧
      (∀ file, file ≠ ⟨files.size⟩ → grown.name? file = files.name? file) ∧
      grown.lineTables = files.lineTables) ∧
    ∀ file offset, files.position? file offset =
      (FileStep.lastContents? steps file).bind fun text => (LineTable.ofText text).position? offset := by
  intro files
  refine ⟨fun i => ?_, files.exists_id?_iff_lt_size, files.id?_eq_some_iff, id?_ofSteps_iff steps,
    fun name file => intern_of_id?, fun name hnone => ?_, position?_ofSteps steps⟩
  · rw [name?, names_ofSteps]
  · have hnew : name ∉ files.names := (files.id?_eq_none_iff name).mp hnone
    obtain ⟨hnames, hlines, hfile⟩ := intern_of_not_mem hnew
    refine ⟨hfile, hfile ▸ files.id?_intern_self name, ?_, fun other => files.id?_intern_ne, fun file hne => ?_, hlines⟩
    · rw [size, hnames, List.length_append, List.length_singleton, size]
    · exact files.name?_intern_ne (hfile ▸ hne)

/-- Two files, one of them named twice, with contents set for the second before it has a name and again after. -/
def twoFileSteps : List FileStep :=
  [.setContents ⟨1⟩ "x", .intern "b.go", .intern "a.go", .intern "b.go", .setContents ⟨9⟩ "",
    .setContents ⟨1⟩ "package a\n\nvar X int\n"]

theorem numbers_stay_dense_twoFileSteps :
    (ofSteps twoFileSteps).id? "a.go" = some ⟨1⟩ ∧
    (ofSteps twoFileSteps).intern "b.go" = (ofSteps twoFileSteps, ⟨0⟩) ∧
    ((ofSteps twoFileSteps).intern "c.go").2 = ⟨2⟩ ∧
    (ofSteps twoFileSteps).position? ⟨1⟩ 15 = some ⟨2, 4⟩ ∧ (ofSteps twoFileSteps).position? ⟨0⟩ 0 = none := by
  obtain ⟨hnames, _, hone, hanswered, hknown, hnew, hplace⟩ := numbers_stay_dense twoFileSteps
  refine ⟨?_, ?_, ?_, ?_, ?_⟩
  · exact (hone "a.go" ⟨1⟩).mpr ((hnames 1).trans (by decide))
  · exact hknown "b.go" ⟨0⟩ ((hanswered "b.go" ⟨0⟩).mpr (by decide))
  · exact (hnew "c.go" (by decide)).1
  · rw [hplace]
    decide
  · rw [hplace]
    decide

end FileTable

end ProgramIndex
