import ProgramIndex.Proofs.Gathering
import ProgramIndex.Proofs.RootUnits

/- What a loaded program notes about generators. For every file name the generator of the first reached file
   of that name is noted, also if the index names another package in place of the one that lists the file
   (`generatedBy?_of_firstNamed`); the load's last event counts the names for which there is one
   (`length_generatedFiles`). Whatever a traversal comes to was reached by the load
   (`mem_reached_of_reachable`), so every unit that a visitor or a filter is given carries what is noted for
   its name (`Noted`, `notes_cover_traversals`). -/
namespace ProgramIndex

/-- A file is the first one in a list that has a given name. -/
def FirstNamed (files : List SourceFile) (name : String) (file : SourceFile) : Prop :=
  ∃ before after, files = before ++ file :: after ∧ file.name = name ∧ ∀ earlier ∈ before, earlier.name ≠ name

theorem find?_eq_some_iff_firstNamed (files : List SourceFile) (name : String) (file : SourceFile) :
    (files.find? fun file => file.name = name) = some file ↔ FirstNamed files name file := by
  rw [List.find?_eq_some_iff_append]
  simp only [decide_eq_true_eq, Bool.not_eq_true', decide_eq_false_iff_not]
  refine ⟨fun h => ?_, fun h => ?_⟩
  · obtain ⟨hname, before, after, hfiles, hearlier⟩ := h
    exact ⟨before, after, hfiles, hname, hearlier⟩
  · obtain ⟨before, after, hfiles, hname, hearlier⟩ := h
    exact ⟨hname, before, after, hfiles, hearlier⟩

theorem exists_firstNamed {files : List SourceFile} {file : SourceFile} (h : file ∈ files) :
    ∃ first, FirstNamed files file.name first := by
  cases hfind : files.find? fun other => other.name = file.name with
  | none => exact absurd (decide_eq_true rfl) (List.find?_eq_none.mp hfind file h)
  | some first => exact ⟨first, (find?_eq_some_iff_firstNamed files file.name first).mp hfind⟩

/-- Files of one name have the same marker, or none of them has one. -/
def SameMarkers (files : List SourceFile) : Prop :=
  ∀ file ∈ files, ∀ other ∈ files, file.name = other.name → file.tree.generator? = other.tree.generator?

instance (files : List SourceFile) : Decidable (SameMarkers files) :=
  inferInstanceAs (Decidable (∀ file ∈ files, ∀ other ∈ files, _ → _))

namespace Program
variable {program : Program}

/-! What is noted for a name. -/

theorem generatedBy?_of_firstNamed (hloaded : program.Loaded) {name : String} {file : SourceFile}
    (h : FirstNamed program.reachedFiles name file) : program.generatedBy? name = file.tree.generator? := by
  have hfind := (find?_eq_some_iff_firstNamed _ _ _).mpr h
  rw [generatedBy?_eq_find? hloaded, hfind, Option.bind_some]

theorem generatedBy?_of_not_mem (hloaded : program.Loaded) {name : String}
    (h : ∀ file ∈ program.reachedFiles, file.name ≠ name) : program.generatedBy? name = none := by
  have hfind : (program.reachedFiles.find? fun file => file.name = name) = none := by
    apply List.find?_eq_none.mpr
    intro file hfile
    simpa using h file hfile
  rw [generatedBy?_eq_find? hloaded, hfind, Option.bind_none]

/-- The names for which a generator is noted. -/
def generatedNames (program : Program) : List String := (program.markers.filterMap fun _ generator => generator).keys

theorem mem_generatedNames (program : Program) (name : String) :
    name ∈ program.generatedNames ↔ (program.generatedBy? name).isSome = true := by
  have hget : (program.markers.filterMap fun _ generator => generator).get? name = program.generatedBy? name := by
    rw [OrderedMap.get?_filterMap, generatedBy?]
    cases program.markers.get? name with
    | none => rfl
    | some generator => rfl
  rw [generatedNames, OrderedMap.mem_keys_iff, hget, Option.isSome_iff_exists]

theorem length_generatedFiles (program : Program) : program.generatedFiles.length = program.generatedNames.length :=
  calc program.generatedFiles.length
      = (program.markers.filterMap fun _ generator => generator).size := (OrderedMap.perm_entriesByKey _).length_eq
    _ = program.generatedNames.length := (OrderedMap.length_keys _).symm

/-- A load that succeeds logs its end once. -/
theorem complete_mem_log_iff {host : Host} {directory : String} {options : LoadOptions} {frontEnd : FrontEnd}
    (h : (load host directory options frontEnd).outcome = .ok program) (roots packages generated : Nat) :
    .complete roots packages generated ∈ (load host directory options frontEnd).log ↔
      roots = program.roots.length ∧ packages = program.index.size ∧ generated = program.generatedFiles.length := by
  have hstart : .complete roots packages generated ≠ options.loadingEvent program.directory := nofun
  have hempty : .complete roots packages generated ∉ if program.roots = [] then [LogEvent.noPackages] else [] := by
    split <;> simp
  have hdiagnostics : .complete roots packages generated ∉
      if program.options.logDiagnostics then program.diagnosticEvents else [] := by
    split <;> simp [diagnosticEvents]
  have hgenerated : .complete roots packages generated ∉ program.generatedEvents host :=
    fun hmem => nomatch level_of_mem_generatedEvents hmem
  rw [log_of_load h, completionLog, List.mem_cons, List.mem_append, List.mem_append, List.mem_append,
    List.mem_singleton]
  simp only [hstart, hempty, hdiagnostics, hgenerated, false_or, LogEvent.complete.injEq]

/-! What a traversal comes to was reached. -/

theorem mem_reached_of_mem_roots (hloaded : program.Loaded) {root : PackageId} (h : root ∈ program.roots) :
    root ∈ program.reached :=
  (mem_reached hloaded root).mpr ⟨root, h, Relation.ReflTransGen.refl⟩

theorem mem_reached_of_index (hloaded : program.Loaded) {path : String} {id : PackageId}
    (h : program.index.get? path = some id) : id ∈ program.reached := by
  obtain ⟨earlier, later, hreached, _⟩ := (get?_index hloaded path id).mp h
  rw [hreached]
  exact List.mem_append_right earlier List.mem_cons_self

/-- A traversal starts with roots and goes on along the index, so it does not leave what was reached. -/
theorem mem_reached_of_reachable (hloaded : program.Loaded) {descend : Package → Bool} {id : PackageId}
    (h : program.Reachable descend id) : id ∈ program.reached := by
  obtain ⟨root, hroot, hpath⟩ := h
  cases hpath with
  | refl => exact mem_reached_of_mem_roots hloaded ((mem_acceptedRoots hloaded.toConsistent root).mp hroot).1
  | tail _ hfollows =>
    obtain ⟨_, _, _, _, _, _, _, _, _, _, hindex⟩ := hfollows
    exact mem_reached_of_index hloaded hindex

/-! What units carry. -/

/-- A unit of a reached package that carries the generator noted for its file's name, which is that of the
    first reached file of this name. -/
structure Noted (program : Program) (unit : SourceUnit) : Prop where
  reached : unit.package ∈ program.reachedPackages
  listed : unit ∈ program.unitsOf unit.package
  first : ∃ first, FirstNamed program.reachedFiles unit.file.name first ∧
    program.generatedBy? unit.file.name = first.tree.generator? ∧
    unit.generatedBy = first.tree.generator?.getD ""

theorem file_of_mem_unitsOf {package : Package} {unit : SourceUnit} (h : unit ∈ program.unitsOf package) :
    unit.file ∈ package.files ∧ unit.generatedBy = (program.generatedBy? unit.file.name).getD "" := by
  obtain ⟨⟨file, place⟩, hfile, rfl⟩ := List.mem_map.mp h
  exact ⟨List.mem_of_getElem? (List.mk_mem_zipIdx_iff_getElem?.mp hfile), rfl⟩

theorem noted_of_mem_unitsOf (hloaded : program.Loaded) {package : Package}
    (hpackage : package ∈ program.reachedPackages) {unit : SourceUnit} (hunit : unit ∈ program.unitsOf package) :
    program.Noted unit := by
  obtain rfl := package_of_mem_unitsOf hunit
  obtain ⟨hfile, hgenerated⟩ := file_of_mem_unitsOf hunit
  obtain ⟨first, hfirst⟩ := exists_firstNamed (List.mem_flatMap.mpr ⟨unit.package, hpackage, hfile⟩)
  have hnote := generatedBy?_of_firstNamed hloaded hfirst
  refine ⟨hpackage, hunit, first, hfirst, hnote, ?_⟩
  rw [hgenerated, hnote]

theorem Noted.file_mem {unit : SourceUnit} (h : program.Noted unit) : unit.file ∈ program.reachedFiles :=
  List.mem_flatMap.mpr ⟨unit.package, h.reached, (file_of_mem_unitsOf h.listed).1⟩

theorem Noted.generatedBy_eq {unit : SourceUnit} (h : program.Noted unit) (hsame : SameMarkers program.reachedFiles) :
    unit.generatedBy = unit.file.tree.generator?.getD "" := by
  obtain ⟨first, ⟨before, after, hfiles, hname, _⟩, _, hgenerated⟩ := h.first
  have hfirst : first ∈ program.reachedFiles := by
    rw [hfiles]
    exact List.mem_append_right before List.mem_cons_self
  rw [hgenerated, hsame first hfirst unit.file h.file_mem hname]

theorem mem_reachedPackages_of_mem_roots (hloaded : program.Loaded) {package : Package}
    (h : package ∈ program.rootPackages) : package ∈ program.reachedPackages := by
  obtain ⟨root, hroot, hpackage⟩ := List.mem_filterMap.mp h
  exact List.mem_filterMap.mpr ⟨root, mem_reached_of_mem_roots hloaded hroot, hpackage⟩

theorem noted_of_mem_rootUnits (hloaded : program.Loaded) {unit : SourceUnit} (h : unit ∈ program.rootUnits) :
    program.Noted unit := by
  obtain ⟨package, hpackage, hunit⟩ := List.mem_flatMap.mp h
  have hroot := (List.mem_filter.mp hpackage).1
  exact noted_of_mem_unitsOf hloaded (mem_reachedPackages_of_mem_roots hloaded hroot) (List.mem_filter.mp hunit).1

theorem mem_rootUnits_of_getElem? {package : Package} (hroot : package ∈ program.acceptedRoots) {place : Nat}
    {file : SourceFile} (hfile : package.files[place]? = some file) {generator : String}
    (hnote : program.generatedBy? file.name = some generator)
    (haccepts : program.options.acceptsFile ⟨package, place, file, generator⟩ = true) :
    ⟨package, place, file, generator⟩ ∈ program.rootUnits := by
  refine List.mem_flatMap.mpr ⟨package, hroot, List.mem_filter.mpr ⟨?_, haccepts⟩⟩
  refine List.mem_map.mpr ⟨(file, place), List.mk_mem_zipIdx_iff_getElem?.mpr hfile, ?_⟩
  simp only [hnote, Option.getD_some]

theorem address_of_mem_fileCalls {unit : SourceUnit} {filter place : Nat} {id : PackageId}
    (h : .onFile filter id place ∈ program.fileCalls unit) : unit.address = (id, place) := by
  obtain ⟨_, _, hcall⟩ := List.mem_map.mp h
  cases hcall
  rfl

theorem onFile_not_mem_packageCalls (program : Program) (package : Package) (filter place : Nat) (id : PackageId) :
    .onFile filter id place ∉ program.packageCalls package := by
  intro h
  obtain ⟨_, _, hcall⟩ := List.mem_map.mp h
  cases hcall

theorem noted_of_mem_rootUnitCalls (hloaded : program.Loaded) {filter place : Nat} {id : PackageId}
    (h : .onFile filter id place ∈ program.rootUnitCalls) : ∃ unit, unit.address = (id, place) ∧ program.Noted unit := by
  obtain ⟨package, hpackage, hcall⟩ := List.mem_flatMap.mp h
  have hfile := (List.mem_append.mp hcall).resolve_left (onFile_not_mem_packageCalls program package filter place id)
  split at hfile
  · obtain ⟨unit, hunit, hcall⟩ := List.mem_flatMap.mp hfile
    have hreached := mem_reachedPackages_of_mem_roots hloaded hpackage
    exact ⟨unit, address_of_mem_fileCalls hcall, noted_of_mem_unitsOf hloaded hreached hunit⟩
  · exact absurd hfile List.not_mem_nil

theorem onFile_not_mem_startSteps (program : Program) (filter place : Nat) (id : PackageId) :
    .report (.asked (.onFile filter id place)) ∉ program.startSteps := by
  intro h
  obtain ⟨root, _, hroot⟩ := List.mem_flatMap.mp h
  rcases List.mem_append.mp hroot with hcall | hvisit
  · obtain ⟨call, hcall, heq⟩ := List.mem_map.mp hcall
    cases heq
    exact onFile_not_mem_packageCalls program root filter place id hcall
  · split at hvisit <;> simp at hvisit

theorem exists_unit_of_report_mem_visitScript {descend : Package → Bool} {source id : PackageId} {filter place : Nat}
    (h : .report (.asked (.onFile filter id place)) ∈ program.visitScript descend source) :
    ∃ package, program.package? source = some package ∧
      ∃ unit ∈ program.unitsOf package, .onFile filter id place ∈ program.fileCalls unit := by
  cases hpackage : program.package? source with
  | none => simp [visitScript, hpackage] at h
  | some package =>
    rw [visitScript_of_package hpackage] at h
    simp only [List.mem_cons, List.mem_append, Step.report.injEq, reduceCtorEq, false_or, List.not_mem_nil,
      or_false, bodySteps] at h
    split at h
    · obtain ⟨unit, hunit, hstep⟩ := List.mem_flatMap.mp h
      rcases List.mem_append.mp hstep with hcall | hvisit
      · obtain ⟨call, hcall, heq⟩ := List.mem_map.mp hcall
        cases heq
        exact ⟨package, rfl, unit, hunit, hcall⟩
      · split at hvisit <;> simp at hvisit
    · exact absurd h List.not_mem_nil

theorem noted_of_mem_visitPackages (hloaded : program.Loaded) {descend : Package → Bool} {filter place : Nat}
    {id : PackageId} (h : .asked (.onFile filter id place) ∈ program.visitPackages descend) :
    ∃ unit, unit.address = (id, place) ∧ program.Noted unit := by
  rcases Walk.report_of_mem_events h with hstart | ⟨source, henters, hreport⟩
  · exact absurd hstart (onFile_not_mem_startSteps program filter place id)
  · obtain ⟨package, hpackage, unit, hunit, hcall⟩ := exists_unit_of_report_mem_visitScript hreport
    have hreachable := (enters_iff_reachable hloaded.toConsistent source).mp henters
    have hreached : package ∈ program.reachedPackages :=
      List.mem_filterMap.mpr ⟨source, mem_reached_of_reachable hloaded hreachable, hpackage⟩
    exact ⟨unit, address_of_mem_fileCalls hcall, noted_of_mem_unitsOf hloaded hreached hunit⟩

/-- For every name the generator of the first reached file of that name is noted, and none if no reached
    file has the name; the load's last event counts the names with a generator. Every unit that a traversal
    hands over or asks a file filter about belongs to a reached package and carries the generator that is
    noted for its name, and every package that a traversal enters or leaves was reached. -/
theorem notes_cover_traversals {host : Host} {directory : String} {options : LoadOptions} {frontEnd : FrontEnd}
    {program : Program} (h : (load host directory options frontEnd).outcome = .ok program) :
    ((∀ name file, FirstNamed program.reachedFiles name file →
      program.generatedBy? name = file.tree.generator?) ∧
      ∀ name, (∀ file ∈ program.reachedFiles, file.name ≠ name) → program.generatedBy? name = none) ∧
    (∃ names : Finset String, (∀ name, name ∈ names ↔ (program.generatedBy? name).isSome = true) ∧
      ∀ roots packages generated, .complete roots packages generated ∈ (load host directory options frontEnd).log ↔
        roots = program.roots.length ∧ packages = program.index.size ∧ generated = names.card) ∧
    (∀ unit ∈ program.rootUnits, program.Noted unit) ∧
    (∀ filter id place, .onFile filter id place ∈ program.rootUnitCalls →
      ∃ unit, unit.address = (id, place) ∧ program.Noted unit) ∧
    ∀ descend, (∀ filter id place, .asked (.onFile filter id place) ∈ program.visitPackages descend →
        ∃ unit, unit.address = (id, place) ∧ program.Noted unit) ∧
      ∀ id, .enter id ∈ program.visitPackages descend ∨ .leave id ∈ program.visitPackages descend →
        id ∈ program.reached := by
  have hloaded := loaded_of_load h
  refine ⟨⟨fun name file => generatedBy?_of_firstNamed hloaded, fun name => generatedBy?_of_not_mem hloaded⟩, ?_,
    fun unit => noted_of_mem_rootUnits hloaded, fun filter id place => noted_of_mem_rootUnitCalls hloaded,
    fun descend => ⟨fun filter id place => noted_of_mem_visitPackages hloaded, fun id hvisit => ?_⟩⟩
  · -- no name is noted twice
    let names : Finset String := ⟨program.generatedNames, OrderedMap.nodup_keys _⟩
    have hcard : names.card = program.generatedFiles.length := (length_generatedFiles program).symm
    refine ⟨names, mem_generatedNames program, fun roots packages generated => ?_⟩
    rw [hcard]
    exact complete_mem_log_iff h roots packages generated
  · apply mem_reached_of_reachable hloaded
    rcases hvisit with henter | hleave
    · exact (boundary_mem_iff hloaded.toConsistent descend (Or.inl rfl)).mp henter
    · exact (boundary_mem_iff hloaded.toConsistent descend (Or.inr rfl)).mp hleave

/-! A package and its test variant, which list files of one name but not the same text. -/

/-- A file that has one comment above its package clause. -/
def commentedFile (name comment : String) : SourceFile :=
  ⟨⟨0⟩, name, { packageOffset := 90, comments := [[⟨0, comment⟩]] }⟩

/-- Its file has a marker. -/
def plainPackage : Package where
  id := ⟨0⟩
  key := "p"
  path := "p"
  name := "p"
  files := [commentedFile "p.go" "// Code generated by a. DO NOT EDIT."]

/-- Its file of the same name has none. -/
def testVariant : Package where
  id := ⟨1⟩
  key := "p [p.test]"
  path := "p"
  name := "p"
  files := [commentedFile "p.go" "// Package p.", commentedFile "q.go" "// Code generated b DO NOT EDIT."]

def notedFindings : Findings where
  packages := [plainPackage, testVariant]
  roots := [⟨0⟩, ⟨1⟩]

def notedProgram : Program := ofFindings {} "/" notedFindings

theorem load_notedFindings : (load {} "/" {} fun _ => .ok notedFindings).outcome = .ok notedProgram := rfl

theorem reachedPackages_notedProgram : notedProgram.reachedPackages = [plainPackage, testVariant] := by
  have hreached : notedProgram.reached = [⟨0⟩, ⟨1⟩] := by
    show gather [plainPackage, testVariant] false [⟨0⟩, ⟨1⟩] = [⟨0⟩, ⟨1⟩]
    cbv
  rw [reachedPackages, hreached]
  rfl

theorem reachedFiles_notedProgram : notedProgram.reachedFiles = plainPackage.files ++ testVariant.files := by
  rw [reachedFiles, reachedPackages_notedProgram]
  rfl

theorem index_notedProgram : notedProgram.index = indexByPath [plainPackage, testVariant] := by
  rw [← reachedPackages_notedProgram]
  rfl

/-- The index names the test variant, but for the file that both packages list the generator of the first
    one's file is noted, and the unit of the test variant carries it. -/
theorem notes_cover_notedProgram :
    notedProgram.index.get? "p" = some ⟨1⟩ ∧ notedProgram.generatedBy? "r.go" = none ∧
    .complete 2 1 2 ∈ (load {} "/" {} fun _ => .ok notedFindings).log ∧
    ∃ unit ∈ notedProgram.rootUnits, unit.address = (⟨1⟩, 0) ∧ unit.generatedBy = "by a." ∧
      notedProgram.Noted unit := by
  obtain ⟨⟨hfirst, hnone⟩, ⟨names, hnames, hcomplete⟩, hunits, _⟩ := notes_cover_traversals load_notedFindings
  rw [reachedFiles_notedProgram] at hfirst hnone
  have hshared : notedProgram.generatedBy? "p.go" = some "by a." := by
    rw [hfirst "p.go" _ ⟨[], _, rfl, rfl, by simp⟩]
    decide
  have hown : notedProgram.generatedBy? "q.go" = some "b" := by
    rw [hfirst "q.go" _ ⟨[_, _], [], rfl, rfl, by decide⟩]
    decide
  have hother : ∀ name, name ≠ "p.go" → name ≠ "q.go" → notedProgram.generatedBy? name = none := by
    intro name hp hq
    apply hnone
    simp [plainPackage, testVariant, commentedFile, Ne.symm hp, Ne.symm hq]
  have hcard : names = {"p.go", "q.go"} := by
    ext name
    rw [hnames, Finset.mem_insert, Finset.mem_singleton]
    by_cases hp : name = "p.go"
    · simp [hp, hshared]
    · by_cases hq : name = "q.go"
      · simp [hq, hown]
      · simp [hp, hq, hother name hp hq]
  have hroot : testVariant ∈ notedProgram.acceptedRoots := List.mem_cons_of_mem _ List.mem_cons_self
  have hunit := mem_rootUnits_of_getElem? hroot (by rfl : testVariant.files[0]? = some _) hshared (by decide)
  refine ⟨?_, hother "r.go" (by decide) (by decide), (hcomplete 2 1 2).mpr ⟨rfl, ?_, ?_⟩,
    _, hunit, rfl, rfl, hunits _ hunit⟩
  · rw [index_notedProgram]
    decide
  · rw [index_notedProgram]
    decide
  · rw [hcard]
    decide

end Program

end ProgramIndex
