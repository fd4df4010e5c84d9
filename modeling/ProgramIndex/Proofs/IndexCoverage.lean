import ProgramIndex.Proofs.DefinitionUse
import ProgramIndex.Proofs.Gathering
import ProgramIndex.Proofs.Traversal

/- When a traversal visits all that was indexed. A load gathers packages along their tables of imports;
   a traversal follows import literals and looks their paths up in the index. If the tables say what
   the packages and files say (`ImportsAgree`) and nothing is filtered out, an import in a table is
   one that a traversal follows (`follows_of_imports`), and a full traversal visits exactly the indexed
   packages (`reachable_iff_mem_index`). So no use of a definition is missed
   (`visitPackages_covers_index`). -/
namespace ProgramIndex.Program

/-- The reached packages have different paths and no file of a test run, and their tables of imports
    say what the packages and files say: an import leads to a package with its path, and a literal
    in some file denotes that path. -/
structure ImportsAgree (program : Program) : Prop where
  distinct_paths : (program.reachedPackages.map (·.path)).Nodup
  no_testMain : ∀ package ∈ program.reachedPackages, ∀ file ∈ package.files,
    file.tree.generator? ≠ some LoadOptions.testMain
  import_path : ∀ package ∈ program.reachedPackages, ∀ e ∈ package.imports.entries,
    pathAt? program.packages e.2 = some e.1
  import_literal : ∀ package ∈ program.reachedPackages, ∀ e ∈ package.imports.entries,
    ∃ file ∈ package.files, ∃ i ∈ file.tree.imports, i.path? = some e.1

variable {program : Program}

/-! Files are accepted. -/

theorem exists_file_of_generatedBy? (hloaded : program.Loaded) {name generator : String}
    (hgenerated : program.generatedBy? name = some generator) :
    ∃ package ∈ program.reachedPackages, ∃ file ∈ package.files, file.tree.generator? = some generator := by
  rw [generatedBy?_eq_find? hloaded, Option.bind_eq_some_iff] at hgenerated
  obtain ⟨file, hfile, hgenerator⟩ := hgenerated
  obtain ⟨package, hpackage, hmem⟩ := List.mem_flatMap.mp (List.mem_of_find?_eq_some hfile)
  exact ⟨package, hpackage, file, hmem, hgenerator⟩

theorem acceptsFile_of_importsAgree (hloaded : program.Loaded) (hagree : program.ImportsAgree)
    (hfilters : program.options.fileFilters = []) {package : Package} {unit : SourceUnit}
    (hunit : unit ∈ program.unitsOf package) : program.options.acceptsFile unit = true := by
  obtain ⟨⟨file, place⟩, _, rfl⟩ := List.mem_map.mp hunit
  have hgenerated : (program.generatedBy? file.name).getD "" ≠ LoadOptions.testMain := by
    intro heq
    cases hname : program.generatedBy? file.name with
    | none =>
      rw [hname] at heq
      exact absurd heq (by decide)
    | some generator =>
      obtain ⟨reached, hreached, found, hfound, hgenerator⟩ := exists_file_of_generatedBy? hloaded hname
      rw [hname] at heq
      exact hagree.no_testMain reached hreached found hfound (heq ▸ hgenerator)
  rw [LoadOptions.acceptsFile, hfilters]
  simpa [Filters.accept] using hgenerated

/-! The index names all that was reached. -/

theorem get?_index_iff (hloaded : program.Loaded) (hpaths : (program.reachedPackages.map (·.path)).Nodup)
    (path : String) (id : PackageId) :
    program.index.get? path = some id ↔ id ∈ program.reached ∧ pathAt? program.packages id = some path := by
  have hnodup : (program.reached.filterMap (pathAt? program.packages)).Nodup := by
    rw [reachedPackages, List.map_filterMap] at hpaths
    exact hpaths
  rw [get?_index hloaded]
  refine ⟨fun hsplit => ?_, fun hreached => ?_⟩
  · obtain ⟨earlier, later, hreached, hpath, _⟩ := hsplit
    exact ⟨by simp [hreached], hpath⟩
  · obtain ⟨hmem, hpath⟩ := hreached
    obtain ⟨earlier, later, hsplit⟩ := List.append_of_mem hmem
    refine ⟨earlier, later, hsplit, hpath, fun other hother hsame => ?_⟩
    -- a later package of the same path would repeat the path
    rw [hsplit, List.filterMap_append, List.filterMap_cons_some hpath] at hnodup
    have hnot := (List.nodup_cons.mp (List.nodup_append.mp hnodup).2.1).1
    exact hnot (List.mem_filterMap.mpr ⟨other, hother, hsame⟩)

theorem mem_values_index_iff (hloaded : program.Loaded) (hpaths : (program.reachedPackages.map (·.path)).Nodup)
    (id : PackageId) : id ∈ program.index.values ↔ id ∈ program.reached := by
  rw [OrderedMap.mem_values_iff]
  simp only [get?_index_iff hloaded hpaths]
  refine ⟨fun hindex => ?_, fun hreached => ?_⟩
  · obtain ⟨_, hreached, _⟩ := hindex
    exact hreached
  · obtain ⟨package, hpackage⟩ := exists_package_of_mem_gather (hloaded.reached_eq ▸ hreached)
    exact ⟨package.path, hreached, Option.map_eq_some_iff.mpr ⟨package, hpackage, rfl⟩⟩

/-! A traversal follows the tables of imports. -/

theorem exists_unit_of_mem_files (program : Program) {package : Package} {file : SourceFile}
    (h : file ∈ package.files) : ∃ unit ∈ program.unitsOf package, unit.file = file := by
  obtain ⟨place, hplace⟩ := List.mem_iff_getElem?.mp h
  exact ⟨_, List.mem_map.mpr ⟨(file, place), List.mk_mem_zipIdx_iff_getElem?.mpr hplace, rfl⟩, rfl⟩

theorem mem_reached_of_imports (hloaded : program.Loaded) (hdependencies : program.options.dependencies = true)
    {source target : PackageId} (hsource : source ∈ program.reached)
    (himports : Imports program.packages source target) : target ∈ program.reached := by
  rw [mem_reached hloaded] at hsource ⊢
  obtain ⟨root, hroot, hpath⟩ := hsource
  exact ⟨root, hroot, hpath.tail ⟨hdependencies, himports⟩⟩

/-- An import in the table of a reached package is one that a full traversal follows. -/
theorem follows_of_imports (hloaded : program.Loaded) (hagree : program.ImportsAgree)
    (hdependencies : program.options.dependencies = true) (hfilters : program.options.fileFilters = [])
    {source target : PackageId} (hsource : source ∈ program.reached)
    (himports : Imports program.packages source target) : program.Follows (fun _ => true) source target := by
  have htarget := mem_reached_of_imports hloaded hdependencies hsource himports
  obtain ⟨package, hpackage, hvalue⟩ := himports
  obtain ⟨e, he, rfl⟩ := List.mem_map.mp hvalue
  have hreached : package ∈ program.reachedPackages := List.mem_filterMap.mpr ⟨source, hsource, hpackage⟩
  obtain ⟨file, hfile, i, hi, hliteral⟩ := hagree.import_literal package hreached e he
  obtain ⟨unit, hunit, rfl⟩ := program.exists_unit_of_mem_files hfile
  have hindex : program.index.get? e.1 = some e.2 :=
    (get?_index_iff hloaded hagree.distinct_paths e.1 e.2).mpr ⟨htarget, hagree.import_path package hreached e he⟩
  exact ⟨package, hpackage, rfl, unit, hunit, acceptsFile_of_importsAgree hloaded hagree hfilters hunit, i, hi, e.1,
    hliteral, hindex⟩

/-! The two walks come to the same packages. -/

theorem exists_acceptedRoot (hprogram : program.Consistent) (hfilters : program.options.packageFilters = [])
    {root : PackageId} (hroot : root ∈ program.roots) : ∃ package ∈ program.acceptedRoots, package.id = root := by
  obtain ⟨package, hpackage⟩ := exists_package_of_mem ((mem_packageIds _ _).mpr (hprogram.root_lt root hroot))
  obtain rfl := hprogram.id_eq hpackage
  refine ⟨package, (mem_acceptedRoots hprogram package).mpr ⟨hroot, hpackage, ?_⟩, rfl⟩
  rw [LoadOptions.acceptsPackage, hfilters]
  rfl

/-- A full traversal comes to exactly the indexed packages. -/
theorem reachable_iff_mem_index (hloaded : program.Loaded) (hagree : program.ImportsAgree)
    (hdependencies : program.options.dependencies = true)
    (hpackages : program.options.packageFilters = []) (hfiles : program.options.fileFilters = []) (id : PackageId) :
    program.Reachable (fun _ => true) id ↔ id ∈ program.index.values := by
  refine ⟨fun hreachable => ?_, fun hindexed => ?_⟩
  · obtain ⟨root, hroot, hpath⟩ := hreachable
    cases hpath with
    | refl =>
      rw [mem_values_index_iff hloaded hagree.distinct_paths, mem_reached hloaded]
      exact ⟨root.id, ((mem_acceptedRoots hloaded.toConsistent root).mp hroot).1, Relation.ReflTransGen.refl⟩
    | tail _ hfollows =>
      obtain ⟨_, _, _, _, _, _, _, _, path, _, hindex⟩ := hfollows
      exact (program.index.mem_values_iff id).mpr ⟨path, hindex⟩
  · have hreached := (mem_values_index_iff hloaded hagree.distinct_paths id).mp hindexed
    obtain ⟨root, hroot, hpath⟩ := (mem_reached hloaded id).mp hreached
    obtain ⟨package, haccepted, rfl⟩ := exists_acceptedRoot hloaded.toConsistent hpackages hroot
    refine ⟨package, haccepted, ?_⟩
    -- every package on the way from the root is reached, so each import on it is followed
    clear hindexed hreached
    induction hpath with
    | refl => exact Relation.ReflTransGen.refl
    | tail hbefore hloads ih =>
      have hsource := (mem_reached hloaded _).mpr ⟨_, hroot, hbefore⟩
      exact ih.tail (follows_of_imports hloaded hagree hdependencies hfiles hsource hloads.2)

/-- If imports are loaded, nothing is filtered out and the tables of imports say what the packages and
    files say, a full traversal visits exactly the indexed packages. So a use of a symbol in an indexed
    package is listed under each definition of the symbol in an indexed package. -/
theorem visitPackages_covers_index {host : Host} {directory : String} {options : LoadOptions} {frontEnd : FrontEnd}
    {program : Program} (h : (load host directory options frontEnd).outcome = .ok program)
    (hdependencies : options.dependencies = true) (hpackages : options.packageFilters = [])
    (hfiles : options.fileFilters = []) (hagree : program.ImportsAgree) :
    (∀ id, (.enter id ∈ program.visitPackages (fun _ => true) ↔ id ∈ program.index.values) ∧
      (.leave id ∈ program.visitPackages (fun _ => true) ↔ id ∈ program.index.values)) ∧
    ∀ definer ∈ program.indexedPackages, ∀ user ∈ program.indexedPackages, ∀ definition use symbol,
      definer.definitions.get? definition = some (some symbol) → user.uses.get? use = some symbol →
        program.ListsUse definition use := by
  have hprogram := consistent_of_load h
  rw [← options_of_load h] at hdependencies hpackages hfiles
  have hiff := reachable_iff_mem_index (loaded_of_load h) hagree hdependencies hpackages hfiles
  refine ⟨fun id => ⟨?_, ?_⟩, ?_⟩
  · rw [← hiff, boundary_mem_iff hprogram _ (Or.inl rfl)]
  · rw [← hiff, boundary_mem_iff hprogram _ (Or.inr rfl)]
  · -- both packages are indexed, so both are visited
    have hvisited : ∀ package ∈ program.indexedPackages, package ∈ program.postOrder := by
      intro package hpackage
      obtain ⟨id, hid, hfound⟩ := List.mem_filterMap.mp hpackage
      rw [mem_postOrder hprogram, leave_mem_iff hprogram, hprogram.id_eq hfound]
      exact ⟨hfound, (hiff id).mpr hid⟩
    intro definer hdefiner user huser definition use symbol hdefinition huse
    rw [listsUse_iff, mem_usesAt]
    exact ⟨definer, hvisited definer hdefiner, symbol, hdefinition,
      (mem_usesOf _ _ _).mpr ⟨user, hvisited user huser, huse⟩⟩

theorem reachedPackages_crossProgram : crossProgram.reachedPackages = [definerPackage, userPackage] := by
  have hreached : crossProgram.reached = [⟨1⟩, ⟨0⟩] := by cbv
  rw [reachedPackages, hreached]
  rfl

theorem importsAgree_crossProgram : crossProgram.ImportsAgree := by
  refine ⟨?_, ?_, ?_, ?_⟩ <;> rw [reachedPackages_crossProgram]
  · decide
  · decide
  · decide
  · exact of_decide_eq_true (by cbv)

theorem visitPackages_covers_index_crossProgram :
    crossProgram.ImportsAgree ∧ (.leave ⟨1⟩ ∈ crossProgram.visitPackages fun _ => true) ∧
    crossProgram.ListsUse ⟨⟨1⟩, 0⟩ ⟨⟨0⟩, 0⟩ := by
  have hvalues : crossProgram.index.values = [⟨1⟩, ⟨0⟩] := by cbv
  have hindexed : crossProgram.indexedPackages = [definerPackage, userPackage] := by
    rw [indexedPackages, hvalues]
    rfl
  obtain ⟨hvisits, huses⟩ :=
    visitPackages_covers_index load_crossFindings rfl rfl rfl importsAgree_crossProgram
  refine ⟨importsAgree_crossProgram, (hvisits ⟨1⟩).2.mpr ?_,
    huses definerPackage ?_ userPackage ?_ ⟨⟨1⟩, 0⟩ ⟨⟨0⟩, 0⟩ ⟨0⟩ rfl rfl⟩
  · rw [hvalues]
    decide
  · simp [hindexed]
  · simp [hindexed]

end ProgramIndex.Program
