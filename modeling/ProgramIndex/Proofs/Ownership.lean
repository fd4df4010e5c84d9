import ProgramIndex.Proofs.DefinitionUse
import ProgramIndex.Proofs.Traversal

/- Who owns an occurrence, and what the owner says about it. If every file is listed once and every
   package records only occurrences in its own files (`OwnTables`), an occurrence that a package records
   is owned by that package (`packageOf?_of_mem_files`), and the package gives the symbol that it
   records there. `listsUse_iff_owners_agree` says that a use is listed under a definition exactly if
   both owners are visited and give the same symbol, and that no use is listed twice. -/
namespace ProgramIndex

/-- A concatenation repeats nothing if no part does and each element tells the part that it stands in. -/
theorem nodup_flatMap_of_owner {α β : Type} {parts : List α} {elements : α → List β} (owner : β → Option α)
    (hparts : parts.Nodup) (helements : ∀ a ∈ parts, (elements a).Nodup)
    (howner : ∀ a ∈ parts, ∀ b ∈ elements a, owner b = some a) : (parts.flatMap elements).Nodup := by
  refine List.nodup_flatMap.mpr ⟨helements, hparts.pairwise_of_forall_ne ?_⟩
  intro a ha a' ha' hne b hb hb'
  have heq : some a = some a' := (howner a ha b hb).symm.trans (howner a' ha' b hb')
  exact hne (Option.some.inj heq)

/-! The owner of a file. -/

theorem get?_ownersByFile (packages : List Package) (file : FileId) :
    (ownersByFile packages).get? file = ((listings packages).find? fun l => l.1 = file).map Prod.snd := by
  rw [ownersByFile, OrderedMap.get?_foldl_insertIfNew, OrderedMap.get?_empty, Option.none_or]

theorem map_file_listings (packages : List Package) :
    (listings packages).map Prod.fst = (packages.flatMap (·.files)).map (·.file) := by
  simp only [listings, List.map_flatMap, List.map_map]
  congr 1
  funext package
  conv => rhs; rw [← List.zipIdx_map_fst 0 package.files, List.map_map]
  rfl

theorem get?_ownersByFile_of_mem {packages : List Package}
    (hdistinct : ((packages.flatMap (·.files)).map (·.file)).Nodup) {file : FileId} {owner : PackageId × Nat}
    (h : (file, owner) ∈ listings packages) : (ownersByFile packages).get? file = some owner := by
  rw [← map_file_listings] at hdistinct
  exact (OrderedMap.get?_foldl_insertIfNew_iff Prod.fst Prod.snd hdistinct file owner).mpr ⟨_, h, rfl, rfl⟩

namespace Program

/-- Every file is listed once. A package records occurrences in its own files only, and none of them
    both as a definition and as a use. -/
structure OwnTables (program : Program) : Prop where
  distinct_files : ((program.packages.flatMap (·.files)).map (·.file)).Nodup
  own_files : ∀ package ∈ program.packages, ∀ occurrence ∈ package.definitions.keys ++ package.uses.keys,
    occurrence.file ∈ package.files.map (·.file)
  disjoint : ∀ package ∈ program.packages, ∀ occurrence ∈ package.definitions.keys,
    occurrence ∉ package.uses.keys

variable {program : Program}

/-- An occurrence in a file of a package is owned by that package. -/
theorem packageOf?_of_mem_files (hloaded : program.Loaded)
    (hown : program.OwnTables) {package : Package} (hpackage : program.package? package.id = some package)
    {occurrence : Occurrence} (hfile : occurrence.file ∈ package.files.map (·.file)) :
    program.packageOf? occurrence = some package := by
  obtain ⟨file, hmem, hfile⟩ := List.mem_map.mp hfile
  obtain ⟨place, hplace⟩ := List.mem_iff_getElem?.mp hmem
  have hlisted : (file.file, package.id, place) ∈ listings program.packages := by
    refine List.mem_flatMap.mpr ⟨package, List.mem_of_getElem? hpackage, List.mem_map.mpr ?_⟩
    exact ⟨(file, place), List.mk_mem_zipIdx_iff_getElem?.mpr hplace, rfl⟩
  rw [packageOf?, hloaded.owners_eq, ← hfile, get?_ownersByFile_of_mem hown.distinct_files hlisted]
  exact hpackage

theorem package?_of_packageOf? (hprogram : program.Consistent) {occurrence : Occurrence} {package : Package}
    (h : program.packageOf? occurrence = some package) : program.package? package.id = some package := by
  obtain ⟨owner, _, hpackage⟩ := Option.bind_eq_some_iff.mp h
  rw [hprogram.id_eq hpackage]
  exact hpackage

/-! What visited packages record. -/

theorem packageOf?_of_recorded (hloaded : program.Loaded) (hown : program.OwnTables) {package : Package}
    (hpackage : package ∈ program.postOrder) {occurrence : Occurrence}
    (hkey : occurrence ∈ package.definitions.keys ++ package.uses.keys) :
    program.packageOf? occurrence = some package := by
  have hfound := ((mem_postOrder hloaded.toConsistent package).mp hpackage).1
  exact packageOf?_of_mem_files hloaded hown hfound (hown.own_files package (List.mem_of_getElem? hfound) _ hkey)

theorem symbolAt?_eq_some_iff_definition {package : Package} {occurrence : Occurrence}
    (hkey : occurrence ∈ package.definitions.keys) (symbol : SymbolId) :
    package.symbolAt? occurrence = some symbol ↔ package.definitions.get? occurrence = some (some symbol) := by
  obtain ⟨recorded, hrecorded⟩ := (package.definitions.mem_keys_iff occurrence).mp hkey
  rw [Package.symbolAt?, hrecorded]
  simp

theorem symbolAt?_of_use (hown : program.OwnTables) {package : Package} (hpackage : package ∈ program.packages)
    {occurrence : Occurrence} (hkey : occurrence ∈ package.uses.keys) :
    package.symbolAt? occurrence = package.uses.get? occurrence := by
  have hnone : package.definitions.get? occurrence = none := by
    rw [OrderedMap.get?_eq_none_iff]
    exact fun hdefinition => hown.disjoint package hpackage occurrence hdefinition hkey
  rw [Package.symbolAt?, hnone]

theorem records_definition_iff (hloaded : program.Loaded) (hown : program.OwnTables) (package : Package)
    (definition : Occurrence) (symbol : SymbolId) :
    package ∈ program.postOrder ∧ package.definitions.get? definition = some (some symbol) ↔
      program.packageOf? definition = some package ∧
        (.leave package.id ∈ program.visitPackages fun _ => true) ∧
        definition ∈ package.definitions.keys ∧ package.symbolAt? definition = some symbol := by
  have hprogram := hloaded.toConsistent
  refine ⟨fun h => ?_, fun h => ?_⟩
  · have hkey := (package.definitions.mem_keys_iff definition).mpr ⟨_, h.2⟩
    exact ⟨packageOf?_of_recorded hloaded hown h.1 (List.mem_append_left _ hkey),
      ((mem_postOrder hprogram package).mp h.1).2, hkey, (symbolAt?_eq_some_iff_definition hkey symbol).mpr h.2⟩
  · obtain ⟨howner, hvisited, hkey, hsymbol⟩ := h
    exact ⟨(mem_postOrder hprogram package).mpr ⟨package?_of_packageOf? hprogram howner, hvisited⟩,
      (symbolAt?_eq_some_iff_definition hkey symbol).mp hsymbol⟩

theorem records_use_iff (hloaded : program.Loaded) (hown : program.OwnTables) (package : Package)
    (use : Occurrence) (symbol : SymbolId) :
    package ∈ program.postOrder ∧ package.uses.get? use = some symbol ↔
      program.packageOf? use = some package ∧ (.leave package.id ∈ program.visitPackages fun _ => true) ∧
        use ∈ package.uses.keys ∧ package.symbolAt? use = some symbol := by
  have hprogram := hloaded.toConsistent
  refine ⟨fun h => ?_, fun h => ?_⟩
  · have hkey := (package.uses.mem_keys_iff use).mpr ⟨_, h.2⟩
    obtain ⟨hfound, hvisited⟩ := (mem_postOrder hprogram package).mp h.1
    refine ⟨packageOf?_of_recorded hloaded hown h.1 (List.mem_append_right _ hkey), hvisited, hkey, ?_⟩
    rw [symbolAt?_of_use hown (List.mem_of_getElem? hfound) hkey]
    exact h.2
  · obtain ⟨howner, hvisited, hkey, hsymbol⟩ := h
    have hfound := package?_of_packageOf? hprogram howner
    rw [symbolAt?_of_use hown (List.mem_of_getElem? hfound) hkey] at hsymbol
    exact ⟨(mem_postOrder hprogram package).mpr ⟨hfound, hvisited⟩, hsymbol⟩

/-! No use is listed twice. -/

theorem nodup_usesOf (hloaded : program.Loaded) (hown : program.OwnTables) (symbol : SymbolId) :
    (usesOf program.postOrder symbol).Nodup := by
  apply nodup_flatMap_of_owner program.packageOf? (nodup_postOrder hloaded.toConsistent)
  · intro package _
    exact package.uses.nodup_keys.sublist (List.filter_sublist.map Prod.fst)
  · intro package hpackage use huse
    have hkey := (List.filter_sublist.map Prod.fst).subset huse
    exact packageOf?_of_recorded hloaded hown hpackage (List.mem_append_right _ hkey)

theorem nodup_usesAt (hloaded : program.Loaded) (hown : program.OwnTables) (definition : Occurrence) :
    (usesAt program.postOrder definition).Nodup := by
  apply nodup_flatMap_of_owner (fun _ => program.packageOf? definition) (nodup_postOrder hloaded.toConsistent)
  · intro package _
    split
    · exact nodup_usesOf hloaded hown _
    · exact List.nodup_nil
  · intro package hpackage use huse
    split at huse
    · next symbol hsymbol =>
      have hkey := (package.definitions.mem_keys_iff definition).mpr ⟨_, hsymbol⟩
      exact packageOf?_of_recorded hloaded hown hpackage (List.mem_append_left _ hkey)
    · simp at huse

/-- If every file is listed once and packages record only occurrences in their own files, each in one
    table, then a use is listed under a definition exactly if the owners of the two are visited, one
    records the definition and the other the use, and both give the same symbol. No list has a use
    twice. -/
theorem listsUse_iff_owners_agree {host : Host} {directory : String} {options : LoadOptions} {frontEnd : FrontEnd}
    {program : Program} (h : (load host directory options frontEnd).outcome = .ok program) (hown : program.OwnTables) :
    (∀ definition use, program.ListsUse definition use ↔
      ∃ definer user, program.packageOf? definition = some definer ∧ program.packageOf? use = some user ∧
        (.leave definer.id ∈ program.visitPackages fun _ => true) ∧
        (.leave user.id ∈ program.visitPackages fun _ => true) ∧
        definition ∈ definer.definitions.keys ∧ use ∈ user.uses.keys ∧
        ∃ symbol, definer.symbolAt? definition = some symbol ∧ user.symbolAt? use = some symbol) ∧
    ∀ definition uses, program.definitionUses.get? definition = some uses → uses.Nodup := by
  have hloaded := loaded_of_load h
  refine ⟨fun definition use => ?_, fun definition uses huses => ?_⟩
  · rw [listsUse_iff, mem_usesAt]
    simp only [mem_usesOf]
    refine ⟨fun hlisted => ?_, fun hagree => ?_⟩
    · obtain ⟨definer, hdefiner, symbol, hdefinition, user, huser, huse⟩ := hlisted
      obtain ⟨hdefowner, hdefvisited, hdefkey, hdefsymbol⟩ :=
        (records_definition_iff hloaded hown definer definition symbol).mp ⟨hdefiner, hdefinition⟩
      obtain ⟨huseowner, husevisited, husekey, husesymbol⟩ :=
        (records_use_iff hloaded hown user use symbol).mp ⟨huser, huse⟩
      exact ⟨definer, user, hdefowner, huseowner, hdefvisited, husevisited, hdefkey, husekey, symbol, hdefsymbol,
        husesymbol⟩
    · obtain ⟨definer, user, hdefowner, huseowner, hdefvisited, husevisited, hdefkey, husekey, symbol, hdefsymbol,
        husesymbol⟩ := hagree
      obtain ⟨hdefiner, hdefinition⟩ := (records_definition_iff hloaded hown definer definition symbol).mpr
        ⟨hdefowner, hdefvisited, hdefkey, hdefsymbol⟩
      obtain ⟨huser, huse⟩ := (records_use_iff hloaded hown user use symbol).mpr
        ⟨huseowner, husevisited, husekey, husesymbol⟩
      exact ⟨definer, hdefiner, symbol, hdefinition, user, huser, huse⟩
  · rw [program.get?_definitionUses huses]
    exact nodup_usesAt hloaded hown definition

theorem ownTables_crossProgram : crossProgram.OwnTables := by
  refine ⟨?_, ?_, ?_⟩ <;> decide

theorem listsUse_crossProgram :
    crossProgram.OwnTables ∧ crossProgram.ListsUse ⟨⟨1⟩, 0⟩ ⟨⟨0⟩, 0⟩ ∧
    ¬ crossProgram.ListsUse ⟨⟨1⟩, 1⟩ ⟨⟨0⟩, 0⟩ := by
  have hevents : crossProgram.visitPackages (fun _ => true) =
      [.enter ⟨0⟩, .enter ⟨1⟩, .leave ⟨1⟩, .leave ⟨0⟩] := by cbv
  have hiff := (listsUse_iff_owners_agree load_crossFindings ownTables_crossProgram).1
  refine ⟨ownTables_crossProgram, (hiff _ _).mpr ?_, fun hlisted => ?_⟩
  · refine ⟨definerPackage, userPackage, rfl, rfl, ?_, ?_, by decide, by decide, ⟨0⟩, rfl, rfl⟩
    · rw [hevents]
      decide
    · rw [hevents]
      decide
  · obtain ⟨definer, user, hdefiner, _, _, _, _, _, symbol, hsymbol, _⟩ := (hiff _ _).mp hlisted
    cases hdefiner
    cases hsymbol

end Program

end ProgramIndex
