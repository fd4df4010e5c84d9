import ProgramIndex.Program.Load
import ProgramIndex.Proofs.OrderedMap

/- Loaded programs. A load that succeeds has checked what the front end found (`exists_of_load`), and
   the program that it makes holds together: a package stands at its own number, roots and imports
   name packages, and the index names packages with the path that was looked up
   (`Program.Consistent`, `consistent_of_load`). Its other parts are made from its packages, roots and
   options (`Program.Loaded`, `loaded_of_load`); so the generator that is noted for a file name is that of
   the first reached file of this name (`Program.generatedBy?_eq_find?`). -/
namespace ProgramIndex

/-- How a load that succeeds has come to its program. -/
theorem exists_of_load {host : Host} {directory : String} {options : LoadOptions} {frontEnd : FrontEnd}
    {program : Program} (h : (load host directory options frontEnd).outcome = .ok program) :
    ∃ absolute findings, Directory.absolute? host.workingDirectory directory = some absolute ∧
      frontEnd (options.request absolute) = .ok findings ∧ findings.fault? = none ∧
      program = Program.ofFindings options absolute findings := by
  unfold load at h
  split at h
  · cases h
  · next absolute habsolute =>
    dsimp only at h
    split at h
    · cases h
    · next findings hfindings =>
      split at h
      · cases h
      · next hfault =>
        cases h
        exact ⟨absolute, findings, habsolute, hfindings, hfault, rfl⟩

theorem log_of_load {host : Host} {directory : String} {options : LoadOptions} {frontEnd : FrontEnd}
    {program : Program} (h : (load host directory options frontEnd).outcome = .ok program) :
    (load host directory options frontEnd).log =
      options.loadingEvent program.directory :: program.completionLog host := by
  obtain ⟨absolute, findings, habsolute, hfindings, hfault, rfl⟩ := exists_of_load h
  simp only [load, habsolute, hfindings, hfault]
  rfl

namespace Program

/-- What holds between the parts of a loaded program. -/
structure Consistent (program : Program) : Prop where
  id_eq : ∀ {id package}, program.package? id = some package → package.id = id
  root_lt : ∀ root ∈ program.roots, root.index < program.packages.length
  import_lt : ∀ package ∈ program.packages, ∀ e ∈ package.imports.entries, e.2.index < program.packages.length
  index_package : ∀ {path id}, program.index.get? path = some id →
    ∃ package, program.package? id = some package ∧ package.path = path

theorem consistent_ofFindings (options : LoadOptions) (directory : String) {findings : Findings}
    (h : findings.fault? = none) : (ofFindings options directory findings).Consistent := by
  obtain ⟨hroots, himports⟩ := (Findings.fault?_eq_none_iff findings).mp h
  have hid : ∀ {id : PackageId} {package}, (numbered findings.packages)[id.index]? = some package →
      package.id = id := by
    intro id package hpackage
    rw [getElem?_numbered, Option.map_eq_some_iff] at hpackage
    obtain ⟨found, _, rfl⟩ := hpackage
    rfl
  refine ⟨hid, ?_, ?_, ?_⟩
  · intro root hroot
    show root.index < (numbered findings.packages).length
    rw [length_numbered]
    exact hroots root hroot
  · intro package hpackage e he
    show e.2.index < (numbered findings.packages).length
    rw [length_numbered]
    change package ∈ numbered findings.packages at hpackage
    obtain ⟨place, hplace⟩ := List.mem_iff_getElem?.mp hpackage
    rw [getElem?_numbered, Option.map_eq_some_iff] at hplace
    obtain ⟨found, hfound, rfl⟩ := hplace
    exact himports found (List.mem_of_getElem? hfound) e he
  · intro path id hindex
    have hmem := OrderedMap.mem_of_get?_ofList hindex
    obtain ⟨package, hreached, heq⟩ := List.mem_map.mp hmem
    obtain ⟨rfl, rfl⟩ := Prod.mk.inj heq
    obtain ⟨place, _, hplace⟩ := List.mem_filterMap.mp hreached
    refine ⟨package, ?_, rfl⟩
    rw [hid hplace]
    exact hplace

theorem consistent_of_load {host : Host} {directory : String} {options : LoadOptions} {frontEnd : FrontEnd}
    {program : Program} (h : (load host directory options frontEnd).outcome = .ok program) : program.Consistent := by
  obtain ⟨absolute, findings, _, _, hfault, rfl⟩ := exists_of_load h
  exact consistent_ofFindings options absolute hfault

/-- The packages that were reached. -/
def reachedPackages (program : Program) : List Package := program.reached.filterMap program.package?

/-- The files of the reached packages, package by package. -/
def reachedFiles (program : Program) : List SourceFile := program.reachedPackages.flatMap (·.files)

/-- A program that holds together, and how its parts are made from its packages, roots and options. -/
structure Loaded (program : Program) : Prop extends Consistent program where
  reached_eq : program.reached = gather program.packages program.options.dependencies program.roots
  index_eq : program.index = indexByPath program.reachedPackages
  markers_eq : program.markers = markersByName program.reachedPackages
  owners_eq : program.owners = ownersByFile program.packages

theorem loaded_ofFindings (options : LoadOptions) (directory : String) {findings : Findings}
    (h : findings.fault? = none) : (ofFindings options directory findings).Loaded :=
  ⟨consistent_ofFindings options directory h, rfl, rfl, rfl, rfl⟩

theorem loaded_of_load {host : Host} {directory : String} {options : LoadOptions} {frontEnd : FrontEnd}
    {program : Program} (h : (load host directory options frontEnd).outcome = .ok program) : program.Loaded := by
  obtain ⟨absolute, findings, _, _, hfault, rfl⟩ := exists_of_load h
  exact loaded_ofFindings options absolute hfault

/-- The generator that is noted for a name is that of the first reached file of this name. -/
theorem generatedBy?_eq_find? {program : Program} (hloaded : program.Loaded) (name : String) :
    program.generatedBy? name =
      (program.reachedFiles.find? fun file => file.name = name).bind (·.tree.generator?) := by
  rw [generatedBy?, hloaded.markers_eq, markersByName, OrderedMap.get?_foldl_insertIfNew, OrderedMap.get?_empty,
    Option.none_or, reachedFiles]
  cases (program.reachedPackages.flatMap (·.files)).find? fun file => file.name = name with
  | none => rfl
  | some file => rfl

theorem options_of_load {host : Host} {directory : String} {options : LoadOptions} {frontEnd : FrontEnd}
    {program : Program} (h : (load host directory options frontEnd).outcome = .ok program) :
    program.options = options := by
  obtain ⟨absolute, findings, _, _, _, rfl⟩ := exists_of_load h
  rfl

end Program

end ProgramIndex
