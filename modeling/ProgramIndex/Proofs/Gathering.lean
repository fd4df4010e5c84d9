import Mathlib
import ProgramIndex.Proofs.Loaded
import ProgramIndex.Proofs.Walk

/- Which packages a load reaches, in which order, and which of them its index names. A package imports
   those that its table of imports names (`Imports`); a load follows them if it is told to (`Loads`).
   What is gathered is what the roots lead to, each package once (`mem_gather`, `nodup_gather`), and a
   package comes after one that it imports unless that leads back (`sublist_gather_of_loads`).
   `ofFindings_reaches_and_indexes` says this of a load, and that the index has the paths of the reached
   packages in the order in which they come first, each with the last package of that path. -/
namespace ProgramIndex

/-- One package has another one in its table of imports. -/
def Imports (packages : List Package) (source target : PackageId) : Prop :=
  ∃ package, packages[source.index]? = some package ∧ target ∈ package.imports.values

/-- An import is followed when packages are gathered. -/
def Loads (packages : List Package) (dependencies : Bool) (source target : PackageId) : Prop :=
  dependencies = true ∧ Imports packages source target

/-- The path of the package with a given number. -/
def pathAt? (packages : List Package) (id : PackageId) : Option String := packages[id.index]?.map (·.path)

theorem loads_true (packages : List Package) : Loads packages true = Imports packages := by
  funext source target
  simp [Loads]

theorem reflTransGen_loads_false (packages : List Package) (source target : PackageId) :
    Relation.ReflTransGen (Loads packages false) source target ↔ source = target := by
  refine ⟨fun h => ?_, fun h => h ▸ Relation.ReflTransGen.refl⟩
  cases h with
  | refl => rfl
  | tail _ hloads => exact absurd hloads.1 (by decide)

/-! What a visit does when packages are gathered. -/

section Gather
variable {packages : List Package} {dependencies : Bool} {roots : List PackageId}

theorem gatherScript_of_package {id : PackageId} {package : Package}
    (h : packages[id.index]? = some package) :
    gatherScript packages dependencies id =
      (if dependencies then package.sortedImports.map .visit else []) ++ [.report id] := by
  rw [gatherScript, h]

theorem exists_gatherScript_eq {id : PackageId} (h : id ∈ packageIds packages.length) :
    ∃ body, gatherScript packages dependencies id = body ++ [.report id] := by
  have hlt := (mem_packageIds _ _).mp h
  exact ⟨_, gatherScript_of_package (List.getElem?_eq_getElem hlt)⟩

theorem mem_sortedImports (package : Package) (target : PackageId) :
    target ∈ package.sortedImports ↔ target ∈ package.imports.values :=
  (package.imports.perm_entriesByKey.map Prod.snd).mem_iff

theorem report_mem_gatherScript {id other : PackageId} (h : .report other ∈ gatherScript packages dependencies id) :
    other = id := by
  cases hpackage : packages[id.index]? with
  | none => simp [gatherScript, hpackage] at h
  | some package =>
    rw [gatherScript_of_package hpackage] at h
    cases dependencies <;> simpa using h

theorem count_gatherScript {id : PackageId} (h : id ∈ packageIds packages.length) :
    (gatherScript packages dependencies id).count (.report id) = 1 := by
  have hlt := (mem_packageIds _ _).mp h
  have himports : ∀ targets : List PackageId, (targets.map Step.visit).count (.report id) = 0 := by
    intro targets
    apply List.count_eq_zero.mpr
    simp
  rw [gatherScript_of_package (List.getElem?_eq_getElem hlt), List.count_append]
  cases dependencies <;> simp [himports]

theorem announces_gatherScript (id : PackageId) :
    Walk.Announces (packageIds packages.length) (gatherScript packages dependencies) id id :=
  ⟨fun _ _ hne hreport => hne (report_mem_gatherScript hreport).symm, count_gatherScript⟩

/-! What is gathered. -/

theorem report_not_mem_roots (roots : List PackageId) (id : PackageId) :
    .report id ∉ roots.map (Step.visit : PackageId → Step PackageId PackageId) := by
  simp

theorem mem_gather_iff_enters (id : PackageId) :
    id ∈ gather packages dependencies roots ↔
      Walk.Enters (packageIds packages.length) (gatherScript packages dependencies) (roots.map .visit) [] id :=
  (announces_gatherScript id).mem_events_iff (report_not_mem_roots roots id)

theorem nodup_gather (packages : List Package) (dependencies : Bool) (roots : List PackageId) :
    (gather packages dependencies roots).Nodup := by
  apply List.nodup_iff_count.mpr
  intro id
  rw [gather, (announces_gatherScript id).count_events_eq (report_not_mem_roots roots id)]
  split <;> omega

theorem exists_package_of_mem_gather {id : PackageId} (h : id ∈ gather packages dependencies roots) :
    ∃ package, packages[id.index]? = some package := by
  have hlt := (mem_packageIds _ _).mp ((mem_gather_iff_enters id).mp h).mem_nodes
  exact ⟨_, List.getElem?_eq_getElem hlt⟩

theorem visit_mem_gatherScript (source target : PackageId) :
    .visit target ∈ gatherScript packages dependencies source ↔ Loads packages dependencies source target := by
  cases hsource : packages[source.index]? with
  | none => simp [Loads, Imports, gatherScript, hsource]
  | some package =>
    rw [gatherScript_of_package hsource]
    cases dependencies with
    | false => simp [Loads]
    | true =>
      simp only [Loads, Imports, hsource, Option.some.injEq, exists_eq_left', true_and, if_true,
        List.mem_append, List.mem_map, Step.visit.injEq, exists_eq_right, mem_sortedImports,
        List.mem_singleton, reduceCtorEq, or_false]

variable (himports : ∀ package ∈ packages, ∀ e ∈ package.imports.entries, e.2.index < packages.length)

include himports

theorem mem_packageIds_of_loads {source target : PackageId} (h : Loads packages dependencies source target) :
    target ∈ packageIds packages.length := by
  obtain ⟨_, package, hsource, htarget⟩ := h
  obtain ⟨e, he, rfl⟩ := List.mem_map.mp htarget
  exact (mem_packageIds _ _).mpr (himports package (List.mem_of_getElem? hsource) e he)

theorem leads_gatherScript :
    Walk.Leads (packageIds packages.length) (gatherScript packages dependencies) = Loads packages dependencies := by
  funext source target
  rw [Walk.Leads, visit_mem_gatherScript]
  exact propext ⟨fun h => h.2, fun h => ⟨mem_packageIds_of_loads himports h, h⟩⟩

/-- What is gathered is what the roots lead to. -/
theorem mem_gather (hroots : ∀ root ∈ roots, root.index < packages.length) (id : PackageId) :
    id ∈ gather packages dependencies roots ↔
      ∃ root ∈ roots, Relation.ReflTransGen (Loads packages dependencies) root id := by
  rw [mem_gather_iff_enters, Walk.enters_iff_reaches, Walk.Reaches, leads_gatherScript himports]
  refine exists_congr fun root => ?_
  simp only [List.mem_map, Step.visit.injEq, exists_eq_right]
  exact ⟨fun h => h.2, fun h => ⟨(mem_packageIds _ _).mpr (hroots root h.1), h⟩⟩

/-- A package is gathered after one that it imports, unless the import leads back. -/
theorem sublist_gather_of_loads {source target : PackageId} (hsource : source ∈ gather packages dependencies roots)
    (hloads : Loads packages dependencies source target)
    (hback : ¬ Relation.ReflTransGen (Loads packages dependencies) target source) :
    [target, source].Sublist (gather packages dependencies roots) := by
  rw [← leads_gatherScript himports] at hloads hback
  have henters := (mem_gather_iff_enters source).mp hsource
  rcases henters.precedes_of_leads (fun id hid => exists_gatherScript_eq hid) hloads with hseen | hcycle | hsub
  · simp at hseen
  · exact absurd hcycle hback
  · exact hsub

end Gather

/-! What a loaded program has reached, and what its index names. -/

namespace Program
variable {program : Program}

theorem mem_reached (hloaded : program.Loaded) (id : PackageId) :
    id ∈ program.reached ↔ ∃ root ∈ program.roots,
      Relation.ReflTransGen (Loads program.packages program.options.dependencies) root id := by
  rw [hloaded.reached_eq]
  exact mem_gather hloaded.import_lt hloaded.root_lt id

theorem index_eq_ofList (hloaded : program.Loaded) :
    program.index =
      .ofList (program.reached.filterMap fun id => (pathAt? program.packages id).map fun path => (path, id)) := by
  rw [hloaded.index_eq, indexByPath, reachedPackages, List.map_filterMap]
  congr 2
  funext id
  rw [pathAt?, Option.map_map]
  cases hpackage : program.package? id with
  | none =>
    rw [package?] at hpackage
    rw [hpackage]
    rfl
  | some package =>
    have hid := hloaded.id_eq hpackage
    rw [package?] at hpackage
    rw [hpackage, Option.map_some, Option.map_some, hid]
    rfl

theorem keys_index (hloaded : program.Loaded) :
    program.index.keys = (program.reached.filterMap (pathAt? program.packages)).eraseDups := by
  rw [index_eq_ofList hloaded, OrderedMap.keys_ofList, List.map_filterMap]
  simp only [Option.map_map, Function.comp_def, Option.map_id']

/-- A path stands for the last reached package of that path. -/
theorem get?_index (hloaded : program.Loaded) (path : String) (id : PackageId) :
    program.index.get? path = some id ↔
      ∃ earlier later, program.reached = earlier ++ id :: later ∧ pathAt? program.packages id = some path ∧
        ∀ other ∈ later, pathAt? program.packages other ≠ some path := by
  rw [index_eq_ofList hloaded, OrderedMap.get?_ofList_eq_some_iff]
  refine ⟨fun h => ?_, fun h => ?_⟩
  · obtain ⟨earlier, later, hentries, hlater⟩ := h
    obtain ⟨before, rest, hreached, _, hrest⟩ := List.filterMap_eq_append_iff.mp hentries
    obtain ⟨skipped, other, after, hsplit, _, hother, hafter⟩ := List.filterMap_eq_cons_iff.mp hrest
    obtain ⟨path', hpath, heq⟩ := Option.map_eq_some_iff.mp hother
    obtain ⟨rfl, rfl⟩ := Prod.mk.inj heq
    refine ⟨before ++ skipped, after, by rw [hreached, hsplit, List.append_assoc], hpath, fun x hx hxpath => ?_⟩
    have hmem : (path', x) ∈ later := by
      rw [← hafter]
      exact List.mem_filterMap.mpr ⟨x, hx, by rw [hxpath]; rfl⟩
    exact hlater _ hmem rfl
  · obtain ⟨earlier, later, hreached, hpath, hlater⟩ := h
    rw [hreached]
    refine ⟨_, _, by rw [List.filterMap_append, List.filterMap_cons_some (by rw [hpath]; rfl)], fun e he => ?_⟩
    obtain ⟨x, hx, hentry⟩ := List.mem_filterMap.mp he
    obtain ⟨path', hpath', rfl⟩ := Option.map_eq_some_iff.mp hentry
    intro heq
    exact hlater x hx (heq ▸ hpath')

end Program

/-! What is made of findings. -/

theorem pathAt?_numbered (packages : List Package) : pathAt? (numbered packages) = pathAt? packages := by
  funext id
  rw [pathAt?, pathAt?, getElem?_numbered, Option.map_map]
  rfl

theorem imports_numbered (packages : List Package) : Imports (numbered packages) = Imports packages := by
  funext source target
  simp only [Imports, getElem?_numbered, Option.map_eq_some_iff]
  apply propext
  refine ⟨fun h => ?_, fun h => ?_⟩
  · obtain ⟨_, ⟨package, hpackage, rfl⟩, htarget⟩ := h
    exact ⟨package, hpackage, htarget⟩
  · obtain ⟨package, hpackage, htarget⟩ := h
    exact ⟨_, ⟨package, hpackage, rfl⟩, htarget⟩

/-- From findings without a fault a load reaches the roots and, if imports are loaded, whatever they
    lead to, each package once and after what it imports, unless the import leads back. The index has
    the paths of the reached packages in the order in which they come first; each path stands for the last
    package that has it. -/
theorem ofFindings_reaches_and_indexes (options : LoadOptions) (directory : String) {findings : Findings}
    (h : findings.fault? = none) :
    let program := Program.ofFindings options directory findings
    program.reached.Nodup ∧
    (options.dependencies = true → ∀ id, id ∈ program.reached ↔
      ∃ root ∈ findings.roots, Relation.ReflTransGen (Imports findings.packages) root id) ∧
    (options.dependencies = false → ∀ id, id ∈ program.reached ↔ id ∈ findings.roots) ∧
    (options.dependencies = true → ∀ source target, source ∈ program.reached →
      Imports findings.packages source target →
      ¬ Relation.ReflTransGen (Imports findings.packages) target source →
      [target, source].Sublist program.reached) ∧
    program.index.keys = (program.reached.filterMap (pathAt? findings.packages)).eraseDups ∧
    (∀ path id, program.index.get? path = some id ↔
      ∃ earlier later, program.reached = earlier ++ id :: later ∧ pathAt? findings.packages id = some path ∧
        ∀ other ∈ later, pathAt? findings.packages other ≠ some path) := by
  intro program
  have hloaded : program.Loaded := Program.loaded_ofFindings options directory h
  have hpath : pathAt? program.packages = pathAt? findings.packages := pathAt?_numbered findings.packages
  have hmem : ∀ id, id ∈ program.reached ↔ ∃ root ∈ findings.roots,
      Relation.ReflTransGen (Loads program.packages options.dependencies) root id := Program.mem_reached hloaded
  have hloads : options.dependencies = true →
      Loads program.packages options.dependencies = Imports findings.packages := by
    intro hdependencies
    rw [hdependencies, loads_true]
    exact imports_numbered findings.packages
  refine ⟨nodup_gather _ _ _, fun hdependencies id => ?_, fun hdependencies id => ?_, fun hdependencies => ?_,
    ?_, ?_⟩
  · rw [hmem, hloads hdependencies]
  · rw [hmem, hdependencies]
    simp only [reflTransGen_loads_false, exists_eq_right]
  · intro source target hsource himports hback
    rw [← hloads hdependencies] at himports hback
    exact sublist_gather_of_loads hloaded.import_lt hsource himports hback
  · rw [← hpath]
    exact Program.keys_index hloaded
  · rw [← hpath]
    exact Program.get?_index hloaded

/-- Two packages that import each other, a package that one of them imports and a test variant of
    that one. The first package is asked for twice. -/
def variantFindings : Findings where
  packages :=
    [{ key := "a", path := "a", name := "a", imports := .ofList [("b", ⟨1⟩)] },
     { key := "b", path := "b", name := "b", imports := .ofList [("c", ⟨2⟩), ("a", ⟨0⟩)] },
     { key := "c", path := "c", name := "c" },
     { key := "c.test", path := "c", name := "c", imports := .ofList [("c", ⟨2⟩)] }]
  roots := [⟨0⟩, ⟨0⟩, ⟨3⟩]

/-- The imported package comes before the two that import each other, and its test variant, which comes
    last, takes its place in the index. -/
theorem reaches_and_indexes_variantFindings :
    let program := Program.ofFindings { dependencies := true } "/" variantFindings
    variantFindings.fault? = none ∧ program.reached.Nodup ∧ [⟨2⟩, ⟨1⟩].Sublist program.reached ∧
    program.index.keys = ["c", "b", "a"] ∧ program.index.get? "c" = some ⟨3⟩ := by
  intro program
  have hfault : variantFindings.fault? = none := by decide
  have hreached : program.reached = [⟨2⟩, ⟨1⟩, ⟨0⟩, ⟨3⟩] := by cbv
  have himports : Imports variantFindings.packages ⟨1⟩ ⟨2⟩ := ⟨_, rfl, by decide⟩
  have hback : ¬ Relation.ReflTransGen (Imports variantFindings.packages) ⟨2⟩ ⟨1⟩ := by
    intro hpath
    rcases hpath.cases_head with heq | ⟨_, ⟨package, hpackage, htarget⟩, _⟩
    · exact absurd heq (by decide)
    · cases hpackage
      exact absurd htarget List.not_mem_nil
  obtain ⟨hnodup, _, _, horder, hkeys, hindex⟩ :=
    ofFindings_reaches_and_indexes { dependencies := true } "/" hfault
  refine ⟨hfault, hnodup, horder rfl ⟨1⟩ ⟨2⟩ ?_ himports hback, ?_, ?_⟩
  · rw [hreached]
    decide
  · rw [hkeys, hreached]
    decide
  · exact (hindex "c" ⟨3⟩).mpr ⟨[⟨2⟩, ⟨1⟩, ⟨0⟩], [], hreached, rfl, by simp⟩

end ProgramIndex
