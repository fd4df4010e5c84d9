import ProgramIndex.Proofs.Gathering

/- How a load ends. Findings have at most one first fault: a root that is out of range, or else an import
   that is (`Findings.FirstFault`, `fault?_eq_some_iff`). `LoadsTo` lists the ways in which a load can end,
   with what it has asked and logged by then, and `loadsTo_iff_eq_load` says that each load ends in
   exactly one of them. The program is put together there by `assemble?`, which fails as soon as it comes
   to a package number that is out of range: after the check of the findings it never does
   (`assemble?_eq_some`), since every number that a walk comes to is a root or an import
   (`Walk.run?_eq_some`). -/
namespace ProgramIndex

theorem Directory.absolute?_eq_none_iff (workingDirectory path : String) :
    absolute? workingDirectory path = none ↔ path = "" := by
  simp [absolute?]

/-! The first fault of findings. -/

namespace Findings

/-- A package number is in range. -/
def Knows (findings : Findings) (id : PackageId) : Prop := id.index < findings.packages.length

/-- The fault that is named: the first root that is out of range or, if there is none, the first import of
    that kind of the first package that has one. -/
inductive FirstFault (findings : Findings) : LoadError → Prop where
  | unknownRoot {earlier later : List PackageId} {root : PackageId}
      (roots : findings.roots = earlier ++ root :: later) (known : ∀ id ∈ earlier, findings.Knows id)
      (unknown : ¬ findings.Knows root) : FirstFault findings (.unknownRoot root)
  | danglingImport {before after : List Package} {package : Package} {earlier later : List (String × PackageId)}
      {path : String} {target : PackageId} (roots : ∀ root ∈ findings.roots, findings.Knows root)
      (packages : findings.packages = before ++ package :: after)
      (knownBefore : ∀ other ∈ before, ∀ e ∈ other.imports.entries, findings.Knows e.2)
      (imports : package.imports.entries = earlier ++ (path, target) :: later)
      (known : ∀ e ∈ earlier, findings.Knows e.2) (unknown : ¬ findings.Knows target) :
      FirstFault findings (.danglingImport package.path path target)

/-- All roots and all imports are in range. -/
def Faultless (findings : Findings) : Prop :=
  (∀ root ∈ findings.roots, findings.Knows root) ∧
    ∀ package ∈ findings.packages, ∀ e ∈ package.imports.entries, findings.Knows e.2

theorem isUnknown_eq_true_iff (findings : Findings) (id : PackageId) :
    findings.isUnknown id = true ↔ ¬ findings.Knows id := by
  simp [isUnknown, Knows]

theorem isUnknown_eq_false_iff (findings : Findings) (id : PackageId) :
    findings.isUnknown id = false ↔ findings.Knows id := by
  simp [isUnknown, Knows]

theorem danglingImport?_eq_none_iff (findings : Findings) (package : Package) :
    findings.danglingImport? package = none ↔ ∀ e ∈ package.imports.entries, findings.Knows e.2 := by
  simp [danglingImport?, isUnknown_eq_false_iff]

theorem danglingImport?_eq_some_iff (findings : Findings) (package : Package) (fault : LoadError) :
    findings.danglingImport? package = some fault ↔
      ∃ earlier later path target, package.imports.entries = earlier ++ (path, target) :: later ∧
        (∀ e ∈ earlier, findings.Knows e.2) ∧ ¬ findings.Knows target ∧
        fault = .danglingImport package.path path target := by
  simp only [danglingImport?, Option.map_eq_some_iff, List.find?_eq_some_iff_append, isUnknown_eq_true_iff,
    Bool.not_eq_true', isUnknown_eq_false_iff]
  refine ⟨fun h => ?_, fun h => ?_⟩
  · obtain ⟨⟨path, target⟩, ⟨hunknown, earlier, later, hentries, hknown⟩, rfl⟩ := h
    exact ⟨earlier, later, path, target, hentries, hknown, hunknown, rfl⟩
  · obtain ⟨earlier, later, path, target, hentries, hknown, hunknown, rfl⟩ := h
    exact ⟨(path, target), ⟨hunknown, earlier, later, hentries, hknown⟩, rfl⟩

/-- What is found is the first fault. -/
theorem fault?_eq_some_iff (findings : Findings) (fault : LoadError) :
    findings.fault? = some fault ↔ findings.FirstFault fault := by
  unfold fault?
  cases hroot : findings.roots.find? findings.isUnknown with
  | some root =>
    obtain ⟨hunknown, earlier, later, hroots, hknown⟩ := List.find?_eq_some_iff_append.mp hroot
    simp only [Bool.not_eq_true', isUnknown_eq_false_iff, isUnknown_eq_true_iff] at hunknown hknown
    refine ⟨fun h => ?_, fun h => ?_⟩
    · cases h
      exact .unknownRoot hroots hknown hunknown
    · cases h with
      | unknownRoot hroots' hknown' hunknown' =>
        -- the first root out of range is the same in both
        have hfirst : findings.roots.find? findings.isUnknown = some _ :=
          List.find?_eq_some_iff_append.mpr ⟨(isUnknown_eq_true_iff _ _).mpr hunknown', _, _, hroots', fun id hid => by
            simpa [isUnknown_eq_false_iff] using hknown' id hid⟩
        rw [hroot] at hfirst
        rw [Option.some.inj hfirst]
      | danglingImport hall => exact absurd (hall root (List.mem_of_find?_eq_some hroot)) hunknown
  | none =>
    have hall : ∀ root ∈ findings.roots, findings.Knows root := by
      simpa [List.find?_eq_none, isUnknown_eq_false_iff] using hroot
    simp only [List.findSome?_eq_some_iff, danglingImport?_eq_none_iff, danglingImport?_eq_some_iff]
    refine ⟨fun h => ?_, fun h => ?_⟩
    · obtain ⟨before, package, after, hpackages, ⟨earlier, later, path, target, himports, hknown, hunknown, rfl⟩,
        hbefore⟩ := h
      exact .danglingImport hall hpackages hbefore himports hknown hunknown
    · cases h with
      | unknownRoot hroots _ hunknown => exact absurd (hall _ (by simp [hroots])) hunknown
      | danglingImport _ hpackages hbefore himports hknown hunknown =>
        exact ⟨_, _, _, hpackages, ⟨_, _, _, _, himports, hknown, hunknown, rfl⟩, hbefore⟩

end Findings

/-! Walks that fail outside the given nodes. -/

namespace Walk
variable {ν ε : Type} [DecidableEq ν]

/-- The walk, if it never comes to a node that is not among the given ones. -/
def run? (nodes : List ν) (script : ν → List (Step ν ε)) (steps : List (Step ν ε)) (seen : List ν) :
    Option (List ε × List ν) :=
  match steps with
  | [] => some ([], seen)
  | .report event :: rest => do
    let (events, seen) ← run? nodes script rest seen
    return (event :: events, seen)
  | .visit v :: rest =>
    if v ∈ seen then run? nodes script rest seen
    else if v ∈ nodes then run? nodes script (script v ++ rest) (v :: seen)
    else none
termination_by (unseen nodes seen, steps.length)
decreasing_by
  · exact Prod.Lex.right _ (by simp)
  · exact Prod.Lex.right _ (by simp)
  · next hnew hnode => exact Prod.Lex.left _ _ (unseen_cons_lt hnew hnode)

/-- A walk whose steps and scripts visit given nodes only never comes to another one. -/
theorem run?_eq_some {nodes : List ν} {script : ν → List (Step ν ε)}
    (hscript : ∀ v ∈ nodes, ∀ w, .visit w ∈ script v → w ∈ nodes) {steps : List (Step ν ε)} {seen : List ν}
    (hsteps : ∀ w, .visit w ∈ steps → w ∈ nodes) :
    run? nodes script steps seen = some (run nodes script steps seen) := by
  fun_induction run nodes script steps seen with
  | case1 seen => rw [run?]
  | case2 seen event rest events later hrun ih =>
    rw [run?, ih fun w hw => hsteps w (List.mem_cons_of_mem _ hw), hrun]
    rfl
  | case3 seen v rest hnew ih =>
    rw [run?, if_neg hnew.2, if_pos hnew.1]
    apply ih
    intro w hw
    rcases List.mem_append.mp hw with hw | hw
    · exact hscript v hnew.1 w hw
    · exact hsteps w (List.mem_cons_of_mem _ hw)
  | case4 seen v rest hold ih =>
    have hseen : v ∈ seen := by
      by_contra hnew
      exact hold ⟨hsteps v List.mem_cons_self, hnew⟩
    rw [run?, if_pos hseen]
    exact ih fun w hw => hsteps w (List.mem_cons_of_mem _ hw)

end Walk

/-! Putting a program together without checks. -/

/-- The packages that are reached from the roots, if all that the walk comes to are packages. -/
def gather? (packages : List Package) (dependencies : Bool) (roots : List PackageId) : Option (List PackageId) :=
  (Walk.run? (packageIds packages.length) (gatherScript packages dependencies) (roots.map .visit) []).map Prod.fst

/-- The packages with given numbers, if they all exist. -/
def packagesAt? (packages : List Package) (ids : List PackageId) : Option (List Package) :=
  ids.mapM fun id => packages[id.index]?

/-- The program that findings amount to, and what is logged with it. The packages are gathered, their
    diagnostics logged and their paths indexed, and their files looked through for markers; a package
    number that is out of range is never passed over, but has no result. -/
def assemble? (host : Host) (options : LoadOptions) (directory : String) (findings : Findings) :
    Option (Program × List LogEvent) := do
  let packages := numbered findings.packages
  let reached ← gather? packages options.dependencies findings.roots
  let indexed ← packagesAt? packages reached
  let scanned ← packagesAt? packages reached
  let program : Program :=
    { options, directory, packages, reached
      files := findings.files
      symbols := findings.symbols
      universeScope := findings.universeScope
      roots := findings.roots
      index := indexByPath indexed
      markers := markersByName scanned
      owners := ownersByFile packages }
  let diagnostics : List LogEvent := indexed.flatMap fun package =>
    package.diagnostics.map fun d => .diagnostic package.id package.path d
  return (program,
    (if findings.roots = [] then [.noPackages] else []) ++ (if options.logDiagnostics then diagnostics else []) ++
      program.generatedEvents host ++
      [.complete findings.roots.length program.index.size program.generatedFiles.length])

theorem gather?_eq_some {packages : List Package} {dependencies : Bool} {roots : List PackageId}
    (himports : ∀ package ∈ packages, ∀ e ∈ package.imports.entries, e.2.index < packages.length)
    (hroots : ∀ root ∈ roots, root.index < packages.length) :
    gather? packages dependencies roots = some (gather packages dependencies roots) := by
  have hscript : ∀ source ∈ packageIds packages.length, ∀ target,
      .visit target ∈ gatherScript packages dependencies source → target ∈ packageIds packages.length :=
    fun source _ target h => mem_packageIds_of_loads himports ((visit_mem_gatherScript source target).mp h)
  have hsteps : ∀ root, Step.visit root ∈ roots.map (Step.visit : PackageId → Step PackageId PackageId) →
      root ∈ packageIds packages.length := by
    intro root h
    exact (mem_packageIds _ _).mpr (hroots root (by simpa using h))
  rw [gather?, Walk.run?_eq_some hscript hsteps]
  rfl

theorem packagesAt?_eq_some {packages : List Package} :
    ∀ {ids : List PackageId}, (∀ id ∈ ids, ∃ package, packages[id.index]? = some package) →
      packagesAt? packages ids = some (ids.filterMap fun id => packages[id.index]?)
  | [], _ => rfl
  | id :: rest, h => by
    obtain ⟨package, hpackage⟩ := h id List.mem_cons_self
    have ih := packagesAt?_eq_some fun other hother => h other (List.mem_cons_of_mem id hother)
    have hcons : packagesAt? packages (id :: rest) =
        packages[id.index]?.bind fun package =>
          (packagesAt? packages rest).bind fun others => some (package :: others) :=
      List.mapM_cons
    rw [hcons, hpackage, ih, List.filterMap_cons_some (by exact hpackage)]
    rfl

/-- From findings without a fault the program is put together without coming to a number out of range. -/
theorem assemble?_eq_some (host : Host) (options : LoadOptions) (directory : String) {findings : Findings}
    (h : findings.fault? = none) :
    assemble? host options directory findings =
      some (.ofFindings options directory findings,
        (Program.ofFindings options directory findings).completionLog host) := by
  have hprogram := Program.consistent_ofFindings options directory h
  have hreached : gather? (numbered findings.packages) options.dependencies findings.roots =
      some (gather (numbered findings.packages) options.dependencies findings.roots) :=
    gather?_eq_some hprogram.import_lt hprogram.root_lt
  rw [assemble?, hreached, Option.bind_eq_bind, Option.bind_some,
    packagesAt?_eq_some fun id hid => exists_package_of_mem_gather hid]
  rfl

-- the check is needed: here the one import of a root is out of range
example : assemble? {} { dependencies := true } "/"
    { packages := [{ key := "a", path := "a", name := "a", imports := .ofList [("b", ⟨1⟩)] }]
      roots := [⟨0⟩] } = none := by cbv

/-! The load. -/

/-- How a load of a directory can end, with what it has asked and logged by then. -/
inductive LoadsTo (host : Host) (options : LoadOptions) (frontEnd : FrontEnd) : String → LoadRun → Prop where
  /-- There is nothing to ask for. -/
  | emptyDirectory : LoadsTo host options frontEnd "" ⟨[], [], .error .emptyDirectory⟩
  | discoveryFailed {directory absolute reason : String}
      (asks : Directory.absolute? host.workingDirectory directory = some absolute)
      (fails : frontEnd (options.request absolute) = .error reason) :
      LoadsTo host options frontEnd directory
        ⟨[options.request absolute], [options.loadingEvent absolute], .error (.discoveryFailed reason)⟩
  | faulty {directory absolute : String} {findings : Findings} {fault : LoadError}
      (asks : Directory.absolute? host.workingDirectory directory = some absolute)
      (finds : frontEnd (options.request absolute) = .ok findings) (first : findings.FirstFault fault) :
      LoadsTo host options frontEnd directory
        ⟨[options.request absolute], [options.loadingEvent absolute], .error fault⟩
  | loaded {directory absolute : String} {findings : Findings} {program : Program} {log : List LogEvent}
      (asks : Directory.absolute? host.workingDirectory directory = some absolute)
      (finds : frontEnd (options.request absolute) = .ok findings) (faultless : findings.Faultless)
      (assembles : assemble? host options absolute findings = some (program, log)) :
      LoadsTo host options frontEnd directory
        ⟨[options.request absolute], options.loadingEvent absolute :: log, .ok program⟩

/-- A load ends in exactly one of the ways listed. Without a directory it asks nothing; otherwise it asks
    the front end once, and what is wrong first decides: the front end's own failure, the first root out
    of range, the first import out of range. If nothing is wrong, the program is put together without ever
    coming to a package number that is out of range. -/
theorem loadsTo_iff_eq_load (host : Host) (directory : String) (options : LoadOptions) (frontEnd : FrontEnd)
    (run : LoadRun) :
    LoadsTo host options frontEnd directory run ↔ run = load host directory options frontEnd := by
  refine ⟨fun h => ?_, fun h => ?_⟩
  · cases h with
    | emptyDirectory => rfl
    | discoveryFailed asks fails => simp only [load, asks, fails]
    | faulty asks finds first => simp only [load, asks, finds, (Findings.fault?_eq_some_iff _ _).mpr first]
    | loaded asks finds faultless assembles =>
      have hfault := (Findings.fault?_eq_none_iff _).mpr faultless
      rw [assemble?_eq_some host options _ hfault] at assembles
      cases assembles
      simp only [load, asks, finds, hfault]
  · subst h
    unfold load
    split
    · next hnone =>
      rw [(Directory.absolute?_eq_none_iff _ directory).mp hnone]
      exact .emptyDirectory
    · next absolute asks =>
      dsimp only
      split
      · next reason fails => exact .discoveryFailed asks fails
      · next findings finds =>
        split
        · next fault hfault => exact .faulty asks finds ((findings.fault?_eq_some_iff fault).mp hfault)
        · next hfault =>
          have assembles := assemble?_eq_some host options absolute hfault
          exact .loaded asks finds (findings.fault?_eq_none_iff.mp hfault) assembles

end ProgramIndex
