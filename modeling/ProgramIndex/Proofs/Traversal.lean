import Mathlib
import ProgramIndex.Program.Traversal
import ProgramIndex.Proofs.Loaded
import ProgramIndex.Proofs.Walk

/- Which packages a traversal visits, and in which order it leaves them. A traversal follows the import
   literals of accepted files from one package to another (`Program.Follows`), starting with the roots
   that the package filters accept. `visitPackages_exactly_once` says that it enters and leaves exactly
   the packages that can be reached so, once each; `visitPackages_leaves_imports_first` says that it
   leaves a package after what that imports, unless the import leads back. -/
namespace ProgramIndex.Program

/-- A traversal follows an import from one package to another: the first is descended into, and the
    literal of an import in one of its accepted files denotes a path that the index has. -/
def Follows (program : Program) (descend : Package → Bool) (source target : PackageId) : Prop :=
  ∃ package, program.package? source = some package ∧ descend package = true ∧
    ∃ unit ∈ program.unitsOf package, program.options.acceptsFile unit = true ∧
      ∃ i ∈ unit.file.tree.imports, ∃ path, i.path? = some path ∧ program.index.get? path = some target

/-- Followed imports lead from an accepted root to a package. -/
def Reachable (program : Program) (descend : Package → Bool) (id : PackageId) : Prop :=
  ∃ root ∈ program.acceptedRoots, Relation.ReflTransGen (program.Follows descend) root.id id

variable {program : Program} {descend : Package → Bool}

/-! What a visit does. -/

/-- What a visit does between entering and leaving a package. -/
def bodySteps (program : Program) (descend : Package → Bool) (package : Package) :
    List (Step PackageId VisitEvent) :=
  if descend package then (program.unitsOf package).flatMap program.unitSteps else []

theorem visitScript_of_package {id : PackageId} {package : Package} (h : program.package? id = some package) :
    program.visitScript descend id =
      .report (.enter id) :: (program.bodySteps descend package ++ [.report (.leave id)]) := by
  rw [visitScript, h]
  rfl

theorem report_not_mem_bodySteps (package : Package) {event : VisitEvent} (h : event.call? = none) :
    .report event ∉ program.bodySteps descend package := by
  intro hmem
  unfold bodySteps at hmem
  split at hmem
  · obtain ⟨unit, _, hunit⟩ := List.mem_flatMap.mp hmem
    rcases List.mem_append.mp hunit with hcall | hvisit
    · obtain ⟨call, _, hevent⟩ := List.mem_map.mp hcall
      cases hevent
      simp [VisitEvent.call?] at h
    · split at hvisit
      · obtain ⟨id, _, hid⟩ := List.mem_map.mp hvisit
        cases hid
      · simp at hvisit
  · simp at hmem

theorem mem_importTargets (hprogram : program.Consistent) (unit : SourceUnit) (target : PackageId) :
    target ∈ program.importTargets unit ↔
      ∃ i ∈ unit.file.tree.imports, ∃ path, i.path? = some path ∧ program.index.get? path = some target := by
  simp only [importTargets, SyntaxTree.importPaths, List.mem_map, List.mem_filterMap]
  refine ⟨fun h => ?_, fun h => ?_⟩
  · obtain ⟨package, ⟨path, ⟨i, hi, hpath⟩, hpackage⟩, rfl⟩ := h
    obtain ⟨id, hindex, hid⟩ := Option.bind_eq_some_iff.mp hpackage
    refine ⟨i, hi, path, hpath, ?_⟩
    rw [hprogram.id_eq hid]
    exact hindex
  · obtain ⟨i, hi, path, hpath, hindex⟩ := h
    obtain ⟨package, hpackage, _⟩ := hprogram.index_package hindex
    refine ⟨package, ⟨path, ⟨i, hi, hpath⟩, ?_⟩, hprogram.id_eq hpackage⟩
    rw [packageAt?, hindex]
    exact hpackage

theorem visit_mem_bodySteps (hprogram : program.Consistent) (package : Package) (target : PackageId) :
    .visit target ∈ program.bodySteps descend package ↔ descend package = true ∧
      ∃ unit ∈ program.unitsOf package, program.options.acceptsFile unit = true ∧
        ∃ i ∈ unit.file.tree.imports, ∃ path, i.path? = some path ∧ program.index.get? path = some target := by
  cases hdescend : descend package with
  | false => simp [bodySteps, hdescend]
  | true =>
    simp only [bodySteps, hdescend, if_true, true_and, List.mem_flatMap, ← mem_importTargets hprogram]
    refine exists_congr fun unit => and_congr_right fun _ => ?_
    cases haccepts : program.options.acceptsFile unit <;> simp [unitSteps, haccepts]

theorem leads_iff_follows (hprogram : program.Consistent) (source target : PackageId) :
    Walk.Leads (packageIds program.packages.length) (program.visitScript descend) source target ↔
      program.Follows descend source target := by
  cases hsource : program.package? source with
  | none => simp [Walk.Leads, Follows, visitScript, hsource]
  | some package =>
    rw [Walk.Leads, visitScript_of_package hsource, Follows]
    simp only [List.mem_cons, List.mem_append, reduceCtorEq, false_or, List.not_mem_nil, or_false,
      visit_mem_bodySteps hprogram, hsource, Option.some.injEq, exists_eq_left']
    refine ⟨fun h => h.2, fun h => ⟨?_, h⟩⟩
    -- the index names packages of the program only
    obtain ⟨_, _, _, _, _, _, _, _, hindex⟩ := h
    obtain ⟨found, hfound, _⟩ := hprogram.index_package hindex
    exact (mem_packageIds _ _).mpr (List.getElem?_eq_some_iff.mp hfound).1

theorem leads_eq_follows (hprogram : program.Consistent) :
    Walk.Leads (packageIds program.packages.length) (program.visitScript descend) =
      program.Follows descend := by
  funext source target
  exact propext (leads_iff_follows hprogram source target)

/-! What is done with the roots. -/

/-- The steps with which a traversal starts. -/
def startSteps (program : Program) : List (Step PackageId VisitEvent) :=
  program.rootPackages.flatMap program.rootSteps

theorem visit_mem_startSteps (id : PackageId) :
    .visit id ∈ program.startSteps ↔ ∃ root ∈ program.acceptedRoots, root.id = id := by
  simp only [startSteps, acceptedRoots, List.mem_flatMap, List.mem_filter, and_assoc]
  refine exists_congr fun root => and_congr_right fun _ => ?_
  cases haccepts : program.options.acceptsPackage root <;> simp [rootSteps, haccepts, eq_comm]

theorem report_not_mem_startSteps {event : VisitEvent} (h : event.call? = none) :
    .report event ∉ program.startSteps := by
  intro hmem
  obtain ⟨root, _, hroot⟩ := List.mem_flatMap.mp hmem
  rcases List.mem_append.mp hroot with hcall | hvisit
  · obtain ⟨call, _, hevent⟩ := List.mem_map.mp hcall
    cases hevent
    simp [VisitEvent.call?] at h
  · split at hvisit <;> simp at hvisit

theorem mem_acceptedRoots (hprogram : program.Consistent) (package : Package) :
    package ∈ program.acceptedRoots ↔ package.id ∈ program.roots ∧
      program.package? package.id = some package ∧ program.options.acceptsPackage package = true := by
  rw [acceptedRoots, rootPackages, List.mem_filter, List.mem_filterMap]
  refine ⟨fun h => ?_, fun h => ⟨⟨package.id, h.1, h.2.1⟩, h.2.2⟩⟩
  obtain ⟨⟨root, hroot, hpackage⟩, haccepts⟩ := h
  rw [hprogram.id_eq hpackage]
  exact ⟨hroot, hpackage, haccepts⟩

theorem mem_packageIds_of_mem_acceptedRoots (hprogram : program.Consistent) {root : Package}
    (h : root ∈ program.acceptedRoots) : root.id ∈ packageIds program.packages.length := by
  obtain ⟨hid, _⟩ := (mem_acceptedRoots hprogram root).mp h
  exact (mem_packageIds _ _).mpr (hprogram.root_lt root.id hid)

/-- A traversal enters exactly what can be reached from the accepted roots. -/
theorem enters_iff_reachable (hprogram : program.Consistent) (id : PackageId) :
    Walk.Enters (packageIds program.packages.length) (program.visitScript descend) program.startSteps [] id ↔
      program.Reachable descend id := by
  rw [Walk.enters_iff_reaches, Walk.Reaches, leads_eq_follows hprogram, Reachable]
  simp only [visit_mem_startSteps]
  refine ⟨fun h => ?_, fun h => ?_⟩
  · obtain ⟨_, _, ⟨root, hroot, rfl⟩, hpath⟩ := h
    exact ⟨root, hroot, hpath⟩
  · obtain ⟨root, hroot, hpath⟩ := h
    exact ⟨root.id, mem_packageIds_of_mem_acceptedRoots hprogram hroot, ⟨root, hroot, rfl⟩, hpath⟩

/-! A program with a repeated root and a package that imports itself. -/

/-- A package with one file, which imports the path `"b"`. -/
def importer (path : String) (place : Nat) : Package where
  key := path
  path := path
  name := path
  files := [⟨⟨place⟩, path, ⟨0, [], [⟨none, PathLiteral.quote "b", 0⟩], []⟩⟩]
  imports := .ofList [("b", ⟨1⟩)]

/-- Three packages that import the second one. The first one is asked for twice, and nothing leads to
    the third one. -/
def loopFindings : Findings where
  packages := [importer "a" 0, importer "b" 1, importer "c" 2]
  roots := [⟨0⟩, ⟨0⟩]

def loopProgram : Program := ofFindings { dependencies := true } "/" loopFindings

theorem load_loopFindings :
    (load {} "/" { dependencies := true } fun _ => .ok loopFindings).outcome = .ok loopProgram := rfl

theorem acceptedRoots_loopProgram : loopProgram.acceptedRoots.map (·.id) = [⟨0⟩, ⟨0⟩] := by cbv

theorem bodySteps_loopProgram (descend : Package → Bool) {package : Package}
    (h : package ∈ loopProgram.packages) :
    loopProgram.bodySteps descend package = if descend package then [.visit ⟨1⟩] else [] := by
  have hsteps : (loopProgram.unitsOf package).flatMap loopProgram.unitSteps = [.visit ⟨1⟩] := by
    rcases h with _ | ⟨_, _ | ⟨_, _ | ⟨_, h⟩⟩⟩
    · cbv
    · cbv
    · cbv
    · cases h
  rw [bodySteps, hsteps]

theorem follows_loopProgram (descend : Package → Bool) (source target : PackageId) :
    loopProgram.Follows descend source target ↔
      target = ⟨1⟩ ∧ ∃ package, loopProgram.package? source = some package ∧ descend package = true := by
  rw [← leads_iff_follows (consistent_of_load load_loopFindings), Walk.Leads]
  cases hsource : loopProgram.package? source with
  | none => simp [visitScript, hsource]
  | some package =>
    have hnode : ⟨1⟩ ∈ packageIds loopProgram.packages.length := (mem_packageIds 3 ⟨1⟩).mpr (by decide)
    rw [visitScript_of_package hsource, bodySteps_loopProgram descend (List.mem_of_getElem? hsource)]
    cases hdescend : descend package with
    | false => simp [hdescend]
    | true =>
      refine ⟨fun h => ⟨by simpa using h.2, package, rfl, hdescend⟩, fun h => ?_⟩
      rw [h.1]
      exact ⟨hnode, by simp⟩

/-! How often a package is entered and left. -/

theorem exists_package_of_mem {id : PackageId} (h : id ∈ packageIds program.packages.length) :
    ∃ package, program.package? id = some package := by
  have hlt := (mem_packageIds _ _).mp h
  exact ⟨program.packages[id.index], List.getElem?_eq_getElem hlt⟩

/-- A visit of a package begins or ends with an event. -/
def IsBoundary (id : PackageId) (event : VisitEvent) : Prop := event = .enter id ∨ event = .leave id

theorem IsBoundary.call?_eq_none {id : PackageId} {event : VisitEvent} (h : IsBoundary id event) :
    event.call? = none := by
  rcases h with rfl | rfl <;> rfl

theorem count_visitScript {event : VisitEvent} {id : PackageId} (hevent : IsBoundary id event)
    (hid : id ∈ packageIds program.packages.length) :
    (program.visitScript descend id).count (.report event) = 1 := by
  obtain ⟨package, hpackage⟩ := exists_package_of_mem hid
  have hbody : (program.bodySteps descend package).count (.report event) = 0 :=
    List.count_eq_zero.mpr (report_not_mem_bodySteps package hevent.call?_eq_none)
  rw [visitScript_of_package hpackage, List.count_cons, List.count_append, hbody, Nat.zero_add]
  rcases hevent with rfl | rfl <;> simp

theorem report_not_mem_visitScript {event : VisitEvent} {id other : PackageId} (hevent : IsBoundary id event)
    (hother : other ≠ id) : .report event ∉ program.visitScript descend other := by
  intro hmem
  cases hpackage : program.package? other with
  | none => simp [visitScript, hpackage] at hmem
  | some package =>
    rw [visitScript_of_package hpackage, List.mem_cons, List.mem_append, List.mem_singleton] at hmem
    rcases hmem with heq | hbody | heq
    · rcases hevent with rfl | rfl
      · exact hother (VisitEvent.enter.inj (Step.report.inj heq)).symm
      · cases heq
    · exact report_not_mem_bodySteps package hevent.call?_eq_none hbody
    · rcases hevent with rfl | rfl
      · cases heq
      · exact hother (VisitEvent.leave.inj (Step.report.inj heq)).symm

theorem announces_visitScript {event : VisitEvent} {id : PackageId} (hevent : IsBoundary id event) :
    Walk.Announces (packageIds program.packages.length) (program.visitScript descend) id event :=
  ⟨fun _ _ hother => report_not_mem_visitScript hevent hother, count_visitScript hevent⟩

theorem count_boundary (hprogram : program.Consistent) (descend : Package → Bool) {event : VisitEvent}
    {id : PackageId} (hevent : IsBoundary id event) :
    (program.Reachable descend id → (program.visitPackages descend).count event = 1) ∧
    (¬ program.Reachable descend id → (program.visitPackages descend).count event = 0) := by
  have hcount : (program.visitPackages descend).count event = _ :=
    (announces_visitScript hevent).count_events_eq (report_not_mem_startSteps hevent.call?_eq_none)
  refine ⟨fun h => hcount.trans (if_pos ?_), fun h => hcount.trans (if_neg fun henters => h ?_)⟩
  · exact (enters_iff_reachable hprogram id).mpr h
  · exact (enters_iff_reachable hprogram id).mp henters

/-- A visit of a package begins and ends exactly if the package is reachable. -/
theorem boundary_mem_iff (hprogram : program.Consistent) (descend : Package → Bool) {event : VisitEvent}
    {id : PackageId} (hevent : IsBoundary id event) :
    event ∈ program.visitPackages descend ↔ program.Reachable descend id := by
  rw [← enters_iff_reachable hprogram]
  exact (announces_visitScript hevent).mem_events_iff (report_not_mem_startSteps hevent.call?_eq_none)

theorem leave_mem_iff (hprogram : program.Consistent) (descend : Package → Bool) (id : PackageId) :
    .leave id ∈ program.visitPackages descend ↔ program.Reachable descend id :=
  boundary_mem_iff hprogram descend (Or.inr rfl)

/-- A traversal enters and leaves every package that is reachable from the accepted roots exactly
    once, and no other package. So a package that is entered is left, also if it is not descended into,
    and whatever it leads to is visited, also if the package filters refuse it. -/
theorem visitPackages_exactly_once {host : Host} {directory : String} {options : LoadOptions} {frontEnd : FrontEnd}
    {program : Program} (h : (load host directory options frontEnd).outcome = .ok program)
    (descend : Package → Bool) (id : PackageId) :
    (program.Reachable descend id →
      (program.visitPackages descend).count (.enter id) = 1 ∧
      (program.visitPackages descend).count (.leave id) = 1) ∧
    (¬ program.Reachable descend id →
      .enter id ∉ program.visitPackages descend ∧ .leave id ∉ program.visitPackages descend) ∧
    (.enter id ∈ program.visitPackages descend → .leave id ∈ program.visitPackages descend ∧
      ∀ target, program.Follows descend id target → .leave target ∈ program.visitPackages descend) := by
  have hprogram := consistent_of_load h
  obtain ⟨henter, hnoenter⟩ := count_boundary hprogram descend (Or.inl rfl : IsBoundary id (.enter id))
  obtain ⟨hleave, hnoleave⟩ := count_boundary hprogram descend (Or.inr rfl : IsBoundary id (.leave id))
  refine ⟨fun hid => ⟨henter hid, hleave hid⟩, fun hid => ⟨?_, ?_⟩, fun hmem => ?_⟩
  · exact List.count_eq_zero.mp (hnoenter hid)
  · exact List.count_eq_zero.mp (hnoleave hid)
  · have hid : program.Reachable descend id := by
      apply Classical.byContradiction
      intro hid
      exact List.count_eq_zero.mp (hnoenter hid) hmem
    refine ⟨(leave_mem_iff hprogram descend id).mpr hid, fun target hfollows => ?_⟩
    obtain ⟨root, hroot, hpath⟩ := hid
    exact (leave_mem_iff hprogram descend target).mpr ⟨root, hroot, hpath.tail hfollows⟩

theorem visitPackages_loopProgram :
    (loopProgram.visitPackages fun _ => true).count (.enter ⟨1⟩) = 1 ∧
    (loopProgram.visitPackages fun _ => true).count (.leave ⟨1⟩) = 1 ∧
    .leave ⟨2⟩ ∉ loopProgram.visitPackages fun _ => true := by
  have hreachable : loopProgram.Reachable (fun _ => true) ⟨1⟩ := by
    have hmem : ⟨0⟩ ∈ loopProgram.acceptedRoots.map (·.id) := by
      rw [acceptedRoots_loopProgram]
      exact List.mem_cons_self
    obtain ⟨root, hroot, hid⟩ := List.mem_map.mp hmem
    refine ⟨root, hroot, Relation.ReflTransGen.single ?_⟩
    rw [hid]
    exact (follows_loopProgram _ _ _).mpr ⟨rfl, _, rfl, rfl⟩
  have hunreachable : ¬ loopProgram.Reachable (fun _ => true) ⟨2⟩ := by
    intro h
    obtain ⟨root, hroot, hpath⟩ := h
    rcases hpath.cases_tail with heq | ⟨_, _, hfollows⟩
    · have hmem : root.id ∈ loopProgram.acceptedRoots.map (·.id) := List.mem_map_of_mem hroot
      rw [acceptedRoots_loopProgram, ← heq] at hmem
      exact absurd hmem (by decide)
    · exact absurd ((follows_loopProgram _ _ _).mp hfollows).1 (by decide)
  obtain ⟨hone, _, _⟩ := visitPackages_exactly_once load_loopFindings (fun _ => true) ⟨1⟩
  obtain ⟨_, htwo, _⟩ := visitPackages_exactly_once load_loopFindings (fun _ => true) ⟨2⟩
  exact ⟨(hone hreachable).1, (hone hreachable).2, (htwo hunreachable).2⟩

/-! The order in which packages are left. -/

theorem exists_visitScript_eq {id : PackageId} (hid : id ∈ packageIds program.packages.length) :
    ∃ body, program.visitScript descend id = body ++ [.report (.leave id)] := by
  obtain ⟨package, hpackage⟩ := exists_package_of_mem hid
  exact ⟨.report (.enter id) :: program.bodySteps descend package, visitScript_of_package hpackage⟩

/-- A package is left after one that it imports, unless the import leads back. -/
theorem leave_sublist_of_follows (hprogram : program.Consistent) {source target : PackageId}
    (hsource : program.Reachable descend source) (hfollows : program.Follows descend source target)
    (hback : ¬ Relation.ReflTransGen (program.Follows descend) target source) :
    [.leave target, .leave source].Sublist (program.visitPackages descend) := by
  have henters := (enters_iff_reachable hprogram source).mpr hsource
  have hleads := (leads_iff_follows hprogram source target).mpr hfollows
  rcases henters.precedes_of_leads (fun id hid => exists_visitScript_eq hid) hleads with hseen | hcycle | hsub
  · simp at hseen
  · rw [leads_eq_follows hprogram] at hcycle
    exact absurd hcycle hback
  · exact hsub

/-- The packages in the order in which a traversal leaves them. -/
def leftIds (program : Program) (descend : Package → Bool) : List PackageId :=
  (program.visitPackages descend).filterMap VisitEvent.left?

theorem count_filterMap_left? (id : PackageId) : ∀ events : List VisitEvent,
    (events.filterMap VisitEvent.left?).count id = events.count (.leave id)
  | [] => rfl
  | event :: rest => by
    have ih := count_filterMap_left? id rest
    cases event with
    | asked call => rw [List.filterMap_cons_none rfl, ih, List.count_cons_of_ne (by simp)]
    | enter other => rw [List.filterMap_cons_none rfl, ih, List.count_cons_of_ne (by simp)]
    | leave other =>
      rw [List.filterMap_cons_some (by rfl : VisitEvent.left? (.leave other) = some other),
        List.count_cons, List.count_cons, ih]
      simp

theorem mem_leftIds (hprogram : program.Consistent) (descend : Package → Bool) (id : PackageId) :
    id ∈ program.leftIds descend ↔ program.Reachable descend id := by
  rw [← leave_mem_iff hprogram, ← List.count_pos_iff, ← List.count_pos_iff, leftIds, count_filterMap_left?]

theorem nodup_leftIds (hprogram : program.Consistent) (descend : Package → Bool) :
    (program.leftIds descend).Nodup := by
  apply List.nodup_iff_count.mpr
  intro id
  rw [leftIds, count_filterMap_left?]
  obtain ⟨honce, hnever⟩ := count_boundary hprogram descend (Or.inr rfl : IsBoundary id (.leave id))
  by_cases h : program.Reachable descend id
  · exact Nat.le_of_eq (honce h)
  · rw [hnever h]
    exact Nat.zero_le 1

theorem mem_postOrder (hprogram : program.Consistent) (package : Package) :
    package ∈ program.postOrder ↔
      program.package? package.id = some package ∧ .leave package.id ∈ program.visitPackages fun _ => true := by
  have hmem : package ∈ program.postOrder ↔
      ∃ id ∈ program.leftIds fun _ => true, program.package? id = some package := List.mem_filterMap
  rw [hmem, leave_mem_iff hprogram]
  refine ⟨fun h => ?_, fun h => ⟨package.id, (mem_leftIds hprogram _ _).mpr h.2, h.1⟩⟩
  obtain ⟨id, hid, hpackage⟩ := h
  rw [hprogram.id_eq hpackage]
  exact ⟨hpackage, (mem_leftIds hprogram _ _).mp hid⟩

theorem nodup_postOrder (hprogram : program.Consistent) : program.postOrder.Nodup := by
  apply List.Nodup.filterMap _ (nodup_leftIds hprogram fun _ => true)
  intro id other package hid hother
  rw [← hprogram.id_eq hid, ← hprogram.id_eq hother]

theorem not_sublist_swap {α : Type} {a b : α} : ∀ {l : List α}, l.Nodup → [a, b].Sublist l → ¬ [b, a].Sublist l
  | [], _, hab => by simp at hab
  | c :: rest, hnodup, hab => by
    intro hba
    obtain ⟨hc, hrest⟩ := List.nodup_cons.mp hnodup
    rcases List.sublist_cons_iff.mp hab with hfirst | ⟨_, heq, hb⟩
    · rcases List.sublist_cons_iff.mp hba with hsecond | ⟨_, heq, _⟩
      · exact not_sublist_swap hrest hfirst hsecond
      · obtain ⟨rfl, _⟩ := List.cons.inj heq
        exact hc (hfirst.subset (List.mem_cons_of_mem a List.mem_cons_self))
    · obtain ⟨rfl, rfl⟩ := List.cons.inj heq
      rcases List.sublist_cons_iff.mp hba with hsecond | ⟨_, heq, _⟩
      · exact hc (hsecond.subset (List.mem_cons_of_mem b List.mem_cons_self))
      · obtain ⟨rfl, _⟩ := List.cons.inj heq
        exact hc (List.singleton_sublist.mp hb)

/-- A traversal leaves a package after each one that it imports and that does not lead back to it. So if
    no followed imports run in a cycle, the packages are left in an order in which none imports a
    later one. -/
theorem visitPackages_leaves_imports_first {host : Host} {directory : String} {options : LoadOptions}
    {frontEnd : FrontEnd} {program : Program} (h : (load host directory options frontEnd).outcome = .ok program)
    (descend : Package → Bool) :
    (∀ source target, .leave source ∈ program.visitPackages descend → program.Follows descend source target →
      ¬ Relation.ReflTransGen (program.Follows descend) target source →
      [.leave target, .leave source].Sublist (program.visitPackages descend)) ∧
    ((∀ id, ¬ Relation.TransGen (program.Follows descend) id id) →
      (∀ id, id ∈ program.leftIds descend ↔ program.Reachable descend id) ∧
      (program.leftIds descend).Nodup ∧
      (program.leftIds descend).Pairwise fun earlier later => ¬ program.Follows descend earlier later) := by
  have hprogram := consistent_of_load h
  refine ⟨fun source target hleave => ?_, fun hacyclic => ?_⟩
  · exact leave_sublist_of_follows hprogram ((leave_mem_iff hprogram descend source).mp hleave)
  · refine ⟨mem_leftIds hprogram descend, nodup_leftIds hprogram descend, ?_⟩
    apply List.pairwise_of_forall_sublist
    -- if the earlier package imported the later one, it would have been left after that
    intro earlier later horder hfollows
    have hearlier : program.Reachable descend earlier :=
      (mem_leftIds hprogram descend earlier).mp (horder.subset (by simp))
    have hback : ¬ Relation.ReflTransGen (program.Follows descend) later earlier :=
      fun hpath => hacyclic earlier (Relation.TransGen.head' hfollows hpath)
    have hswap := (leave_sublist_of_follows hprogram hearlier hfollows hback).filterMap VisitEvent.left?
    exact not_sublist_swap (nodup_leftIds hprogram descend) horder hswap

theorem visitPackages_loopProgram_order :
    [.leave ⟨1⟩, .leave ⟨0⟩].Sublist (loopProgram.visitPackages fun _ => true) ∧
    (loopProgram.leftIds fun package => package.path != "b").Pairwise fun earlier later =>
      ¬ loopProgram.Follows (fun package => package.path != "b") earlier later := by
  have hback : ¬ Relation.ReflTransGen (loopProgram.Follows fun _ => true) ⟨1⟩ ⟨0⟩ := by
    intro hpath
    rcases hpath.cases_tail with heq | ⟨_, _, hfollows⟩
    · exact absurd heq (by decide)
    · exact absurd ((follows_loopProgram _ _ _).mp hfollows).1 (by decide)
  have hacyclic : ∀ id, ¬ Relation.TransGen (loopProgram.Follows fun package => package.path != "b") id id := by
    intro id hcycle
    obtain ⟨_, hfirst, _⟩ := Relation.TransGen.head'_iff.mp hcycle
    obtain ⟨_, _, hlast⟩ := Relation.TransGen.tail'_iff.mp hcycle
    obtain ⟨rfl, _⟩ := (follows_loopProgram _ _ _).mp hlast
    obtain ⟨_, package, hpackage, hdescend⟩ := (follows_loopProgram _ _ _).mp hfirst
    cases hpackage
    exact absurd hdescend (by decide)
  have hmem : .leave ⟨0⟩ ∈ loopProgram.visitPackages fun _ => true := by
    have hevents : loopProgram.visitPackages (fun _ => true) =
        [.enter ⟨0⟩, .enter ⟨1⟩, .leave ⟨1⟩, .leave ⟨0⟩] := by cbv
    rw [hevents]
    decide
  refine ⟨?_, ?_⟩
  · exact (visitPackages_leaves_imports_first load_loopFindings fun _ => true).1 ⟨0⟩ ⟨1⟩ hmem
      ((follows_loopProgram _ _ _).mpr ⟨rfl, _, rfl, rfl⟩) hback
  · exact ((visitPackages_leaves_imports_first load_loopFindings _).2 hacyclic).2.2

end ProgramIndex.Program
