import ProgramIndex.Proofs.VisitSpans

/- In which order a visit goes through the imports of its package. The imports that a visit follows are
   listed file by file, and within a file as they are written (`Program.importsInOrder`); they are what the
   steps of the visit go to, in this order (`visited_bodySteps`). The visit of one import ends before that
   of a later one begins, unless the first one leads back to the package or the second one has been visited on
   another way (`visitPackages_exhausts_imports`): what the package was entered after has been left by then
   or leads to it (`VisitAt.leave_mem_before`), and what an earlier import enters it leads to. -/
namespace ProgramIndex

/-- The node, if a step is a visit. -/
def Step.visited? {ν ε : Type} : Step ν ε → Option ν
  | .report _ => none
  | .visit node => some node

theorem Step.visited?_eq_some_iff {ν ε : Type} (step : Step ν ε) (node : ν) :
    step.visited? = some node ↔ step = .visit node := by
  cases step <;> simp [visited?]

namespace Program

/-- The packages that the imports of a package's accepted files lead to, file by file and in the order in
    which the imports are written. -/
def importsInOrder (program : Program) (package : Package) : List PackageId :=
  (program.acceptedUnits package).flatMap program.importTargets

variable {program : Program} {descend : Package → Bool}

/-! The steps of a visit. -/

theorem visited_unitSteps (unit : SourceUnit) :
    (program.unitSteps unit).filterMap Step.visited? =
      if program.options.acceptsFile unit then program.importTargets unit else [] := by
  have hcalls : ((program.fileCalls unit).map fun call =>
      (.report (.asked call) : Step PackageId VisitEvent)).filterMap Step.visited? = [] := by
    simp [Step.visited?]
  have htargets : ((program.importTargets unit).map
      (Step.visit : PackageId → Step PackageId VisitEvent)).filterMap Step.visited? =
      program.importTargets unit := by
    simp [Function.comp_def, Step.visited?]
  rw [unitSteps, List.filterMap_append, hcalls, List.nil_append]
  split
  · exact htargets
  · rfl

/-- A visit goes to the imports of its package in their order. -/
theorem visited_bodySteps {package : Package} (hdescend : descend package = true) :
    (program.bodySteps descend package).filterMap Step.visited? = program.importsInOrder package := by
  rw [bodySteps, if_pos hdescend, importsInOrder, acceptedUnits]
  induction program.unitsOf package with
  | nil => rfl
  | cons unit rest ih =>
    rw [List.flatMap_cons, List.filterMap_append, visited_unitSteps, ih]
    cases haccepts : program.options.acceptsFile unit with
    | true => rw [List.filter_cons_of_pos haccepts, List.flatMap_cons, if_pos rfl]
    | false => rw [List.filter_cons_of_neg (by simp [haccepts]), if_neg Bool.false_ne_true, List.nil_append]

theorem mem_importsInOrder (hprogram : program.Consistent) {package : Package}
    (hpackage : program.package? package.id = some package) (hdescend : descend package = true)
    (target : PackageId) :
    target ∈ program.importsInOrder package ↔ program.Follows descend package.id target := by
  rw [← visited_bodySteps hdescend, List.mem_filterMap]
  simp only [Step.visited?_eq_some_iff, exists_eq_right, visit_mem_bodySteps hprogram, Follows, hpackage,
    Option.some.injEq, exists_eq_left']

theorem exists_bodySteps_eq {package : Package} (hdescend : descend package = true) {target : PackageId}
    {earlier later : List PackageId} (himports : program.importsInOrder package = earlier ++ target :: later) :
    ∃ first rest, program.bodySteps descend package = first ++ .visit target :: rest ∧
      ∀ id, .visit id ∈ first ↔ id ∈ earlier := by
  rw [← visited_bodySteps hdescend] at himports
  obtain ⟨listed, others, hsteps, hearlier, hothers⟩ := List.filterMap_eq_append_iff.mp himports
  obtain ⟨skipped, step, rest, rfl, hskipped, hstep, _⟩ := List.filterMap_eq_cons_iff.mp hothers
  obtain rfl := (Step.visited?_eq_some_iff step target).mp hstep
  refine ⟨listed ++ skipped, rest, by rw [hsteps, List.append_assoc], fun id => ?_⟩
  have hnone : skipped.filterMap Step.visited? = [] := List.filterMap_eq_nil_iff.mpr hskipped
  have hvisits : (listed ++ skipped).filterMap Step.visited? = earlier := by
    rw [List.filterMap_append, hearlier, hnone, List.append_nil]
  rw [← hvisits, List.mem_filterMap]
  simp only [Step.visited?_eq_some_iff, exists_eq_right]

/-! Where the visits of two imports stand. -/

namespace VisitAt
variable {package : Package} {before after : List VisitEvent} {earlier : List PackageId}

/-- A package that was entered before the visit has been left before it, unless it leads to the visit. -/
theorem leave_mem_before (h : program.VisitAt descend package before earlier after)
    (hprogram : program.Consistent) {id : PackageId} (henter : .enter id ∈ before)
    (hback : ¬ Relation.ReflTransGen (program.Follows descend) id package.id) : .leave id ∈ before := by
  have hne : id ≠ package.id := fun heq => hback (heq ▸ Relation.ReflTransGen.refl)
  obtain ⟨first, hfirst⟩ := List.mem_iff_getElem?.mp henter
  have hlt : first < before.length := (List.getElem?_eq_some_iff.mp hfirst).1
  have hplace : (program.visitPackages descend)[first]? = some (.enter id) := by
    rw [h.events_eq, List.getElem?_append_left hlt, hfirst]
  have hid := (boundary_mem_iff hprogram descend (Or.inl rfl)).mp (List.mem_of_getElem? hplace)
  obtain ⟨last, hlast⟩ := List.mem_iff_getElem?.mp ((leave_mem_iff hprogram descend id).mpr hid)
  have hspans : program.Spans descend id first last := ⟨hplace, hlast⟩
  have hvisit := (h.spans_iff hprogram _ _).mpr ⟨rfl, rfl⟩
  have hwithin : ¬ before.length + (program.eventsWithin descend package earlier).length + 1 ≤ last :=
    fun hle => hback (hspans.follows_of_within hvisit hprogram (by omega) hle)
  -- the visit cannot lie within that of the other package, so it comes after it
  have hbefore : last < before.length := by
    have hnested := hspans.nested hvisit hprogram hne
    omega
  rw [h.events_eq, List.getElem?_append_left hbefore] at hlast
  exact List.mem_of_getElem? hlast

theorem leave_mem_of_visit (h : program.VisitAt descend package before earlier after)
    (hprogram : program.Consistent) {first : List (Step PackageId VisitEvent)} {id : PackageId}
    (hnode : id ∈ packageIds program.packages.length) (hvisit : .visit id ∈ first)
    (hback : ¬ Relation.ReflTransGen (program.Follows descend) id package.id) :
    .leave id ∈ before ∨ .leave id ∈ (program.perform descend first (package.id :: earlier)).1 := by
  by_cases hseen : id ∈ package.id :: earlier
  · rcases List.mem_cons.mp hseen with rfl | hseen
    · exact absurd Relation.ReflTransGen.refl hback
    · exact Or.inl (h.leave_mem_before hprogram (h.enter_mem id hseen) hback)
  · have henters : Walk.Enters (packageIds program.packages.length) (program.visitScript descend) first
        (package.id :: earlier) id := ⟨Walk.mem_seen_of_visit hnode hvisit, hseen⟩
    exact Or.inr (henters.mem_events (report_mem_visitScript (Or.inr rfl) hnode))

theorem not_mem_seen (h : program.VisitAt descend package before earlier after)
    (hprogram : program.Consistent) {first : List (Step PackageId VisitEvent)} {id : PackageId}
    (hself : id ≠ package.id)
    (hnew : ¬ [.enter id, .enter package.id].Sublist (program.visitPackages descend))
    (hapart : ∀ source, .visit source ∈ first → ¬ Relation.ReflTransGen (program.Follows descend) source id) :
    id ∉ (program.perform descend first (package.id :: earlier)).2 := by
  intro hseen
  by_cases hbefore : id ∈ package.id :: earlier
  · have hearlier := (List.mem_cons.mp hbefore).resolve_left hself
    apply hnew
    rw [h.events_eq]
    apply List.Sublist.append (List.singleton_sublist.mpr (h.enter_mem id hearlier))
    exact List.singleton_sublist.mpr List.mem_cons_self
  · obtain ⟨source, _, hvisit, hpath⟩ := Walk.Enters.reaches ⟨hseen, hbefore⟩
    rw [leads_eq_follows hprogram] at hpath
    exact hapart source hvisit hpath

end VisitAt

theorem eventsWithin_of_new (hprogram : program.Consistent) {package : Package} {earlier : List PackageId}
    {first rest : List (Step PackageId VisitEvent)} {id : PackageId}
    (hsteps : program.bodySteps descend package = first ++ .visit id :: rest)
    (hnode : id ∈ packageIds program.packages.length)
    (hnew : id ∉ (program.perform descend first (package.id :: earlier)).2) :
    ∃ between afterwards, program.eventsWithin descend package earlier =
      (program.perform descend first (package.id :: earlier)).1 ++
        .enter id :: (between ++ .leave id :: afterwards) := by
  obtain ⟨found, hfound⟩ := exists_package_of_mem hnode
  obtain rfl := hprogram.id_eq hfound
  obtain ⟨afterwards, hrest⟩ := events_visit_new descend hnode hnew rest
  rw [events_visitScript hfound, List.cons_append, List.append_assoc, List.singleton_append] at hrest
  rw [eventsWithin, hsteps, events_append, hrest]
  exact ⟨_, afterwards, rfl⟩

/-- The imports of a package are exhausted in the order in which they are listed. Take an import that is not
    the package itself, had not been visited when the visit of the package began, and is none of the imports
    listed before it and not reached from them. Each of these that does not lead back to the package has been
    left before that import is entered. -/
theorem visitPackages_exhausts_imports {host : Host} {directory : String} {options : LoadOptions} {frontEnd : FrontEnd}
    {program : Program} (h : (load host directory options frontEnd).outcome = .ok program) (descend : Package → Bool)
    {package : Package} (hpackage : program.package? package.id = some package)
    (hvisited : .enter package.id ∈ program.visitPackages descend) (hdescend : descend package = true)
    {earlier later : List PackageId} {target : PackageId}
    (himports : program.importsInOrder package = earlier ++ target :: later) (hself : target ≠ package.id)
    (hnew : ¬ [.enter target, .enter package.id].Sublist (program.visitPackages descend))
    (hapart : ∀ source ∈ earlier, ¬ Relation.ReflTransGen (program.Follows descend) source target)
    {listed : PackageId} (hlisted : listed ∈ earlier)
    (hback : ¬ Relation.ReflTransGen (program.Follows descend) listed package.id) :
    [.leave listed, .enter target, .leave target].Sublist (program.visitPackages descend) := by
  have hprogram := consistent_of_load h
  have hnode : ∀ id ∈ program.importsInOrder package, id ∈ packageIds program.packages.length := by
    intro id hid
    exact ((leads_iff_follows hprogram _ _).mpr ((mem_importsInOrder hprogram hpackage hdescend id).mp hid)).1
  obtain ⟨before, seen, after, hvisit⟩ :=
    exists_visitAt hprogram hpackage ((boundary_mem_iff hprogram descend (Or.inl rfl)).mp hvisited)
  obtain ⟨first, rest, hsteps, hfirst⟩ := exists_bodySteps_eq hdescend himports
  have hunseen := hvisit.not_mem_seen hprogram hself hnew fun source hsource =>
    hapart source ((hfirst source).mp hsource)
  obtain ⟨between, afterwards, hevents⟩ :=
    eventsWithin_of_new hprogram hsteps (hnode target (by simp [himports])) hunseen
  have hleft : .leave listed ∈ before ++ .enter package.id ::
      (program.perform descend first (package.id :: seen)).1 := by
    rcases hvisit.leave_mem_of_visit hprogram (hnode listed (by simp [himports, hlisted]))
      ((hfirst listed).mpr hlisted) hback with hbefore | hduring
    · exact List.mem_append_left _ hbefore
    · exact List.mem_append_right _ (List.mem_cons_of_mem _ hduring)
  have hspan : [.enter target, .leave target].Sublist
      (.enter target :: (between ++ .leave target :: (afterwards ++ .leave package.id :: after))) := by
    apply List.Sublist.cons_cons
    exact List.singleton_sublist.mpr (List.mem_append_right between List.mem_cons_self)
  have hsplit : program.visitPackages descend =
      (before ++ .enter package.id :: (program.perform descend first (package.id :: seen)).1) ++
        .enter target :: (between ++ .leave target :: (afterwards ++ .leave package.id :: after)) := by
    rw [hvisit.events_eq, hevents]
    simp only [List.append_assoc, List.cons_append]
  rw [hsplit]
  exact (List.singleton_sublist.mpr hleft).append hspan

/-- The package at a place of the program with two branches. -/
def branchingPackage (place : Nat) (path : String) (imports : List (List String)) : Package :=
  { packageImporting path imports with id := ⟨place⟩ }

theorem branch_leads_to_last {id : PackageId}
    (h : Relation.ReflTransGen (branchingProgram.Follows fun _ => true) ⟨1⟩ id) : id = ⟨1⟩ ∨ id = ⟨3⟩ := by
  have hprogram := consistent_of_load load_branchingFindings
  have hsecond : branchingProgram.importsInOrder (branchingPackage 1 "b" [["d"]]) = [⟨3⟩] := by cbv
  have hfourth : branchingProgram.importsInOrder (branchingPackage 3 "d" []) = [] := by cbv
  induction h with
  | refl => exact Or.inl rfl
  | tail _ hfollows ih =>
    rcases ih with rfl | rfl
    · have hmem : _ ∈ branchingProgram.importsInOrder (branchingPackage 1 "b" [["d"]]) :=
        (mem_importsInOrder hprogram rfl rfl _).mpr hfollows
      rw [hsecond] at hmem
      exact Or.inr (List.mem_singleton.mp hmem)
    · have hmem : _ ∈ branchingProgram.importsInOrder (branchingPackage 3 "d" []) :=
        (mem_importsInOrder hprogram rfl rfl _).mpr hfollows
      rw [hfourth] at hmem
      exact absurd hmem List.not_mem_nil

/-- The import that both files have is exhausted before the one that only the second file has, which leads
    back to the package. -/
theorem visitPackages_exhausts_imports_branchingProgram :
    branchingProgram.importsInOrder (branchingPackage 0 "a" [["b"], ["b", "c"]]) = [⟨1⟩, ⟨1⟩, ⟨2⟩] ∧
    [.leave ⟨1⟩, .enter ⟨2⟩, .leave ⟨2⟩].Sublist (branchingProgram.visitPackages fun _ => true) := by
  have himports : branchingProgram.importsInOrder (branchingPackage 0 "a" [["b"], ["b", "c"]]) =
      [⟨1⟩, ⟨1⟩] ++ ⟨2⟩ :: [] := by cbv
  have hevents : branchingProgram.visitPackages (fun _ => true) =
      [.enter ⟨0⟩, .enter ⟨1⟩, .enter ⟨3⟩, .leave ⟨3⟩, .leave ⟨1⟩, .enter ⟨2⟩, .leave ⟨2⟩, .leave ⟨0⟩] := by cbv
  refine ⟨himports, visitPackages_exhausts_imports load_branchingFindings (fun _ => true) rfl ?_ rfl himports
    ?_ ?_ ?_ List.mem_cons_self ?_⟩
  · rw [hevents]
    exact List.mem_cons_self
  · decide
  · rw [hevents]
    decide
  · intro source hsource hpath
    have hsame : source = ⟨1⟩ := by simpa using hsource
    rcases branch_leads_to_last (hsame ▸ hpath) with heq | heq
    · exact absurd heq (by decide)
    · exact absurd heq (by decide)
  · intro hpath
    rcases branch_leads_to_last hpath with heq | heq
    · exact absurd heq (by decide)
    · exact absurd heq (by decide)

end Program

end ProgramIndex
