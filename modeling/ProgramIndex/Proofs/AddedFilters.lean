import ProgramIndex.Proofs.DefinitionUse
import ProgramIndex.Proofs.GeneratorNotes

/- What one more filter does. A filter has no part in what is asked of the front end or made of its answer, so
   a load with one more filter makes the same program but for its options (`load_of_same_request`). Options
   that accept less (`LoadOptions.AcceptsLess`) leave fewer roots to start with and fewer imports to follow,
   so whatever can still be reached could be reached before (`AcceptsLess.reachable`); and with fewer packages
   visited there are fewer uses listed. `added_filter_only_removes` says this of either kind of filter,
   and which units are left. -/
namespace ProgramIndex

/-! Options with one more filter. -/

namespace LoadOptions

/-- Whatever the first options accept, the second ones accept. -/
structure AcceptsLess (narrow wide : LoadOptions) : Prop where
  package : ∀ package, narrow.acceptsPackage package = true → wide.acceptsPackage package = true
  file : ∀ unit, narrow.acceptsFile unit = true → wide.acceptsFile unit = true

variable (options : LoadOptions)

theorem acceptsPackage_addPackageFilter (filter : Package → Bool) (package : Package) :
    (options.addPackageFilter filter).acceptsPackage package = (options.acceptsPackage package && filter package) := by
  simp [acceptsPackage, addPackageFilter, Filters.accept]

theorem acceptsFile_addFileFilter (filter : SourceUnit → Bool) (unit : SourceUnit) :
    (options.addFileFilter filter).acceptsFile unit = (options.acceptsFile unit && filter unit) := by
  simp [acceptsFile, addFileFilter, Filters.accept, Bool.and_assoc]

theorem acceptsLess_addPackageFilter (filter : Package → Bool) :
    (options.addPackageFilter filter).AcceptsLess options where
  package := by
    intro package haccepts
    rw [acceptsPackage_addPackageFilter] at haccepts
    exact (Bool.and_eq_true_iff.mp haccepts).1
  file := fun _ haccepts => haccepts

theorem acceptsLess_addFileFilter (filter : SourceUnit → Bool) :
    (options.addFileFilter filter).AcceptsLess options where
  package := fun _ haccepts => haccepts
  file := by
    intro unit haccepts
    rw [acceptsFile_addFileFilter] at haccepts
    exact (Bool.and_eq_true_iff.mp haccepts).1

end LoadOptions

/-- The same program with other options. -/
def Program.withOptions (program : Program) (options : LoadOptions) : Program := { program with options := options }

/-- A load with options that ask the front end for the same makes the same program. -/
theorem load_of_same_request {host : Host} {directory : String} {options others : LoadOptions} {frontEnd : FrontEnd}
    {program : Program} (h : (load host directory options frontEnd).outcome = .ok program)
    (hrequest : ∀ absolute, others.request absolute = options.request absolute) :
    (load host directory others frontEnd).outcome = .ok (program.withOptions others) := by
  obtain ⟨absolute, findings, habsolute, hfindings, hfault, rfl⟩ := exists_of_load h
  have hdependencies : others.dependencies = options.dependencies := congrArg Request.dependencies (hrequest absolute)
  have hprogram : Program.ofFindings others absolute findings =
      (Program.ofFindings options absolute findings).withOptions others := by
    simp only [Program.ofFindings, Program.withOptions, hdependencies]
  rw [← hprogram]
  simp only [load, habsolute, hrequest, hfindings, hfault]

/-! What options that accept less leave of a program. -/

namespace LoadOptions.AcceptsLess
variable {program : Program} {narrow : LoadOptions} (hless : narrow.AcceptsLess program.options)

include hless

theorem mem_acceptedRoots {root : Package} (h : root ∈ (program.withOptions narrow).acceptedRoots) :
    root ∈ program.acceptedRoots := by
  obtain ⟨hroot, haccepts⟩ := List.mem_filter.mp h
  exact List.mem_filter.mpr ⟨hroot, hless.package root haccepts⟩

theorem follows {descend : Package → Bool} {source target : PackageId}
    (h : (program.withOptions narrow).Follows descend source target) : program.Follows descend source target := by
  obtain ⟨package, hpackage, hdescend, unit, hunit, haccepts, hliteral⟩ := h
  exact ⟨package, hpackage, hdescend, unit, hunit, hless.file unit haccepts, hliteral⟩

/-- A package that can still be reached could be reached before, though perhaps first on another way. -/
theorem reachable {descend : Package → Bool} {id : PackageId}
    (h : (program.withOptions narrow).Reachable descend id) : program.Reachable descend id := by
  obtain ⟨root, hroot, hpath⟩ := h
  refine ⟨root, hless.mem_acceptedRoots hroot, ?_⟩
  exact Relation.ReflTransGen.mono (fun _ _ hfollows => hless.follows hfollows) _ _ hpath

variable (hprogram : program.Consistent) (hnarrow : (program.withOptions narrow).Consistent)

include hprogram hnarrow

theorem boundary_mem {descend : Package → Bool} {event : VisitEvent} {id : PackageId}
    (hevent : Program.IsBoundary id event) (h : event ∈ (program.withOptions narrow).visitPackages descend) :
    event ∈ program.visitPackages descend := by
  rw [Program.boundary_mem_iff hprogram descend hevent]
  exact hless.reachable ((Program.boundary_mem_iff hnarrow descend hevent).mp h)

theorem mem_postOrder {package : Package} (h : package ∈ (program.withOptions narrow).postOrder) :
    package ∈ program.postOrder := by
  obtain ⟨hpackage, hleave⟩ := (Program.mem_postOrder hnarrow package).mp h
  exact (Program.mem_postOrder hprogram package).mpr
    ⟨hpackage, hless.boundary_mem hprogram hnarrow (Or.inr rfl) hleave⟩

theorem listsUse {definition use : Occurrence} (h : (program.withOptions narrow).ListsUse definition use) :
    program.ListsUse definition use := by
  rw [Program.listsUse_iff, mem_usesAt] at h ⊢
  obtain ⟨definer, hdefiner, symbol, hdefinition, huse⟩ := h
  obtain ⟨user, huser, huse⟩ := (mem_usesOf _ _ _).mp huse
  refine ⟨definer, hless.mem_postOrder hprogram hnarrow hdefiner, symbol, hdefinition, ?_⟩
  exact (mem_usesOf _ _ _).mpr ⟨user, hless.mem_postOrder hprogram hnarrow huser, huse⟩

end LoadOptions.AcceptsLess

namespace Program
variable {program : Program}

/-! The units that one more filter leaves. -/

theorem rootUnits_addFileFilter (program : Program) (filter : SourceUnit → Bool) :
    (program.withOptions (program.options.addFileFilter filter)).rootUnits = program.rootUnits.filter filter := by
  have hunits : ∀ package, (program.withOptions (program.options.addFileFilter filter)).acceptedUnits package =
      (program.acceptedUnits package).filter filter := by
    intro package
    show (program.unitsOf package).filter (program.options.addFileFilter filter).acceptsFile = _
    rw [acceptedUnits, List.filter_filter]
    apply List.filter_congr
    intro unit _
    rw [LoadOptions.acceptsFile_addFileFilter, Bool.and_comm]
  calc (program.withOptions (program.options.addFileFilter filter)).rootUnits
      = program.acceptedRoots.flatMap fun package => (program.acceptedUnits package).filter filter :=
        List.flatMap_congr fun package _ => hunits package
    _ = program.rootUnits.filter filter := by rw [rootUnits, List.filter_flatMap]

theorem flatMap_acceptedUnits_filter (program : Program) (filter : Package → Bool) (roots : List Package) :
    (roots.filter filter).flatMap program.acceptedUnits =
      (roots.flatMap program.acceptedUnits).filter fun unit => filter unit.package := by
  induction roots with
  | nil => rfl
  | cons root rest ih =>
    have hunits : ∀ unit ∈ program.acceptedUnits root, filter unit.package = filter root := by
      intro unit hunit
      rw [package_of_mem_unitsOf (List.mem_filter.mp hunit).1]
    rw [List.flatMap_cons, List.filter_append, ← ih]
    cases hroot : filter root with
    | false =>
      have hnone : (program.acceptedUnits root).filter (fun unit => filter unit.package) = [] := by
        apply List.filter_eq_nil_iff.mpr
        intro unit hunit
        simp [hunits unit hunit, hroot]
      rw [List.filter_cons_of_neg (by simp [hroot]), hnone, List.nil_append]
    | true =>
      have hall : (program.acceptedUnits root).filter (fun unit => filter unit.package) = program.acceptedUnits root := by
        apply List.filter_eq_self.mpr
        intro unit hunit
        rw [hunits unit hunit, hroot]
      rw [List.filter_cons_of_pos hroot, List.flatMap_cons, hall]

theorem rootUnits_addPackageFilter (program : Program) (filter : Package → Bool) :
    (program.withOptions (program.options.addPackageFilter filter)).rootUnits =
      program.rootUnits.filter fun unit => filter unit.package := by
  have hroots : (program.withOptions (program.options.addPackageFilter filter)).acceptedRoots =
      program.acceptedRoots.filter filter := by
    show program.rootPackages.filter (program.options.addPackageFilter filter).acceptsPackage = _
    rw [acceptedRoots, List.filter_filter]
    apply List.filter_congr
    intro package _
    rw [LoadOptions.acceptsPackage_addPackageFilter, Bool.and_comm]
  calc (program.withOptions (program.options.addPackageFilter filter)).rootUnits
      = (program.acceptedRoots.filter filter).flatMap program.acceptedUnits := by
        rw [rootUnits, hroots]
        rfl
    _ = program.rootUnits.filter fun unit => filter unit.package := by
        rw [flatMap_acceptedUnits_filter, rootUnits]

theorem generatedBy_ne_testMain {unit : SourceUnit} (h : unit ∈ program.rootUnits) :
    unit.generatedBy ≠ LoadOptions.testMain := by
  obtain ⟨package, _, haccepted⟩ := List.mem_flatMap.mp h
  have haccepts := (List.mem_filter.mp haccepted).2
  exact bne_iff_ne.mp (Bool.and_eq_true_iff.mp haccepts).1

/-! One more filter. -/

/-- What the traversals of one program come to, those of another one come to as well. -/
structure Within (narrowed program : Program) : Prop where
  enters : ∀ descend id, .enter id ∈ narrowed.visitPackages descend → .enter id ∈ program.visitPackages descend
  leaves : ∀ descend id, .leave id ∈ narrowed.visitPackages descend → .leave id ∈ program.visitPackages descend
  units : narrowed.rootUnits.Sublist program.rootUnits
  uses : ∀ definition use, narrowed.ListsUse definition use → program.ListsUse definition use

theorem within_of_acceptsLess {narrow : LoadOptions} (hprogram : program.Consistent)
    (hnarrow : (program.withOptions narrow).Consistent) (hless : narrow.AcceptsLess program.options)
    {kept : SourceUnit → Bool} (hunits : (program.withOptions narrow).rootUnits = program.rootUnits.filter kept) :
    (program.withOptions narrow).Within program where
  enters := fun _ _ => hless.boundary_mem hprogram hnarrow (Or.inl rfl)
  leaves := fun _ _ => hless.boundary_mem hprogram hnarrow (Or.inr rfl)
  units := by
    rw [hunits]
    exact List.filter_sublist
  uses := fun _ _ => hless.listsUse hprogram hnarrow

/-- If a load succeeds, it succeeds with one more filter of either kind. Traversals then come to nothing that
    they did not come to before, and of the units exactly those are left that the filter accepts, or
    whose package it accepts. Whatever the filters, no unit that a test run generates is handed over; and
    if files of one name have the same marker, no file with the marker of such a unit is. -/
theorem added_filter_only_removes {host : Host} {directory : String} {options : LoadOptions} {frontEnd : FrontEnd}
    {program : Program} (h : (load host directory options frontEnd).outcome = .ok program) :
    (∀ filter : Package → Bool, ∃ narrowed,
      (load host directory (options.addPackageFilter filter) frontEnd).outcome = .ok narrowed ∧
      narrowed.Within program ∧ narrowed.rootUnits = program.rootUnits.filter fun unit => filter unit.package) ∧
    (∀ filter : SourceUnit → Bool, ∃ narrowed,
      (load host directory (options.addFileFilter filter) frontEnd).outcome = .ok narrowed ∧
      narrowed.Within program ∧ narrowed.rootUnits = program.rootUnits.filter filter) ∧
    (∀ unit ∈ program.rootUnits, unit.generatedBy ≠ LoadOptions.testMain) ∧
    (SameMarkers program.reachedFiles → ∀ unit ∈ program.rootUnits,
      unit.file.tree.generator? ≠ some LoadOptions.testMain) := by
  have hprogram := consistent_of_load h
  obtain rfl := options_of_load h
  refine ⟨fun filter => ?_, fun filter => ?_, fun unit hunit => generatedBy_ne_testMain hunit,
    fun hsame unit hunit => ?_⟩
  · have hload := load_of_same_request h (fun _ => rfl : ∀ absolute,
      (program.options.addPackageFilter filter).request absolute = program.options.request absolute)
    have hunits := rootUnits_addPackageFilter program filter
    have hless := program.options.acceptsLess_addPackageFilter filter
    exact ⟨_, hload, within_of_acceptsLess hprogram (consistent_of_load hload) hless hunits, hunits⟩
  · have hload := load_of_same_request h (fun _ => rfl : ∀ absolute,
      (program.options.addFileFilter filter).request absolute = program.options.request absolute)
    have hunits := rootUnits_addFileFilter program filter
    have hless := program.options.acceptsLess_addFileFilter filter
    exact ⟨_, hload, within_of_acceptsLess hprogram (consistent_of_load hload) hless hunits, hunits⟩
  · intro hmarker
    apply generatedBy_ne_testMain hunit
    rw [(noted_of_mem_rootUnits (loaded_of_load h) hunit).generatedBy_eq hsame, hmarker, Option.getD_some]

theorem added_filter_only_removes_crossProgram :
    SameMarkers crossProgram.reachedFiles ∧ crossProgram.rootUnits.map (·.file.name) = ["a"] ∧
    (∃ narrowed, (load {} "/"
        (({ dependencies := true } : LoadOptions).addFileFilter fun unit => unit.file.name != "a")
        fun _ => .ok crossFindings).outcome = .ok narrowed ∧
      narrowed.Within crossProgram ∧ narrowed.rootUnits = []) ∧
    (∃ narrowed, (load {} "/"
        (({ dependencies := true } : LoadOptions).addPackageFilter fun package => package.path != "a")
        fun _ => .ok crossFindings).outcome = .ok narrowed ∧
      narrowed.Within crossProgram ∧ narrowed.rootUnits = []) ∧
    ∀ unit ∈ crossProgram.rootUnits, unit.file.tree.generator? ≠ some LoadOptions.testMain := by
  have hsame : SameMarkers crossProgram.reachedFiles := of_decide_eq_true (by cbv)
  have hunits : crossProgram.rootUnits.map (·.file.name) = ["a"] := by cbv
  obtain ⟨hpackage, hfile, _, htest⟩ := added_filter_only_removes load_crossFindings
  refine ⟨hsame, hunits, ?_, ?_, htest hsame⟩
  · obtain ⟨narrowed, hload, hwithin, hleft⟩ := hfile fun unit => unit.file.name != "a"
    refine ⟨narrowed, hload, hwithin, ?_⟩
    rw [hleft]
    cbv
  · obtain ⟨narrowed, hload, hwithin, hleft⟩ := hpackage fun package => package.path != "a"
    refine ⟨narrowed, hload, hwithin, ?_⟩
    rw [hleft]
    cbv

end Program

end ProgramIndex
