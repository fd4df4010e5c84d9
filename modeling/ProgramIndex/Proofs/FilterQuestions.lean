import ProgramIndex.Proofs.RootUnits
import ProgramIndex.Proofs.VisitSpans

/- When a traversal asks its filters, and in which order. What one kind of questions comes to is read off the steps:
   only the visit of a package asks about the package's files (`fileQuestions_eq`), and only roots are asked
   about as packages (`packageQuestions_eq`). A file filter is asked about a unit if the traversal descends
   into the unit's package and nothing before the filter has refused the unit (`onFile_mem_iff`); the
   questions about one package come file by file, and for each file filter by filter
   (`pairwise_fileQuestions`), though the visits of other packages may come between them. All of them stand
   between entering and leaving the package, because the visit alone asks as many as the whole traversal
   (`exists_spans_of_onFile`). `filters_asked_when_needed` puts this together. -/
namespace ProgramIndex

namespace FilterCall

/-- The places of the file and of the filter, if the question is one to a file filter about a file of a given
    package. -/
def aboutFile? (id : PackageId) : FilterCall → Option (Nat × Nat)
  | .onFile filter package place => if package = id then some (place, filter) else none
  | .onPackage _ _ => none

/-- The package, if the question is one to the package filter at a given place. -/
def aboutPackage? (filter : Nat) : FilterCall → Option PackageId
  | .onPackage number package => if number = filter then some package else none
  | .onFile _ _ _ => none

theorem aboutFile?_eq_some_iff (id : PackageId) (call : FilterCall) (place filter : Nat) :
    call.aboutFile? id = some (place, filter) ↔ call = .onFile filter id place := by
  cases call with
  | onFile number package file => simp [aboutFile?, and_comm, and_assoc]
  | onPackage number package => simp [aboutFile?]

theorem aboutPackage?_eq_some_iff (filter : Nat) (call : FilterCall) (id : PackageId) :
    call.aboutPackage? filter = some id ↔ call = .onPackage filter id := by
  cases call with
  | onFile number package file => simp [aboutPackage?]
  | onPackage number package => simp [aboutPackage?]

end FilterCall

namespace VisitEvent

/-- What an event has to say of a kind of questions. -/
def question? {κ : Type} (kind? : FilterCall → Option κ) (event : VisitEvent) : Option κ := event.call?.bind kind?

theorem question?_eq_some_iff {κ : Type} {kind? : FilterCall → Option κ} {call : FilterCall} {a : κ}
    (hkind : ∀ other, kind? other = some a ↔ other = call) (event : VisitEvent) :
    event.question? kind? = some a ↔ event = .asked call := by
  cases event with
  | asked other => simpa [question?, call?] using hkind other
  | enter package => simp [question?, call?]
  | leave package => simp [question?, call?]

end VisitEvent

namespace LoadOptions

/-- The answer of a file filter about a unit is needed: the unit is not the one that a test run generates,
    and every earlier filter accepts it. -/
structure NeedsFileFilter (options : LoadOptions) (filter : Nat) (unit : SourceUnit) : Prop where
  lt_length : filter < options.fileFilters.length
  not_testMain : unit.generatedBy ≠ testMain
  accepted : ∀ earlier ∈ options.fileFilters.take filter, earlier unit = true

theorem mem_fileFiltersAsked (options : LoadOptions) (unit : SourceUnit) (filter : Nat) :
    filter ∈ options.fileFiltersAsked unit ↔ options.NeedsFileFilter filter unit := by
  unfold fileFiltersAsked
  split
  · next htest => exact ⟨fun h => absurd h List.not_mem_nil, fun h => absurd htest h.not_testMain⟩
  · next htest =>
    rw [Filters.mem_asked]
    exact ⟨fun h => ⟨h.1, htest, h.2⟩, fun h => ⟨h.lt_length, h.accepted⟩⟩

theorem pairwise_fileFiltersAsked (options : LoadOptions) (unit : SourceUnit) :
    (options.fileFiltersAsked unit).Pairwise (· < ·) := by
  unfold fileFiltersAsked
  split
  · exact List.Pairwise.nil
  · exact List.pairwise_lt_range

theorem mem_packageFiltersAsked (options : LoadOptions) (package : Package) (filter : Nat) :
    filter ∈ options.packageFiltersAsked package ↔ filter < options.packageFilters.length ∧
      Filters.accept (options.packageFilters.take filter) package = true := by
  rw [packageFiltersAsked, Filters.mem_asked, Filters.accept, List.all_eq_true]

end LoadOptions

namespace Program
open Walk (reported)

variable {program : Program} {descend : Package → Bool}

/-! What visits and roots ask. -/

section Calls
variable {κ : Type} (kind? : FilterCall → Option κ)

theorem reported_calls (calls : List FilterCall) :
    reported (VisitEvent.question? kind?) (calls.map fun call => (.report (.asked call) : Step PackageId VisitEvent)) =
      calls.filterMap kind? := by
  rw [reported, List.filterMap_map]
  rfl

theorem reported_unitSteps (unit : SourceUnit) :
    reported (VisitEvent.question? kind?) (program.unitSteps unit) = (program.fileCalls unit).filterMap kind? := by
  rw [unitSteps, Walk.reported_append, reported_calls]
  split
  · rw [Walk.reported_map_visit, List.append_nil]
  · exact List.append_nil _

theorem reported_bodySteps (package : Package) :
    reported (VisitEvent.question? kind?) (program.bodySteps descend package) =
      if descend package then (program.unitsOf package).flatMap fun unit => (program.fileCalls unit).filterMap kind?
      else [] := by
  unfold bodySteps
  split
  · rw [Walk.reported_flatMap]
    exact List.flatMap_congr fun unit _ => reported_unitSteps kind? unit
  · rfl

theorem reported_visitScript {id : PackageId} {package : Package} (hpackage : program.package? id = some package) :
    reported (VisitEvent.question? kind?) (program.visitScript descend id) =
      reported (VisitEvent.question? kind?) (program.bodySteps descend package) := by
  rw [visitScript_of_package hpackage, Walk.reported_report, Walk.reported_append]
  exact List.append_nil _

theorem reported_visitScript_of_none {id : PackageId} (hpackage : program.package? id = none) :
    reported (VisitEvent.question? kind?) (program.visitScript descend id) = [] := by
  rw [visitScript, hpackage]
  rfl

theorem reported_rootSteps (root : Package) :
    reported (VisitEvent.question? kind?) (program.rootSteps root) = (program.packageCalls root).filterMap kind? := by
  rw [rootSteps, Walk.reported_append, reported_calls]
  split
  · rw [Walk.reported_visit]
    exact List.append_nil _
  · exact List.append_nil _

end Calls

/-! Questions about the files of a package. -/

/-- The questions that the file filters have to be asked about the files of a package, file by file. -/
def questionsAbout (program : Program) (package : Package) : List (Nat × Nat) :=
  (program.unitsOf package).flatMap fun unit =>
    (program.options.fileFiltersAsked unit).map fun filter => (unit.place, filter)

theorem aboutFile?_bodySteps (package : Package) (id : PackageId) :
    reported (VisitEvent.question? (FilterCall.aboutFile? id)) (program.bodySteps descend package) =
      if descend package = true ∧ package.id = id then program.questionsAbout package else [] := by
  have hunit : ∀ unit ∈ program.unitsOf package,
      (program.fileCalls unit).filterMap (FilterCall.aboutFile? id) =
        if package.id = id then (program.options.fileFiltersAsked unit).map fun filter => (unit.place, filter)
        else [] := by
    intro unit hunit
    rw [fileCalls, List.filterMap_map, package_of_mem_unitsOf hunit]
    split
    · next hid => simp [FilterCall.aboutFile?, hid]
    · next hid => simp [FilterCall.aboutFile?, hid]
  rw [reported_bodySteps, List.flatMap_congr hunit, ite_and]
  by_cases hid : package.id = id
  · simp only [hid, if_true, questionsAbout]
  · simp [hid]

theorem aboutFile?_visitScript_of_ne (hprogram : program.Consistent) {source id : PackageId} (hne : source ≠ id) :
    reported (VisitEvent.question? (FilterCall.aboutFile? id)) (program.visitScript descend source) = [] := by
  cases hpackage : program.package? source with
  | none => exact reported_visitScript_of_none _ hpackage
  | some package =>
    rw [reported_visitScript _ hpackage, aboutFile?_bodySteps, hprogram.id_eq hpackage, if_neg fun h => hne h.2]

theorem aboutFile?_startSteps (program : Program) (id : PackageId) :
    reported (VisitEvent.question? (FilterCall.aboutFile? id)) program.startSteps = [] := by
  rw [startSteps, Walk.reported_flatMap]
  refine List.flatMap_eq_nil_iff.mpr fun root _ => ?_
  rw [reported_rootSteps, packageCalls, List.filterMap_map]
  exact List.filterMap_eq_nil_iff.mpr fun _ _ => rfl

theorem enters_iff_enter_mem (hprogram : program.Consistent) (id : PackageId) :
    Walk.Enters (packageIds program.packages.length) (program.visitScript descend) program.startSteps [] id ↔
      .enter id ∈ program.visitPackages descend := by
  rw [enters_iff_reachable hprogram, boundary_mem_iff hprogram descend (Or.inl rfl)]

/-- The questions to file filters about the files of a package that a traversal asks, in their order. -/
def fileQuestions (program : Program) (descend : Package → Bool) (id : PackageId) : List (Nat × Nat) :=
  (program.visitPackages descend).filterMap (VisitEvent.question? (FilterCall.aboutFile? id))

/-- Only the visit of a package asks about its files. -/
theorem fileQuestions_eq (hprogram : program.Consistent) (id : PackageId) :
    program.fileQuestions descend id =
      if .enter id ∈ program.visitPackages descend then
        reported (VisitEvent.question? (FilterCall.aboutFile? id)) (program.visitScript descend id)
      else [] := by
  have hown : ∀ other ∈ packageIds program.packages.length, other ≠ id →
      reported (VisitEvent.question? (FilterCall.aboutFile? id)) (program.visitScript descend other) = [] :=
    fun _ _ hne => aboutFile?_visitScript_of_ne hprogram hne
  have hevents : program.fileQuestions descend id = _ :=
    Walk.filterMap_run_of_own hown (aboutFile?_startSteps program id)
  rw [hevents]
  exact if_congr (enters_iff_enter_mem hprogram id) rfl rfl

/-- A traversal comes to a package and descends into it. -/
structure DescendsInto (program : Program) (descend : Package → Bool) (id : PackageId) (package : Package) :
    Prop where
  package?_eq : program.package? id = some package
  entered : .enter id ∈ program.visitPackages descend
  descends : descend package = true

theorem fileQuestions_of_descendsInto (hprogram : program.Consistent) {id : PackageId} {package : Package}
    (h : program.DescendsInto descend id package) :
    program.fileQuestions descend id = program.questionsAbout package := by
  rw [fileQuestions_eq hprogram, if_pos h.entered, reported_visitScript _ h.package?_eq, aboutFile?_bodySteps,
    if_pos ⟨h.descends, hprogram.id_eq h.package?_eq⟩]

theorem fileQuestions_of_not_descendsInto (hprogram : program.Consistent) {id : PackageId}
    (h : ∀ package, ¬ program.DescendsInto descend id package) : program.fileQuestions descend id = [] := by
  rw [fileQuestions_eq hprogram]
  split
  · next hentered =>
    cases hpackage : program.package? id with
    | none => exact reported_visitScript_of_none _ hpackage
    | some package =>
      rw [reported_visitScript _ hpackage, aboutFile?_bodySteps,
        if_neg fun hdescends => h package ⟨hpackage, hentered, hdescends.1⟩]
  · rfl

/-! Which questions about files are asked. -/

theorem mem_questionsAbout (program : Program) (package : Package) (place filter : Nat) :
    (place, filter) ∈ program.questionsAbout package ↔
      ∃ unit ∈ program.unitsOf package, unit.place = place ∧ program.options.NeedsFileFilter filter unit := by
  rw [questionsAbout, List.mem_flatMap]
  refine exists_congr fun unit => and_congr_right fun _ => ?_
  rw [← LoadOptions.mem_fileFiltersAsked, List.mem_map]
  simp [and_comm]

theorem mem_fileQuestions (hprogram : program.Consistent) (filter : Nat) (id : PackageId) (place : Nat) :
    (place, filter) ∈ program.fileQuestions descend id ↔ ∃ package, program.DescendsInto descend id package ∧
      ∃ unit ∈ program.unitsOf package, unit.place = place ∧ program.options.NeedsFileFilter filter unit := by
  simp only [← mem_questionsAbout]
  refine ⟨fun hmem => ?_, fun h => ?_⟩
  · by_cases h : ∃ package, program.DescendsInto descend id package
    · obtain ⟨package, hdescends⟩ := h
      rw [fileQuestions_of_descendsInto hprogram hdescends] at hmem
      exact ⟨package, hdescends, hmem⟩
    · rw [fileQuestions_of_not_descendsInto hprogram (not_exists.mp h)] at hmem
      exact absurd hmem List.not_mem_nil
  · obtain ⟨package, hdescends, hmem⟩ := h
    rwa [fileQuestions_of_descendsInto hprogram hdescends]

theorem count_aboutFile? (id : PackageId) (place filter : Nat) (events : List VisitEvent) :
    (events.filterMap (VisitEvent.question? (FilterCall.aboutFile? id))).count (place, filter) =
      events.count (.asked (.onFile filter id place)) := by
  rw [List.count_filterMap, List.count]
  apply List.countP_congr
  intro event _
  simp [VisitEvent.question?_eq_some_iff fun other => FilterCall.aboutFile?_eq_some_iff id other place filter]

/-- A file filter is asked about a file exactly if the traversal descends into the package and the answer is
    needed. -/
theorem onFile_mem_iff (hprogram : program.Consistent) (filter : Nat) (id : PackageId) (place : Nat) :
    .asked (.onFile filter id place) ∈ program.visitPackages descend ↔
      ∃ package, program.DescendsInto descend id package ∧
        ∃ unit ∈ program.unitsOf package, unit.place = place ∧ program.options.NeedsFileFilter filter unit := by
  rw [← mem_fileQuestions hprogram, ← List.count_pos_iff, ← List.count_pos_iff, fileQuestions, count_aboutFile?]

/-! In which order they are asked. -/

theorem map_place_unitsOf (program : Program) (package : Package) :
    (program.unitsOf package).map SourceUnit.place = List.range package.files.length := by
  have hsecond := congrArg (List.map Prod.snd) (map_address_unitsOf program package)
  rw [List.map_map, List.map_map] at hsecond
  simpa [Function.comp_def, SourceUnit.address] using hsecond

theorem pairwise_questionsAbout (program : Program) (package : Package) :
    (program.questionsAbout package).Pairwise (Prod.Lex (· < ·) (· < ·)) := by
  have hplaces : (program.unitsOf package).Pairwise fun unit later => unit.place < later.place := by
    rw [← List.pairwise_map, map_place_unitsOf]
    exact List.pairwise_lt_range
  apply List.pairwise_flatMap.mpr
  refine ⟨fun unit _ => ?_, hplaces.imp fun {unit later} hlt question hquestion other hother => ?_⟩
  · apply List.pairwise_map.mpr
    exact (program.options.pairwise_fileFiltersAsked unit).imp fun hlt => Prod.Lex.right _ hlt
  · obtain ⟨_, _, rfl⟩ := List.mem_map.mp hquestion
    obtain ⟨_, _, rfl⟩ := List.mem_map.mp hother
    exact Prod.Lex.left _ _ hlt

/-- The questions come in the order of the files, and about one file in the order of the filters. -/
theorem pairwise_fileQuestions (hprogram : program.Consistent) (id : PackageId) :
    (program.fileQuestions descend id).Pairwise (Prod.Lex (· < ·) (· < ·)) := by
  by_cases h : ∃ package, program.DescendsInto descend id package
  · obtain ⟨package, hdescends⟩ := h
    rw [fileQuestions_of_descendsInto hprogram hdescends]
    exact pairwise_questionsAbout program package
  · rw [fileQuestions_of_not_descendsInto hprogram (not_exists.mp h)]
    exact List.Pairwise.nil

/-- The visit of a package asks its questions itself, whatever other visits lie within it. -/
theorem filterMap_eventsWithin (hprogram : program.Consistent) (package : Package) (earlier : List PackageId) :
    (program.eventsWithin descend package earlier).filterMap (VisitEvent.question? (FilterCall.aboutFile? package.id)) =
      reported (VisitEvent.question? (FilterCall.aboutFile? package.id)) (program.bodySteps descend package) := by
  apply Walk.filterMap_run_of_silent
  intro other _ hnew
  exact aboutFile?_visitScript_of_ne hprogram fun heq => hnew (heq ▸ List.mem_cons_self)

theorem VisitAt.onFile_not_mem {package : Package} {before after : List VisitEvent} {earlier : List PackageId}
    (h : program.VisitAt descend package before earlier after) (hprogram : program.Consistent)
    (hdescends : program.DescendsInto descend package.id package) (filter place : Nat) :
    .asked (.onFile filter package.id place) ∉ before ∧ .asked (.onFile filter package.id place) ∉ after := by
  have hcount : (program.visitPackages descend).count (.asked (.onFile filter package.id place)) =
      (program.eventsWithin descend package earlier).count (.asked (.onFile filter package.id place)) := by
    rw [← count_aboutFile?, ← count_aboutFile?, filterMap_eventsWithin hprogram, aboutFile?_bodySteps,
      if_pos ⟨hdescends.descends, rfl⟩, ← fileQuestions_of_descendsInto hprogram hdescends, fileQuestions]
  rw [h.events_eq, List.count_append, List.count_cons_of_ne (by simp), List.count_append,
    List.count_cons_of_ne (by simp)] at hcount
  simp only [← List.count_eq_zero]
  omega

/-- A question about a file is asked after its package is entered and before it is left. -/
theorem exists_spans_of_onFile (hprogram : program.Consistent) {filter place i : Nat} {id : PackageId}
    (h : (program.visitPackages descend)[i]? = some (.asked (.onFile filter id place))) :
    ∃ first last, program.Spans descend id first last ∧ first < i ∧ i < last := by
  obtain ⟨package, hdescends, _⟩ := (onFile_mem_iff hprogram filter id place).mp (List.mem_of_getElem? h)
  obtain rfl := hprogram.id_eq hdescends.package?_eq
  have hreachable := (boundary_mem_iff hprogram descend (Or.inl rfl)).mp hdescends.entered
  obtain ⟨before, earlier, after, hvisit⟩ := exists_visitAt hprogram hdescends.package?_eq hreachable
  obtain ⟨hbefore, hafter⟩ := hvisit.onFile_not_mem hprogram hdescends filter place
  refine ⟨_, _, (hvisit.spans_iff hprogram _ _).mpr ⟨rfl, rfl⟩, ?_⟩
  rcases hvisit.place_cases h with ⟨_, hout⟩ | ⟨_, heq⟩ | ⟨hfirst, hlast, _⟩ | ⟨_, heq⟩ | ⟨_, hout⟩
  · exact absurd hout hbefore
  · cases heq
  · omega
  · cases heq
  · exact absurd hout hafter

/-! Questions about packages. -/

/-- The packages that a traversal asks the package filter at a place about, in their order. -/
def packageQuestions (program : Program) (descend : Package → Bool) (filter : Nat) : List PackageId :=
  (program.visitPackages descend).filterMap (VisitEvent.question? (FilterCall.aboutPackage? filter))

theorem aboutPackage?_visitScript (filter : Nat) (id : PackageId) :
    reported (VisitEvent.question? (FilterCall.aboutPackage? filter)) (program.visitScript descend id) = [] := by
  cases hpackage : program.package? id with
  | none => exact reported_visitScript_of_none _ hpackage
  | some package =>
    rw [reported_visitScript _ hpackage, reported_bodySteps]
    split
    · refine List.flatMap_eq_nil_iff.mpr fun unit _ => ?_
      rw [fileCalls, List.filterMap_map]
      exact List.filterMap_eq_nil_iff.mpr fun _ _ => rfl
    · rfl

theorem filterMap_ite_eq {α : Type} {numbers : List Nat} (hnodup : numbers.Nodup) (number : Nat) (a : α) :
    (numbers.filterMap fun other => if other = number then some a else none) =
      if number ∈ numbers then [a] else [] := by
  induction numbers with
  | nil => rfl
  | cons first rest ih =>
    obtain ⟨hfirst, hrest⟩ := List.nodup_cons.mp hnodup
    by_cases heq : first = number
    · subst heq
      simp [ih hrest, hfirst]
    · simp [ih hrest, heq, Ne.symm heq]

theorem aboutPackage?_rootSteps (filter : Nat) (root : Package) :
    reported (VisitEvent.question? (FilterCall.aboutPackage? filter)) (program.rootSteps root) =
      if filter ∈ program.options.packageFiltersAsked root then [root.id] else [] := by
  rw [reported_rootSteps, packageCalls, List.filterMap_map]
  exact filterMap_ite_eq List.nodup_range filter root.id

theorem packageQuestions_eq (filter : Nat) :
    program.packageQuestions descend filter = program.rootPackages.flatMap fun root =>
      if filter ∈ program.options.packageFiltersAsked root then [root.id] else [] := by
  have hevents : program.packageQuestions descend filter = _ :=
    Walk.filterMap_run_of_silent fun id _ _ => aboutPackage?_visitScript filter id
  rw [hevents, Walk.reported_flatMap]
  exact List.flatMap_congr fun root _ => aboutPackage?_rootSteps filter root

theorem packageQuestions_of_lt {filter : Nat} (hfilter : filter < program.options.packageFilters.length) :
    program.packageQuestions descend filter =
      (program.rootPackages.filter (Filters.accept (program.options.packageFilters.take filter))).map (·.id) := by
  rw [packageQuestions_eq]
  induction program.rootPackages with
  | nil => rfl
  | cons root rest ih =>
    rw [List.flatMap_cons, ih, List.filter_cons]
    simp only [LoadOptions.mem_packageFiltersAsked, hfilter, true_and]
    split
    · rfl
    · rfl

theorem of_onPackage_mem (hprogram : program.Consistent) {filter : Nat} {id : PackageId}
    (h : .asked (.onPackage filter id) ∈ program.visitPackages descend) :
    filter < program.options.packageFilters.length ∧ id ∈ program.roots := by
  have hmem : id ∈ program.packageQuestions descend filter :=
    List.mem_filterMap.mpr ⟨_, h, (FilterCall.aboutPackage?_eq_some_iff _ _ _).mpr rfl⟩
  rw [packageQuestions_eq, List.mem_flatMap] at hmem
  obtain ⟨root, hroot, hid⟩ := hmem
  split at hid
  · next hasked =>
    obtain ⟨listed, hlisted, hpackage⟩ := List.mem_filterMap.mp hroot
    rw [List.mem_singleton.mp hid, hprogram.id_eq hpackage]
    exact ⟨((LoadOptions.mem_packageFiltersAsked _ _ _).mp hasked).1, hlisted⟩
  · exact absurd hid List.not_mem_nil

/-- Filters are asked when their answer is needed, and only then. A file filter is asked about a file at most once,
    and that exactly if the traversal descends into the package, the file is not the one that a test run
    generates and the filters before it accept the file; the packages that a traversal comes to are those that
    followed imports lead to. The questions about a package come in the order of its files and, for one file, of
    the filters, all between entering and leaving the package. A package filter is asked about every entry of
    the root list whose package the filters before it accept, one after the other, and about no package that is
    not a root. -/
theorem filters_asked_when_needed {host : Host} {directory : String} {options : LoadOptions} {frontEnd : FrontEnd}
    {program : Program} (h : (load host directory options frontEnd).outcome = .ok program)
    (descend : Package → Bool) :
    (∀ filter id place,
      (program.visitPackages descend).count (.asked (.onFile filter id place)) ≤ 1 ∧
      (.asked (.onFile filter id place) ∈ program.visitPackages descend ↔
        ∃ package, program.DescendsInto descend id package ∧
          ∃ unit ∈ program.unitsOf package, unit.place = place ∧ options.NeedsFileFilter filter unit)) ∧
    (∀ id, .enter id ∈ program.visitPackages descend ↔ program.Reachable descend id) ∧
    (∀ id, (program.fileQuestions descend id).Pairwise (Prod.Lex (· < ·) (· < ·))) ∧
    (∀ filter id place i, (program.visitPackages descend)[i]? = some (.asked (.onFile filter id place)) →
      ∃ first last, program.Spans descend id first last ∧ first < i ∧ i < last) ∧
    (∀ filter, filter < options.packageFilters.length → program.packageQuestions descend filter =
      (program.rootPackages.filter (Filters.accept (options.packageFilters.take filter))).map (·.id)) ∧
    (∀ filter id, .asked (.onPackage filter id) ∈ program.visitPackages descend →
      filter < options.packageFilters.length ∧ id ∈ program.roots) := by
  have hprogram := consistent_of_load h
  obtain rfl := options_of_load h
  refine ⟨fun filter id place => ⟨?_, ?_⟩, fun id => boundary_mem_iff hprogram descend (Or.inl rfl),
    pairwise_fileQuestions hprogram, ?_, ?_, ?_⟩
  · rw [← count_aboutFile?]
    exact List.nodup_iff_count.mp (pairwise_fileQuestions hprogram id).nodup _
  · exact onFile_mem_iff hprogram filter id place
  · intro filter id place i hplace
    exact exists_spans_of_onFile hprogram hplace
  · intro filter hfilter
    exact packageQuestions_of_lt hfilter
  · intro filter id hmem
    exact of_onPackage_mem hprogram hmem

/-! A package with a file that a test run generates. -/

/-- Its first file imports a package that leads back, and its second file another one; a test run generates
    its last file. -/
def testedPackage : Package where
  key := "a"
  path := "a"
  name := "a"
  files := (packageImporting "a" [["b"], ["c"]]).files ++
    [⟨⟨2⟩, "main", ⟨50, [[⟨0, "// Code generated by 'go test'. DO NOT EDIT."⟩]],
      [⟨none, PathLiteral.quote "c", 60⟩], []⟩⟩]
  imports := .ofList [("b", ⟨1⟩), ("c", ⟨2⟩)]

/-- The package that leads back is no root, and the tested package is a root twice. -/
def pickyFindings : Findings where
  packages := [testedPackage, packageImporting "b" [["a"]], packageImporting "c" []]
  roots := [⟨0⟩, ⟨2⟩, ⟨0⟩]

/-- One package is not wanted, nor is the second file of any package. -/
def pickyOptions : LoadOptions where
  dependencies := true
  packageFilters := [fun package => package.path != "c", fun _ => true]
  fileFilters := [fun unit => unit.place != 1, fun _ => true]

def pickyProgram : Program := ofFindings pickyOptions "/" pickyFindings

theorem load_pickyFindings : (load {} "/" pickyOptions fun _ => .ok pickyFindings).outcome = .ok pickyProgram := rfl

theorem visitPackages_pickyProgram : pickyProgram.visitPackages (fun _ => true) =
    [.asked (.onPackage 0 ⟨0⟩), .asked (.onPackage 1 ⟨0⟩), .enter ⟨0⟩, .asked (.onFile 0 ⟨0⟩ 0),
     .asked (.onFile 1 ⟨0⟩ 0), .enter ⟨1⟩, .asked (.onFile 0 ⟨1⟩ 0), .asked (.onFile 1 ⟨1⟩ 0), .leave ⟨1⟩,
     .asked (.onFile 0 ⟨0⟩ 1), .leave ⟨0⟩, .asked (.onPackage 0 ⟨2⟩), .asked (.onPackage 0 ⟨0⟩),
     .asked (.onPackage 1 ⟨0⟩)] := by
  cbv

/-- The answer of the second file filter is needed about the first file of the package, but not about the second
    file, which the first filter refuses, nor is any about the generated file; the last question about the
    package comes after the visit of an imported one, and the second package filter is not asked about the
    root that the first one refuses. -/
theorem filters_asked_when_needed_pickyProgram :
    (∃ unit ∈ pickyProgram.unitsOf testedPackage, unit.place = 0 ∧ pickyOptions.NeedsFileFilter 1 unit) ∧
    (∀ unit ∈ pickyProgram.unitsOf testedPackage, unit.place = 1 → ¬ pickyOptions.NeedsFileFilter 1 unit) ∧
    (∀ unit ∈ pickyProgram.unitsOf testedPackage, unit.place = 2 → ¬ pickyOptions.NeedsFileFilter 0 unit) ∧
    pickyProgram.fileQuestions (fun _ => true) ⟨0⟩ = [(0, 0), (0, 1), (1, 0)] ∧
    (∃ first last, pickyProgram.Spans (fun _ => true) ⟨0⟩ first last ∧ first < 9 ∧ 9 < last) ∧
    pickyProgram.packageQuestions (fun _ => true) 0 = [⟨0⟩, ⟨2⟩, ⟨0⟩] ∧
    pickyProgram.packageQuestions (fun _ => true) 1 = [⟨0⟩, ⟨0⟩] := by
  obtain ⟨hfiles, _, _, hspans, hpackages, _⟩ := filters_asked_when_needed load_pickyFindings fun _ => true
  have hevents := visitPackages_pickyProgram
  have hdescends : pickyProgram.DescendsInto (fun _ => true) ⟨0⟩ testedPackage := by
    refine ⟨rfl, ?_, rfl⟩
    rw [hevents]
    decide
  have hneeded : ∀ filter place, .asked (.onFile filter ⟨0⟩ place) ∈ pickyProgram.visitPackages (fun _ => true) →
      ∃ unit ∈ pickyProgram.unitsOf testedPackage, unit.place = place ∧ pickyOptions.NeedsFileFilter filter unit := by
    intro filter place hmem
    obtain ⟨package, hpackage, hunit⟩ := (hfiles filter ⟨0⟩ place).2.mp hmem
    cases hpackage.package?_eq
    exact hunit
  have hneedless : ∀ filter place, .asked (.onFile filter ⟨0⟩ place) ∉ pickyProgram.visitPackages (fun _ => true) →
      ∀ unit ∈ pickyProgram.unitsOf testedPackage, unit.place = place → ¬ pickyOptions.NeedsFileFilter filter unit := by
    intro filter place hmem unit hunit hplace hneeds
    exact hmem ((hfiles filter ⟨0⟩ place).2.mpr ⟨testedPackage, hdescends, unit, hunit, hplace, hneeds⟩)
  refine ⟨hneeded 1 0 ?_, hneedless 1 1 ?_, hneedless 0 2 ?_, ?_, hspans 0 ⟨0⟩ 1 9 ?_, ?_, ?_⟩
  · rw [hevents]
    decide
  · rw [hevents]
    decide
  · rw [hevents]
    decide
  · rw [fileQuestions, hevents]
    decide
  · rw [hevents]
    decide
  · rw [hpackages 0 (by decide)]
    rfl
  · rw [hpackages 1 (by decide)]
    cbv

end Program

end ProgramIndex
