import ProgramIndex.Proofs.AddedFilters

/- What a load logs. Each part of its log has events of one level (`filter_level_log`). An error event stands for one
   diagnostic of one reached package (`Package.errorEvents`). If diagnostics are logged, the error events of a load are
   those of the reached packages, in the order in which these were gathered (`filter_isError_log`), and since no
   package is gathered twice a diagnostic is logged as often as its package has it (`count_flatMap_errorEvents`). If
   they are not logged, there are no error events, and all else is the same (`filter_not_isError_log`). The trace
   events are the notes about generated files, in the order of the host (`filter_isTrace_log`). If paths tell the
   reached packages apart, the index lists these as they were gathered (`indexedPackages_of_nodup`), so what is logged
   is what the program answers (`diagnostics_logged_once`). -/
namespace ProgramIndex

namespace LogEvent

def isError (event : LogEvent) : Bool := decide (event.level = .error)

def isTrace (event : LogEvent) : Bool := decide (event.level = .trace)

/-- The diagnostic that an event stands for, with the number of its package. -/
def diagnostic? : LogEvent → Option (PackageId × Diagnostic)
  | .diagnostic package _ d => some (package, d)
  | _ => none

theorem filter_of_level {events : List LogEvent} {level : LogLevel} (h : ∀ event ∈ events, event.level = level)
    (keep : LogLevel → Bool) : events.filter (fun event => keep event.level) = if keep level then events else [] := by
  split
  · next hkeep => exact List.filter_eq_self.mpr fun event hevent => (h event hevent).symm ▸ hkeep
  · next hdrop => exact List.filter_eq_nil_iff.mpr fun event hevent => (h event hevent).symm ▸ hdrop

end LogEvent

/-- One error event for each diagnostic of a package, in order. -/
def Package.errorEvents (package : Package) : List LogEvent :=
  package.diagnostics.map fun d => .diagnostic package.id package.path d

theorem level_of_mem_flatMap_errorEvents {packages : List Package} {event : LogEvent}
    (h : event ∈ packages.flatMap Package.errorEvents) : event.level = .error := by
  obtain ⟨package, _, hmem⟩ := List.mem_flatMap.mp h
  obtain ⟨d, _, rfl⟩ := List.mem_map.mp hmem
  rfl

theorem Package.diagnostic_not_mem_errorEvents {package other : Package} (h : other.id ≠ package.id) (d : Diagnostic) :
    .diagnostic package.id package.path d ∉ other.errorEvents := by
  intro hmem
  obtain ⟨_, _, heq⟩ := List.mem_map.mp hmem
  exact h (LogEvent.diagnostic.inj heq).1

theorem Package.count_errorEvents (package : Package) (d : Diagnostic) :
    package.errorEvents.count (.diagnostic package.id package.path d) = package.diagnostics.count d :=
  List.count_map_of_injective _ _ (fun _ _ heq => (LogEvent.diagnostic.inj heq).2.2) _

namespace Program
variable {program : Program}

/-! The reached packages. -/

theorem nodup_reached (hloaded : program.Loaded) : program.reached.Nodup := by
  rw [hloaded.reached_eq]
  exact nodup_gather _ _ _

theorem map_id_reachedPackages (hloaded : program.Loaded) : program.reachedPackages.map (·.id) = program.reached := by
  rw [reachedPackages, List.map_filterMap]
  have hsome : ∀ id ∈ program.reached, (program.package? id).map (·.id) = some id := by
    intro id hid
    rw [hloaded.reached_eq] at hid
    obtain ⟨package, hpackage⟩ := exists_package_of_mem_gather hid
    have hfound : program.package? id = some package := hpackage
    rw [hfound, Option.map_some, hloaded.id_eq hfound]
  rw [List.filterMap_congr hsome, List.filterMap_some]

theorem package?_of_mem_reachedPackages (hloaded : program.Loaded) {package : Package}
    (h : package ∈ program.reachedPackages) : program.package? package.id = some package := by
  obtain ⟨id, _, hpackage⟩ := List.mem_filterMap.mp h
  rw [hloaded.id_eq hpackage]
  exact hpackage

theorem count_flatMap_errorEvents_of_not_mem {packages : List Package} {package : Package}
    (h : package.id ∉ packages.map (·.id)) (d : Diagnostic) :
    (packages.flatMap Package.errorEvents).count (.diagnostic package.id package.path d) = 0 := by
  apply List.count_eq_zero.mpr
  intro hmem
  obtain ⟨other, hother, hevent⟩ := List.mem_flatMap.mp hmem
  have hne : other.id ≠ package.id := fun heq => h (heq ▸ List.mem_map_of_mem hother)
  exact Package.diagnostic_not_mem_errorEvents hne d hevent

/-- If packages have numbers of their own, a diagnostic of one of them has as many events as that one has it. -/
theorem count_flatMap_errorEvents {packages : List Package} (hids : (packages.map (·.id)).Nodup) {package : Package}
    (h : package ∈ packages) (d : Diagnostic) :
    (packages.flatMap Package.errorEvents).count (.diagnostic package.id package.path d) =
      package.diagnostics.count d := by
  obtain ⟨before, after, rfl⟩ := List.append_of_mem h
  rw [List.map_append, List.map_cons, List.nodup_append, List.nodup_cons] at hids
  obtain ⟨_, ⟨hafter, _⟩, hapart⟩ := hids
  have hbefore : package.id ∉ before.map (·.id) := fun hmem => hapart _ hmem _ List.mem_cons_self rfl
  rw [List.flatMap_append, List.flatMap_cons, List.count_append, List.count_append,
    count_flatMap_errorEvents_of_not_mem hbefore, count_flatMap_errorEvents_of_not_mem hafter,
    Package.count_errorEvents]
  omega

/-! The log. -/

/-- What is logged besides diagnostics. -/
def plainLog (host : Host) (program : Program) : List LogEvent :=
  program.options.loadingEvent program.directory ::
    ((if program.roots = [] then [.noPackages] else []) ++ program.generatedEvents host ++
      [.complete program.roots.length program.index.size program.generatedFiles.length])

section Log
variable {host : Host} {directory : String} {options : LoadOptions} {frontEnd : FrontEnd}
  (h : (load host directory options frontEnd).outcome = .ok program)
include h

/-- The events of a load, picked by their level: each part of the log has events of one level only. -/
theorem filter_level_log (keep : LogLevel → Bool) :
    (load host directory options frontEnd).log.filter (fun event => keep event.level) =
      (if keep .debug then [options.loadingEvent program.directory] else []) ++
      (if keep .warn then if program.roots = [] then [.noPackages] else [] else []) ++
      (if keep .error then
        if options.logDiagnostics then program.reachedPackages.flatMap Package.errorEvents else [] else []) ++
      (if keep .trace then program.generatedEvents host else []) ++
      (if keep .debug then
        [.complete program.roots.length program.index.size program.generatedFiles.length] else []) := by
  have hloading : ∀ event ∈ [options.loadingEvent program.directory], event.level = .debug := by
    simp [LoadOptions.loadingEvent, LogEvent.level]
  have hempty : ∀ event ∈ if program.roots = [] then [LogEvent.noPackages] else [], event.level = .warn := by
    split <;> simp [LogEvent.level]
  have hdiagnostics : ∀ event ∈ if options.logDiagnostics then program.diagnosticEvents else [],
      event.level = .error := by
    split
    · exact fun event => level_of_mem_flatMap_errorEvents
    · simp
  have hcomplete : ∀ event ∈ [LogEvent.complete program.roots.length program.index.size program.generatedFiles.length],
      event.level = .debug := by simp [LogEvent.level]
  rw [log_of_load h, ← List.singleton_append, completionLog, options_of_load h]
  simp only [List.filter_append, LogEvent.filter_of_level hloading, LogEvent.filter_of_level hempty,
    LogEvent.filter_of_level hdiagnostics, LogEvent.filter_of_level fun event => level_of_mem_generatedEvents,
    LogEvent.filter_of_level hcomplete, List.append_assoc]
  rfl

/-- The error events of a load are the diagnostics of the reached packages, if diagnostics are logged. -/
theorem filter_isError_log :
    (load host directory options frontEnd).log.filter LogEvent.isError =
      if options.logDiagnostics then program.reachedPackages.flatMap Package.errorEvents else [] :=
  (filter_level_log h fun level => decide (level = .error)).trans (by simp)

theorem filter_not_isError_log :
    (load host directory options frontEnd).log.filter (fun event => !event.isError) = program.plainLog host :=
  (filter_level_log h fun level => !decide (level = .error)).trans (by simp [plainLog, options_of_load h])

/-- A load notes every file with a marker, and each one once. -/
theorem filter_isTrace_log :
    (load host directory options frontEnd).log.filter LogEvent.isTrace = program.generatedEvents host :=
  (filter_level_log h fun level => decide (level = .trace)).trans (by simp)

theorem requests_of_load :
    ∃ absolute, Directory.absolute? host.workingDirectory directory = some absolute ∧
      (load host directory options frontEnd).requests = [options.request absolute] := by
  obtain ⟨absolute, findings, habsolute, hfindings, hfault, _⟩ := exists_of_load h
  refine ⟨absolute, habsolute, ?_⟩
  simp only [load, habsolute, hfindings, hfault]

end Log

/-! What a program answers. -/

/-- If paths tell the reached packages apart, the index lists them as they were gathered. -/
theorem indexedPackages_of_nodup (hloaded : program.Loaded) (hpaths : (program.reachedPackages.map (·.path)).Nodup) :
    program.indexedPackages = program.reachedPackages := by
  have hentries : program.index.entries = program.reachedPackages.map fun package => (package.path, package.id) := by
    rw [hloaded.index_eq]
    apply OrderedMap.entries_ofList_of_nodup
    rwa [List.map_map]
  rw [indexedPackages, OrderedMap.values, hentries, List.map_map, List.filterMap_map]
  calc program.reachedPackages.filterMap (fun package => program.package? package.id)
      = program.reachedPackages.filterMap some :=
        List.filterMap_congr fun package => package?_of_mem_reachedPackages hloaded
    _ = program.reachedPackages := List.filterMap_some

theorem filterMap_diagnostic?_flatMap (packages : List Package) :
    (packages.flatMap Package.errorEvents).filterMap LogEvent.diagnostic? =
      packages.flatMap fun package => package.diagnostics.map fun d => (package.id, d) := by
  have hone : ∀ package : Package, package.errorEvents.filterMap LogEvent.diagnostic? =
      package.diagnostics.map fun d => (package.id, d) := by
    intro package
    rw [Package.errorEvents, List.filterMap_map, ← List.filterMap_eq_map]
    rfl
  rw [List.filterMap_flatMap]
  exact congrArg packages.flatMap (funext hone)

/-- A load logs every diagnostic of every reached package, be it an error or a warning, and each one once: the error
    events are those of the reached packages in the order in which these were gathered, each package once, however
    often it is a root or imported and whether or not the index names it. If diagnostics are not logged, there are no
    error events; whether they are logged makes no other difference to the log, to what is asked for or to the
    program. If paths tell the reached packages apart, what is logged is what the program answers, in the same
    order. -/
theorem diagnostics_logged_once {host : Host} {directory : String} {options : LoadOptions} {frontEnd : FrontEnd}
    {program : Program} (h : (load host directory options frontEnd).outcome = .ok program) :
    let log := (load host directory options frontEnd).log
    (options.logDiagnostics = true →
      log.filter LogEvent.isError = program.reachedPackages.flatMap Package.errorEvents ∧
      ∀ package, program.package? package.id = some package → ∀ d,
        (log.filter LogEvent.isError).count (.diagnostic package.id package.path d) =
          if package.id ∈ program.reached then package.diagnostics.count d else 0) ∧
    (program.reachedPackages.map (·.id) = program.reached ∧ program.reached.Nodup ∧
      ∀ id, id ∈ program.reached ↔ ∃ root ∈ program.roots,
        Relation.ReflTransGen (Loads program.packages options.dependencies) root id) ∧
    (options.logDiagnostics = false → log.filter LogEvent.isError = []) ∧
    (∀ logs, let other := load host directory { options with logDiagnostics := logs } frontEnd
      other.outcome = .ok (program.withOptions { options with logDiagnostics := logs }) ∧
      other.requests = (load host directory options frontEnd).requests ∧
      other.log.filter (fun event => !event.isError) = log.filter fun event => !event.isError) ∧
    (options.logDiagnostics = true → (program.reachedPackages.map (·.path)).Nodup →
      (log.filter LogEvent.isError).filterMap LogEvent.diagnostic? = program.diagnostics) := by
  intro log
  have hloaded := loaded_of_load h
  have herrors : log.filter LogEvent.isError = _ := filter_isError_log h
  have hids := map_id_reachedPackages hloaded
  have hnodup := nodup_reached hloaded
  refine ⟨fun hlogs => ?_, ⟨hids, hnodup, ?_⟩, fun hquiet => ?_, fun logs => ?_, fun hlogs hpaths => ?_⟩
  · rw [if_pos hlogs] at herrors
    refine ⟨herrors, fun package hpackage d => ?_⟩
    rw [herrors]
    split
    · next hreached =>
      have hmem : package ∈ program.reachedPackages := List.mem_filterMap.mpr ⟨package.id, hreached, hpackage⟩
      exact count_flatMap_errorEvents (hids ▸ hnodup) hmem d
    · next hunreached => exact count_flatMap_errorEvents_of_not_mem (hids ▸ hunreached) d
  · rw [← options_of_load h]
    exact mem_reached hloaded
  · rw [herrors, hquiet, if_neg Bool.false_ne_true]
  · have hother : (load host directory { options with logDiagnostics := logs } frontEnd).outcome =
        .ok (program.withOptions { options with logDiagnostics := logs }) := load_of_same_request h fun _ => rfl
    refine ⟨hother, ?_, ?_⟩
    · obtain ⟨absolute, habsolute, hrequests⟩ := requests_of_load h
      obtain ⟨absolute', habsolute', hrequests'⟩ := requests_of_load hother
      rw [hrequests, hrequests', Option.some.inj (habsolute.symm.trans habsolute')]
      rfl
    · rw [filter_not_isError_log hother, filter_not_isError_log h, plainLog, plainLog, options_of_load h]
      rfl
  · rw [herrors, if_pos hlogs, filterMap_diagnostic?_flatMap, diagnostics, indexedPackages_of_nodup hloaded hpaths]

/-- A package that lists a repeated error, imports the next package and is asked for twice; the next one lists a
    warning and imports it. -/
def troubledFindings : Findings where
  packages :=
    [{ key := "a", path := "a", name := "a", imports := .ofList [("b", ⟨1⟩)],
       diagnostics :=
         [⟨.type, .error, some "a.go:1:1", "undefined: x"⟩, ⟨.type, .error, some "a.go:1:1", "undefined: x"⟩] },
     { key := "b", path := "b", name := "b", imports := .ofList [("a", ⟨0⟩)],
       diagnostics := [⟨.list, .warning, none, "import cycle"⟩] }]
  roots := [⟨0⟩, ⟨0⟩]

def troubledProgram : Program := ofFindings { dependencies := true } "/" troubledFindings

theorem load_troubledFindings :
    (load {} "/" { dependencies := true } fun _ => .ok troubledFindings).outcome = .ok troubledProgram := rfl

/-- The warning of the imported package comes first, and the error twice, as it is listed. -/
theorem diagnostics_logged_once_troubledProgram :
    let log := (load {} "/" { dependencies := true } fun _ => .ok troubledFindings).log
    (log.filter LogEvent.isError).map LogEvent.message =
      ["import cycle", "a.go:1:1: undefined: x", "a.go:1:1: undefined: x"] ∧
    (log.filter LogEvent.isError).filterMap LogEvent.diagnostic? = troubledProgram.diagnostics ∧
    (load {} "/" { dependencies := true, logDiagnostics := false } fun _ => .ok troubledFindings).log.filter
      (fun event => !event.isError) = log.filter fun event => !event.isError := by
  obtain ⟨hlogged, _, _, hquiet, hanswered⟩ := diagnostics_logged_once load_troubledFindings
  have hreached : troubledProgram.reached = [⟨1⟩, ⟨0⟩] := by cbv
  have hpackages : troubledProgram.reachedPackages = [⟨1⟩, ⟨0⟩].filterMap troubledProgram.package? := by
    rw [reachedPackages, hreached]
  refine ⟨?_, hanswered rfl ?_, (hquiet false).2.2⟩
  · rw [(hlogged rfl).1, hpackages]
    rfl
  · rw [hpackages]
    exact (by decide : ["b", "a"].Nodup)

end Program

end ProgramIndex
