import ProgramIndex.Proofs.DiagnosticLog
import ProgramIndex.Proofs.Reordering

/- The order in which a package's table of imports was filled. Findings may differ in nothing but that
   (`Findings.Shuffled`). A load goes through the imports of a package in the order of their paths, which is the same
   in both (`Package.Shuffled.sortedImports_eq`), so both walks have one script and gather one list
   (`gather_shuffled`). All else that a load reads of a package has nothing to do with its imports
   (`eq_of_readsNoImports`). So both programs are the same but for the tables of imports themselves
   (`ofFindings_shuffled`), and what is logged is the same if both loads note generated files in one order. The order
   is up to the host; between two hosts nothing else in the log differs (`LogEvent.SameButNotes`,
   `sameButNotes_log_of_load`). All this together is `load_ignores_insertion_order`. -/
namespace ProgramIndex

/-- Two packages that differ only in the order in which their tables of imports were filled. -/
structure Package.Shuffled (first second : Package) : Prop where
  imports : first.imports.entries.Perm second.imports.entries
  others : second = { first with imports := second.imports }

/-- Two findings whose packages differ only in that. -/
structure Findings.Shuffled (first second : Findings) : Prop where
  packages : List.Forall₂ Package.Shuffled first.packages second.packages
  others : second = { first with packages := second.packages }

/-- All of a package but its imports. -/
def Package.withoutImports (package : Package) : Package := { package with imports := .empty }

/-! What a load reads of a package. -/

theorem Package.Shuffled.withoutImports_eq {first second : Package} (h : first.Shuffled second) :
    first.withoutImports = second.withoutImports := by
  rw [h.others]
  rfl

theorem Package.Shuffled.sortedImports_eq {first second : Package} (h : first.Shuffled second) :
    first.sortedImports = second.sortedImports :=
  congrArg (List.map Prod.snd) (OrderedMap.entriesByKey_eq_of_perm h.imports)

theorem Package.Shuffled.reordered {first second : Package} (h : first.Shuffled second) : first.Reordered second := by
  have hothers := h.others
  have hreordered : first.Reordered { first with imports := second.imports } :=
    { Package.Reordered.refl first with imports := h.imports }
  rwa [← hothers] at hreordered

theorem Findings.Shuffled.reordered {first second : Findings} (h : first.Shuffled second) : first.Reordered second := by
  have hpackages : List.Forall₂ Package.Reordered first.packages second.packages :=
    h.packages.imp fun _ _ => Package.Shuffled.reordered
  have hreordered : first.Reordered { first with packages := second.packages } :=
    ⟨hpackages, fun _ => Iff.rfl, rfl, rfl, rfl⟩
  rwa [← h.others] at hreordered

theorem shuffled_numbered {packages others : List Package} (h : List.Forall₂ Package.Shuffled packages others) :
    List.Forall₂ Package.Shuffled (numbered packages) (numbered others) := by
  apply List.forall₂_iff_get.mpr
  refine ⟨by rw [length_numbered, length_numbered, h.length_eq], fun i hi hi' => ?_⟩
  have hpair := h.get (length_numbered packages ▸ hi) (length_numbered others ▸ hi')
  simp only [numbered, List.get_eq_getElem, List.getElem_map, List.getElem_zipIdx] at hpair ⊢
  exact ⟨hpair.imports, congrArg (fun package => { package with id := ⟨0 + i⟩ }) hpair.others⟩

section Shuffled
variable {packages others : List Package} (h : List.Forall₂ Package.Shuffled packages others)
include h

theorem map_withoutImports_shuffled :
    packages.map Package.withoutImports = others.map Package.withoutImports := by
  induction h with
  | nil => rfl
  | cons hpackage _ ih => rw [List.map_cons, List.map_cons, hpackage.withoutImports_eq, ih]

theorem gatherScript_shuffled (dependencies : Bool) :
    gatherScript packages dependencies = gatherScript others dependencies := by
  funext id
  cases hpackage : packages[id.index]? with
  | some package =>
    obtain ⟨other, hother, hshuffled⟩ := exists_getElem?_of_forall₂ h hpackage
    rw [gatherScript_of_package hpackage, gatherScript_of_package hother, hshuffled.sortedImports_eq]
  | none =>
    have hother : others[id.index]? = none := by
      rw [List.getElem?_eq_none_iff] at hpackage ⊢
      exact h.length_eq ▸ hpackage
    rw [gatherScript, gatherScript, hpackage, hother]

theorem gather_shuffled (dependencies : Bool) (roots : List PackageId) :
    gather packages dependencies roots = gather others dependencies roots := by
  rw [gather, gather, gatherScript_shuffled h, h.length_eq]

theorem map_withoutImports_filterMap (ids : List PackageId) :
    (ids.filterMap fun id => packages[id.index]?).map Package.withoutImports =
      (ids.filterMap fun id => others[id.index]?).map Package.withoutImports := by
  rw [List.map_filterMap, List.map_filterMap]
  congr 1
  funext id
  rw [← List.getElem?_map, ← List.getElem?_map, map_withoutImports_shuffled h]

end Shuffled

/-- What does not look at imports is the same of packages that are the same but for their imports. -/
theorem eq_of_readsNoImports {β : Type} {read : List Package → β}
    (hread : ∀ packages, read (packages.map Package.withoutImports) = read packages) {packages others : List Package}
    (h : packages.map Package.withoutImports = others.map Package.withoutImports) : read packages = read others :=
  calc read packages
      = read (packages.map Package.withoutImports) := (hread packages).symm
    _ = read (others.map Package.withoutImports) := congrArg read h
    _ = read others := hread others

theorem indexByPath_withoutImports (packages : List Package) :
    indexByPath (packages.map Package.withoutImports) = indexByPath packages := by
  rw [indexByPath, List.map_map]
  rfl

theorem markersByName_withoutImports (packages : List Package) :
    markersByName (packages.map Package.withoutImports) = markersByName packages := by
  rw [markersByName, List.flatMap_map]
  rfl

theorem ownersByFile_withoutImports (packages : List Package) :
    ownersByFile (packages.map Package.withoutImports) = ownersByFile packages := by
  rw [ownersByFile, listings, List.flatMap_map]
  rfl

theorem flatMap_errorEvents_withoutImports (packages : List Package) :
    (packages.map Package.withoutImports).flatMap Package.errorEvents = packages.flatMap Package.errorEvents := by
  rw [List.flatMap_map]
  rfl

namespace Program

/-- Both programs are the same but for the tables of imports. -/
theorem ofFindings_shuffled (options : LoadOptions) (directory : String) {first second : Findings}
    (h : first.Shuffled second) :
    ofFindings options directory second =
      { ofFindings options directory first with packages := numbered second.packages } := by
  have hnumbered := shuffled_numbered h.packages
  have hgather := gather_shuffled hnumbered options.dependencies first.roots
  have hreached := map_withoutImports_filterMap hnumbered
    (gather (numbered first.packages) options.dependencies first.roots)
  have hothers := h.others
  have hroots : second.roots = first.roots := by rw [hothers]
  have hsymbols : second.symbols = first.symbols := by rw [hothers]
  have hscope : second.universeScope = first.universeScope := by rw [hothers]
  have hfiles : second.files = first.files := by rw [hothers]
  simp only [ofFindings, hroots, hsymbols, hscope, hfiles, ← hgather,
    eq_of_readsNoImports indexByPath_withoutImports hreached,
    eq_of_readsNoImports markersByName_withoutImports hreached,
    eq_of_readsNoImports ownersByFile_withoutImports (map_withoutImports_shuffled hnumbered)]

theorem diagnosticEvents_shuffled (options : LoadOptions) (directory : String) {first second : Findings}
    (h : first.Shuffled second) :
    (ofFindings options directory second).diagnosticEvents = (ofFindings options directory first).diagnosticEvents := by
  have hreached := map_withoutImports_filterMap (shuffled_numbered h.packages)
    (ofFindings options directory first).reached
  rw [ofFindings_shuffled options directory h]
  exact (eq_of_readsNoImports flatMap_errorEvents_withoutImports hreached).symm

theorem completionLog_shuffled (host : Host) (options : LoadOptions) (directory : String) {first second : Findings}
    (h : first.Shuffled second) :
    (ofFindings options directory second).completionLog host =
      (ofFindings options directory first).completionLog host := by
  rw [completionLog, diagnosticEvents_shuffled options directory h, ofFindings_shuffled options directory h]
  rfl

end Program

/-- Two logs that differ at most in the order of the notes about generated files, which stand together in both. -/
inductive LogEvent.SameButNotes : List LogEvent → List LogEvent → Prop where
  | intro (before after : List LogEvent) {notes others : List (String × String)} (perm : notes.Perm others) :
    SameButNotes (before ++ notes.map .ofGenerated ++ after) (before ++ others.map .ofGenerated ++ after)

/-- Two hosts on which a load makes the same program log the same, but for the order of the notes. -/
theorem sameButNotes_log_of_load {host other : Host} {directory : String} {options : LoadOptions}
    {frontEnd : FrontEnd} {program : Program} (h : (load host directory options frontEnd).outcome = .ok program)
    (hother : (load other directory options frontEnd).outcome = .ok program) :
    LogEvent.SameButNotes (load host directory options frontEnd).log (load other directory options frontEnd).log := by
  have hperm : (host.order program.generatedFiles).Perm (other.order program.generatedFiles) :=
    (host.perm_order _).trans (other.perm_order _).symm
  rw [log_of_load h, log_of_load hother]
  exact .intro (options.loadingEvent program.directory ::
    ((if program.roots = [] then [.noPackages] else []) ++
      if program.options.logDiagnostics then program.diagnosticEvents else [])) _ hperm

namespace Program

/-- In which order the tables of imports were filled makes no difference to a load: the same packages are gathered in
    the same order, the index has the same paths in the same order, the same generators are known, and nothing but the
    tables themselves differs between the two programs. In whichever order the files with a marker are noted, the log
    is the same; if the two loads note them in different orders, nothing else in the log differs. -/
theorem load_ignores_insertion_order {host : Host} {directory : String} {options : LoadOptions}
    {first second : Findings} {program : Program}
    (h : (load host directory options fun _ => .ok first).outcome = .ok program) (hshuffled : first.Shuffled second) :
    ∃ other : Program, other.reached = program.reached ∧ other.index = program.index ∧
      other.markers = program.markers ∧ other = { program with packages := other.packages } ∧
      ∀ rerun : Host, rerun.workingDirectory = host.workingDirectory →
        let again := load rerun directory options fun _ => .ok second
        again.outcome = .ok other ∧ again.log = (load rerun directory options fun _ => .ok first).log ∧
        LogEvent.SameButNotes (load host directory options fun _ => .ok first).log again.log := by
  obtain ⟨absolute, findings, habsolute, hfound, hfault, rfl⟩ := exists_of_load h
  cases hfound
  have hfault' := hshuffled.reordered.fault?_eq_none hfault
  have hprogram := ofFindings_shuffled options absolute hshuffled
  refine ⟨ofFindings options absolute second, by rw [hprogram], by rw [hprogram], by rw [hprogram], hprogram,
    fun rerun hdirectory => ?_⟩
  rw [← hdirectory] at habsolute
  have hfirst : (load rerun directory options fun _ => .ok first).outcome = .ok (ofFindings options absolute first) := by
    simp only [load, habsolute, hfault]
  have hsecond : (load rerun directory options fun _ => .ok second).outcome =
      .ok (ofFindings options absolute second) := by
    simp only [load, habsolute, hfault']
  have hlog : (load rerun directory options fun _ => .ok second).log =
      (load rerun directory options fun _ => .ok first).log := by
    rw [log_of_load hsecond, log_of_load hfirst, completionLog_shuffled rerun options absolute hshuffled]
    rfl
  refine ⟨hsecond, hlog, ?_⟩
  rw [hlog]
  exact sameButNotes_log_of_load h hfirst

/-- A package that imports two others, which import it again, and whose table of imports was filled as given. Its two
    imports have one path but for the last letter, and the last package is a variant of the first. Two files have a
    marker. -/
def ringFindings (imports : List (String × PackageId)) : Findings where
  packages :=
    [{ key := "a", path := "a", name := "a", imports := .ofList imports,
       files := [⟨⟨0⟩, "main.go", { packageOffset := 50, comments := [[⟨0, "// Code generated g DO NOT EDIT."⟩]] }⟩],
       diagnostics := [⟨.type, .error, none, "undefined: x"⟩] },
     { key := "c", path := "lib/c", name := "c", imports := .ofList [("a", ⟨0⟩)],
       diagnostics := [⟨.list, .warning, none, "import cycle"⟩] },
     { key := "b", path := "lib/b", name := "b", imports := .ofList [("a", ⟨3⟩)],
       files := [⟨⟨1⟩, "b.go", { packageOffset := 50, comments := [[⟨0, "// Code generated h DO NOT EDIT."⟩]] }⟩],
       diagnostics := [⟨.parse, .error, none, "unexpected newline"⟩] },
     { key := "a.test", path := "a", name := "a" }]
  roots := [⟨0⟩]

theorem shuffled_ringFindings :
    (ringFindings [("lib/c", ⟨1⟩), ("lib/b", ⟨2⟩)]).Shuffled (ringFindings [("lib/b", ⟨2⟩), ("lib/c", ⟨1⟩)]) where
  packages := by
    have hsame : ∀ package : Package, package.Shuffled package := fun _ => ⟨List.Perm.refl _, rfl⟩
    exact .cons ⟨List.Perm.swap _ _ _, rfl⟩ (.cons (hsame _) (.cons (hsame _) (.cons (hsame _) .nil)))
  others := rfl

def ringProgram : Program := ofFindings { dependencies := true } "/" (ringFindings [("lib/c", ⟨1⟩), ("lib/b", ⟨2⟩)])

theorem load_ringFindings :
    (load {} "/" { dependencies := true } fun _ => .ok (ringFindings [("lib/c", ⟨1⟩), ("lib/b", ⟨2⟩)])).outcome =
      .ok ringProgram := rfl

/-- A host that notes generated files last one first. -/
def reversingHost : Host where
  order := List.reverse
  perm_order := List.reverse_perm

theorem reached_ringProgram : ringProgram.reached = [⟨3⟩, ⟨2⟩, ⟨1⟩, ⟨0⟩] := by
  show gather (numbered (ringFindings [("lib/c", ⟨1⟩), ("lib/b", ⟨2⟩)]).packages) true [⟨0⟩] = _
  cbv

theorem reachedPackages_ringProgram :
    ringProgram.reachedPackages = [⟨3⟩, ⟨2⟩, ⟨1⟩, ⟨0⟩].filterMap ringProgram.package? := by
  rw [reachedPackages, reached_ringProgram]

theorem generatedFiles_ringProgram : ringProgram.generatedFiles = [("b.go", "h"), ("main.go", "g")] := by
  have hmarkers : ringProgram.markers = markersByName ringProgram.reachedPackages := rfl
  have hentries : (ringProgram.markers.filterMap fun _ generator => generator).entries =
      [("b.go", "h"), ("main.go", "g")] := by
    rw [hmarkers, reachedPackages_ringProgram]
    decide
  rw [generatedFiles, OrderedMap.entriesByKey, hentries]
  exact List.mergeSort_of_pairwise (by decide)

/-- The package that comes first by path is gathered first, though it was entered last into one of the tables; and the
    notes about generated files come as the host has them. -/
theorem load_ignores_insertion_order_ringFindings :
    ∃ other : Program, other.reached = [⟨3⟩, ⟨2⟩, ⟨1⟩, ⟨0⟩] ∧
      other.index.entries = [("a", ⟨0⟩), ("lib/b", ⟨2⟩), ("lib/c", ⟨1⟩)] ∧
      let first := load {} "/" { dependencies := true } fun _ => .ok (ringFindings [("lib/c", ⟨1⟩), ("lib/b", ⟨2⟩)])
      let again := load reversingHost "/" { dependencies := true } fun _ =>
        .ok (ringFindings [("lib/b", ⟨2⟩), ("lib/c", ⟨1⟩)])
      again.outcome = .ok other ∧ LogEvent.SameButNotes first.log again.log ∧
      first.log.filter LogEvent.isTrace = [.generated "b.go" "h", .generated "main.go" "g"] ∧
      again.log.filter LogEvent.isTrace = [.generated "main.go" "g", .generated "b.go" "h"] := by
  have hindex : ringProgram.index.entries = [("a", ⟨0⟩), ("lib/b", ⟨2⟩), ("lib/c", ⟨1⟩)] := by
    show (indexByPath ringProgram.reachedPackages).entries = _
    rw [reachedPackages_ringProgram]
    decide
  obtain ⟨other, hreached, hpaths, _, _, hreruns⟩ :=
    load_ignores_insertion_order load_ringFindings shuffled_ringFindings
  obtain ⟨hload, hlog, hnotes⟩ := hreruns reversingHost rfl
  refine ⟨other, hreached.trans reached_ringProgram, (congrArg OrderedMap.entries hpaths).trans hindex, hload, hnotes,
    ?_, ?_⟩
  · rw [filter_isTrace_log load_ringFindings, generatedEvents, generatedFiles_ringProgram]
    rfl
  · have hfirst : (load reversingHost "/" { dependencies := true } fun _ =>
        .ok (ringFindings [("lib/c", ⟨1⟩), ("lib/b", ⟨2⟩)])).outcome = .ok ringProgram := rfl
    rw [hlog, filter_isTrace_log hfirst, generatedEvents, generatedFiles_ringProgram]
    rfl

end Program

end ProgramIndex
