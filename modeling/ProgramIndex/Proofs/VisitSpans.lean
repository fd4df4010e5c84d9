import ProgramIndex.Proofs.Traversal

/- How the visits of a traversal lie among its events. A visit spans the events from the one that enters the
   package to the one that leaves it (`Program.Spans`). The events divide at a visit into those before it,
   those of the visit and those after it (`VisitAt`, `exists_visitAt`), and every event by which another
   visit begins or ends lies in the middle part exactly if the visit enters that package
   (`VisitAt.other_place_cases`). So two visits are disjoint or one lies within the other (`Spans.nested`), and
   what lies within a visit is what followed imports lead to from there (`Spans.follows_of_within`).
   `visitPackages_nest` puts this together, with what becomes of a package that is not descended into. -/
namespace ProgramIndex.Program

/-- The visit of a package spans the events from one place to another: it begins at the first and ends at
    the last of them. -/
def Spans (program : Program) (descend : Package → Bool) (id : PackageId) (first last : Nat) : Prop :=
  (program.visitPackages descend)[first]? = some (.enter id) ∧
    (program.visitPackages descend)[last]? = some (.leave id)

variable {program : Program} {descend : Package → Bool}

/-! The events at a visit. -/

/-- What a traversal does with some steps if some packages have been entered before: the events, and the
    packages that have been entered in the end. -/
def perform (program : Program) (descend : Package → Bool) (steps : List (Step PackageId VisitEvent))
    (entered : List PackageId) : List VisitEvent × List PackageId :=
  Walk.run (packageIds program.packages.length) (program.visitScript descend) steps entered

theorem events_append (first second : List (Step PackageId VisitEvent)) (entered : List PackageId) :
    (program.perform descend (first ++ second) entered).1 = (program.perform descend first entered).1 ++
      (program.perform descend second (program.perform descend first entered).2).1 := by
  rw [perform, Walk.run_append]
  rfl

theorem events_visit_new (descend : Package → Bool) {id : PackageId} {entered : List PackageId}
    (hnode : id ∈ packageIds program.packages.length) (hnew : id ∉ entered)
    (rest : List (Step PackageId VisitEvent)) :
    ∃ later, (program.perform descend (.visit id :: rest) entered).1 =
      (program.perform descend (program.visitScript descend id) (id :: entered)).1 ++ later := by
  rw [perform, Walk.run_visit_new hnode hnew]
  exact ⟨_, rfl⟩

/-- The visit of a package, with some others entered before, comes to a package for the first time. -/
def EntersWithin (program : Program) (descend : Package → Bool) (package : Package) (earlier : List PackageId)
    (id : PackageId) : Prop :=
  Walk.Enters (packageIds program.packages.length) (program.visitScript descend)
    (program.bodySteps descend package) (package.id :: earlier) id

/-- The events between entering and leaving a package, with some others entered before. -/
def eventsWithin (program : Program) (descend : Package → Bool) (package : Package) (earlier : List PackageId) :
    List VisitEvent :=
  (program.perform descend (program.bodySteps descend package) (package.id :: earlier)).1

/-- The events of a traversal divide at the visit of a package: the earlier packages were entered before it,
    and the events from entering to leaving the package are those of the visit. -/
structure VisitAt (program : Program) (descend : Package → Bool) (package : Package) (before : List VisitEvent)
    (earlier : List PackageId) (after : List VisitEvent) : Prop where
  package?_eq : program.package? package.id = some package
  events_eq : program.visitPackages descend =
    before ++ .enter package.id :: (program.eventsWithin descend package earlier ++ .leave package.id :: after)
  enter_mem : ∀ id ∈ earlier, .enter id ∈ before

theorem events_visitScript {package : Package} (h : program.package? package.id = some package)
    (earlier : List PackageId) :
    (program.perform descend (program.visitScript descend package.id) (package.id :: earlier)).1 =
      .enter package.id :: (program.eventsWithin descend package earlier ++ [.leave package.id]) := by
  rw [perform, visitScript_of_package h, Walk.run_report, Walk.run_append, Walk.run_report, Walk.run_nil]
  rfl

/-- The events of a traversal divide at the visit of every package that it comes to. -/
theorem exists_visitAt (hprogram : program.Consistent) {package : Package}
    (hpackage : program.package? package.id = some package) (hid : program.Reachable descend package.id) :
    ∃ before earlier after, program.VisitAt descend package before earlier after := by
  have hpre : ∀ other ∈ packageIds program.packages.length,
      ∃ body, program.visitScript descend other = .report (.enter other) :: body := by
    intro other hother
    obtain ⟨found, hfound⟩ := exists_package_of_mem hother
    exact ⟨_, visitScript_of_package hfound⟩
  obtain ⟨before, earlier, after, _, hevents, hearlier⟩ :=
    ((enters_iff_reachable hprogram package.id).mpr hid).exists_visit (fun _ _ heq => VisitEvent.enter.inj heq) hpre
  refine ⟨before, earlier, after, hpackage, ?_, fun other hother => ?_⟩
  · change _ = before ++ ((program.perform descend _ _).1 ++ after) at hevents
    rw [events_visitScript hpackage, List.cons_append, List.append_assoc, List.singleton_append] at hevents
    exact hevents
  · exact (hearlier other hother).resolve_left List.not_mem_nil

theorem EntersWithin.follows (hprogram : program.Consistent) {package : Package} {earlier : List PackageId}
    (hpackage : program.package? package.id = some package) {id : PackageId}
    (h : program.EntersWithin descend package earlier id) :
    Relation.TransGen (program.Follows descend) package.id id := by
  obtain ⟨next, hnode, hvisit, hpath⟩ := h.reaches
  have hleads : Walk.Leads (packageIds program.packages.length) (program.visitScript descend) package.id next := by
    refine ⟨hnode, ?_⟩
    rw [visitScript_of_package hpackage]
    exact List.mem_cons_of_mem _ (List.mem_append_left _ hvisit)
  rw [leads_eq_follows hprogram] at hpath
  exact Relation.TransGen.head' ((leads_iff_follows hprogram _ _).mp hleads) hpath

theorem report_mem_visitScript {event : VisitEvent} {id : PackageId} (hevent : IsBoundary id event)
    (hid : id ∈ packageIds program.packages.length) : .report event ∈ program.visitScript descend id := by
  apply List.count_pos_iff.mp
  rw [count_visitScript hevent hid]
  exact Nat.one_pos

theorem boundary_mem_eventsWithin {package : Package} {earlier : List PackageId} {id : PackageId}
    {event : VisitEvent} (hevent : IsBoundary id event) :
    event ∈ program.eventsWithin descend package earlier ↔ program.EntersWithin descend package earlier id := by
  refine ⟨fun hmem => ?_, fun henters => ?_⟩
  · rcases Walk.report_of_mem_events hmem with hreport | ⟨other, hother, hreport⟩
    · exact absurd hreport (report_not_mem_bodySteps package hevent.call?_eq_none)
    · have hsame : other = id := by
        apply Classical.byContradiction
        intro hne
        exact report_not_mem_visitScript hevent hne hreport
      exact hsame ▸ hother
  · exact Walk.Enters.mem_events henters (report_mem_visitScript hevent (Walk.Enters.mem_nodes henters))

/-! The places of a visit. -/

theorem getElem?_append_cons_cases {α : Type} {before rest : List α} {a x : α} {place : Nat}
    (h : (before ++ a :: rest)[place]? = some x) :
    (place < before.length ∧ x ∈ before) ∨ (place = before.length ∧ x = a) ∨
      ∃ offset, place = before.length + 1 + offset ∧ rest[offset]? = some x := by
  rcases Nat.lt_trichotomy place before.length with hlt | heq | hgt
  · rw [List.getElem?_append_left hlt] at h
    exact Or.inl ⟨hlt, List.mem_of_getElem? h⟩
  · subst heq
    rw [List.getElem?_append_right (Nat.le_refl _), Nat.sub_self, List.getElem?_cons_zero] at h
    exact Or.inr (Or.inl ⟨rfl, (Option.some.inj h).symm⟩)
  · obtain ⟨offset, rfl⟩ : ∃ offset, place = before.length + 1 + offset := ⟨place - before.length - 1, by omega⟩
    rw [List.getElem?_append_right (by omega)] at h
    have hoffset : before.length + 1 + offset - before.length = offset + 1 := by omega
    rw [hoffset, List.getElem?_cons_succ] at h
    exact Or.inr (Or.inr ⟨offset, rfl, h⟩)

namespace VisitAt
variable {package : Package} {before after : List VisitEvent} {earlier : List PackageId}

theorem place_cases (h : program.VisitAt descend package before earlier after) {event : VisitEvent} {place : Nat}
    (hplace : (program.visitPackages descend)[place]? = some event) :
    (place < before.length ∧ event ∈ before) ∨ (place = before.length ∧ event = .enter package.id) ∨
    (before.length < place ∧ place ≤ before.length + (program.eventsWithin descend package earlier).length ∧
      event ∈ program.eventsWithin descend package earlier) ∨
    (place = before.length + (program.eventsWithin descend package earlier).length + 1 ∧
      event = .leave package.id) ∨
    (before.length + (program.eventsWithin descend package earlier).length + 1 < place ∧ event ∈ after) := by
  rw [h.events_eq] at hplace
  rcases getElem?_append_cons_cases hplace with hbefore | henter | ⟨offset, rfl, hrest⟩
  · exact Or.inl hbefore
  · exact Or.inr (Or.inl henter)
  · rcases getElem?_append_cons_cases hrest with ⟨hlt, hmem⟩ | ⟨heq, hleave⟩ | ⟨further, heq, hafter⟩
    · exact Or.inr (Or.inr (Or.inl ⟨by omega, by omega, hmem⟩))
    · exact Or.inr (Or.inr (Or.inr (Or.inl ⟨by omega, hleave⟩)))
    · exact Or.inr (Or.inr (Or.inr (Or.inr ⟨by omega, List.mem_of_getElem? hafter⟩)))

theorem reachable (h : program.VisitAt descend package before earlier after) (hprogram : program.Consistent) :
    program.Reachable descend package.id := by
  apply (boundary_mem_iff hprogram descend (Or.inl rfl)).mp
  rw [h.events_eq]
  exact List.mem_append_right before List.mem_cons_self

theorem boundary_not_mem (h : program.VisitAt descend package before earlier after)
    (hprogram : program.Consistent) {event : VisitEvent} (hevent : IsBoundary package.id event) :
    event ∉ before ∧ event ∉ program.eventsWithin descend package earlier ∧ event ∉ after := by
  have hcount := (count_boundary hprogram descend hevent).1 (h.reachable hprogram)
  rw [h.events_eq, List.count_append, List.count_cons, List.count_append, List.count_cons] at hcount
  simp only [← List.count_eq_zero]
  rcases hevent with rfl | rfl
  · simp at hcount
    omega
  · simp at hcount
    omega

theorem spans_iff (h : program.VisitAt descend package before earlier after) (hprogram : program.Consistent)
    (first last : Nat) :
    program.Spans descend package.id first last ↔ first = before.length ∧
      last = before.length + (program.eventsWithin descend package earlier).length + 1 := by
  obtain ⟨henterBefore, henterWithin, henterAfter⟩ := h.boundary_not_mem hprogram (Or.inl rfl)
  obtain ⟨hleaveBefore, hleaveWithin, hleaveAfter⟩ := h.boundary_not_mem hprogram (Or.inr rfl)
  refine ⟨fun hspans => ⟨?_, ?_⟩, fun hplaces => ?_⟩
  · have hfirst := h.place_cases hspans.1
    simpa [henterBefore, henterWithin, henterAfter] using hfirst
  · have hlast := h.place_cases hspans.2
    simpa [hleaveBefore, hleaveWithin, hleaveAfter] using hlast
  · obtain ⟨rfl, rfl⟩ := hplaces
    rw [Spans, h.events_eq]
    refine ⟨by simp, ?_⟩
    rw [List.getElem?_append_right (by omega)]
    have hoffset : before.length + (program.eventsWithin descend package earlier).length + 1 - before.length =
        (program.eventsWithin descend package earlier).length + 1 := by omega
    rw [hoffset, List.getElem?_cons_succ]
    simp

/-- The visit of another package begins, and ends, within the visit or outside it, according to whether the
    visit enters that package. -/
theorem other_place_cases (h : program.VisitAt descend package before earlier after)
    (hprogram : program.Consistent) {id : PackageId} {event : VisitEvent} (hevent : IsBoundary id event)
    (hne : id ≠ package.id) {place : Nat} (hplace : (program.visitPackages descend)[place]? = some event) :
    (program.EntersWithin descend package earlier id ∧ before.length < place ∧
      place ≤ before.length + (program.eventsWithin descend package earlier).length) ∨
    (¬ program.EntersWithin descend package earlier id ∧ (place < before.length ∨
      before.length + (program.eventsWithin descend package earlier).length + 1 < place)) := by
  have hother : event ≠ .enter package.id ∧ event ≠ .leave package.id := by
    rcases hevent with rfl | rfl <;> simp [hne]
  -- the event comes once, so it does not stand both within the visit and outside it
  have hcount : before.count event + ((program.eventsWithin descend package earlier).count event +
      after.count event) = 1 := by
    have hid := (boundary_mem_iff hprogram descend hevent).mp (List.mem_of_getElem? hplace)
    have hone := (count_boundary hprogram descend hevent).1 hid
    rwa [h.events_eq, List.count_append, List.count_cons_of_ne hother.1.symm, List.count_append,
      List.count_cons_of_ne hother.2.symm] at hone
  rw [← boundary_mem_eventsWithin hevent, ← List.count_pos_iff]
  rcases h.place_cases hplace with ⟨hlt, hmem⟩ | ⟨_, heq⟩ | ⟨hfirst, hlast, hmem⟩ | ⟨_, heq⟩ | ⟨hgt, hmem⟩
  · have hpos := List.count_pos_iff.mpr hmem
    exact Or.inr ⟨by omega, Or.inl hlt⟩
  · exact absurd heq hother.1
  · exact Or.inl ⟨List.count_pos_iff.mpr hmem, hfirst, hlast⟩
  · exact absurd heq hother.2
  · have hpos := List.count_pos_iff.mpr hmem
    exact Or.inr ⟨by omega, Or.inr hgt⟩

end VisitAt

/-! Visits are nested. -/

theorem package_of_reachable (hprogram : program.Consistent) {id : PackageId}
    (hid : program.Reachable descend id) : ∃ package, program.package? package.id = some package ∧ package.id = id := by
  obtain ⟨package, hpackage⟩ := exists_package_of_mem ((enters_iff_reachable hprogram id).mpr hid).mem_nodes
  have heq := hprogram.id_eq hpackage
  exact ⟨package, heq ▸ hpackage, heq⟩

namespace Spans
variable {id other : PackageId} {first last first' last' : Nat}

theorem reachable (h : program.Spans descend id first last) (hprogram : program.Consistent) :
    program.Reachable descend id :=
  (boundary_mem_iff hprogram descend (Or.inl rfl)).mp (List.mem_of_getElem? h.1)

/-- The events divide at a visit, and the visit spans its part of them. -/
theorem exists_visitAt (h : program.Spans descend id first last) (hprogram : program.Consistent) :
    ∃ package before earlier after, package.id = id ∧ program.VisitAt descend package before earlier after ∧
      first = before.length ∧ last = before.length + (program.eventsWithin descend package earlier).length + 1 := by
  obtain ⟨package, hpackage, rfl⟩ := package_of_reachable hprogram (h.reachable hprogram)
  obtain ⟨before, earlier, after, hvisit⟩ := Program.exists_visitAt hprogram hpackage (h.reachable hprogram)
  exact ⟨package, before, earlier, after, rfl, hvisit, (hvisit.spans_iff hprogram first last).mp h⟩

theorem first_lt_last (h : program.Spans descend id first last) (hprogram : program.Consistent) : first < last := by
  obtain ⟨package, before, earlier, after, _, _, rfl, rfl⟩ := h.exists_visitAt hprogram
  omega

/-- Two visits are disjoint, or one of them lies within the other. -/
theorem nested (h : program.Spans descend id first last) (h' : program.Spans descend other first' last')
    (hprogram : program.Consistent) (hne : id ≠ other) :
    last < first' ∨ last' < first ∨ (first < first' ∧ last' < last) ∨ (first' < first ∧ last < last') := by
  have hlt := h'.first_lt_last hprogram
  obtain ⟨package, before, earlier, after, rfl, hvisit, rfl, rfl⟩ := h.exists_visitAt hprogram
  -- whether the first visit enters the other package decides about both ends of the other visit
  rcases hvisit.other_place_cases hprogram (Or.inl rfl) hne.symm h'.1 with ⟨hin, _, _⟩ | ⟨hout, hfirst⟩
  · rcases hvisit.other_place_cases hprogram (Or.inr rfl) hne.symm h'.2 with ⟨_, _, _⟩ | ⟨hout, _⟩
    · omega
    · exact absurd hin hout
  · rcases hvisit.other_place_cases hprogram (Or.inr rfl) hne.symm h'.2 with ⟨hin, _, _⟩ | ⟨_, hlast⟩
    · exact absurd hin hout
    · omega

/-- If the visit of one package lies within that of another one, followed imports lead to it from there. -/
theorem follows_of_within (h : program.Spans descend id first last)
    (h' : program.Spans descend other first' last') (hprogram : program.Consistent) (hfirst : first ≤ first')
    (hlast : last' ≤ last) : Relation.ReflTransGen (program.Follows descend) id other := by
  by_cases hne : other = id
  · exact hne ▸ Relation.ReflTransGen.refl
  · have hlt := h'.first_lt_last hprogram
    obtain ⟨package, before, earlier, after, rfl, hvisit, rfl, rfl⟩ := h.exists_visitAt hprogram
    rcases hvisit.other_place_cases hprogram (Or.inl rfl) hne h'.1 with ⟨hin, _, _⟩ | ⟨_, hout⟩
    · exact (hin.follows hprogram hvisit.package?_eq).to_reflTransGen
    · omega

theorem eq_succ_of_not_descend {package : Package} (h : program.Spans descend package.id first last)
    (hprogram : program.Consistent) (hpackage : program.package? package.id = some package)
    (hdescend : descend package = false) : last = first + 1 := by
  obtain ⟨before, earlier, after, hvisit⟩ := Program.exists_visitAt hprogram hpackage (h.reachable hprogram)
  have hnothing : program.eventsWithin descend package earlier = [] := by
    rw [eventsWithin, bodySteps, hdescend, if_neg Bool.false_ne_true, perform, Walk.run_nil]
  obtain ⟨rfl, rfl⟩ := (hvisit.spans_iff hprogram first last).mp h
  rw [hnothing, List.length_nil]

end Spans

/-- Visits are nested like brackets. Every package that is visited is entered at one place and left at one
    later place; the visits of two packages are disjoint, or one lies within the other; a package whose
    visit lies within another one is reached from there by followed imports; and a package that is not
    descended into is left at once, without a question to any filter in between. -/
theorem visitPackages_nest {host : Host} {directory : String} {options : LoadOptions} {frontEnd : FrontEnd}
    {program : Program} (h : (load host directory options frontEnd).outcome = .ok program)
    (descend : Package → Bool) :
    (∀ id, .enter id ∈ program.visitPackages descend ∨ .leave id ∈ program.visitPackages descend →
      ∃ first last, first < last ∧ ∀ i j, program.Spans descend id i j ↔ i = first ∧ j = last) ∧
    (∀ id other first last first' last', id ≠ other → program.Spans descend id first last →
      program.Spans descend other first' last' →
      last < first' ∨ last' < first ∨ (first < first' ∧ last' < last) ∨ (first' < first ∧ last < last')) ∧
    (∀ id other first last first' last', program.Spans descend id first last →
      program.Spans descend other first' last' → first ≤ first' → last' ≤ last →
      Relation.ReflTransGen (program.Follows descend) id other) ∧
    (∀ package first last, program.package? package.id = some package → descend package = false →
      program.Spans descend package.id first last → last = first + 1) := by
  have hprogram := consistent_of_load h
  refine ⟨fun id hvisited => ?_, ?_, ?_, ?_⟩
  · have hid : program.Reachable descend id := by
      rcases hvisited with henter | hleave
      · exact (boundary_mem_iff hprogram descend (Or.inl rfl)).mp henter
      · exact (boundary_mem_iff hprogram descend (Or.inr rfl)).mp hleave
    obtain ⟨package, hpackage, rfl⟩ := package_of_reachable hprogram hid
    obtain ⟨before, earlier, after, hvisit⟩ := exists_visitAt hprogram hpackage hid
    exact ⟨_, _, by omega, hvisit.spans_iff hprogram⟩
  · intro id other first last first' last' hne hid hother
    exact hid.nested hother hprogram hne
  · intro id other first last first' last' hid hother hfirst hlast
    exact hid.follows_of_within hother hprogram hfirst hlast
  · intro package first last hpackage hdescend hid
    exact hid.eq_succ_of_not_descend hprogram hpackage hdescend

/-- A package with one file for each list of paths that it imports. -/
def packageImporting (path : String) (imports : List (List String)) : Package where
  key := path
  path := path
  name := path
  files := imports.zipIdx.map fun (paths, place) =>
    ⟨⟨place⟩, path, ⟨0, [], paths.map fun imported => ⟨none, PathLiteral.quote imported, 0⟩, []⟩⟩

/-- The first package imports the second one in both of its files and the third one in the last; the second
    imports the fourth, and the third leads back to the first. All of them are roots. -/
def branchingFindings : Findings where
  packages :=
    [packageImporting "a" [["b"], ["b", "c"]], packageImporting "b" [["d"]], packageImporting "c" [["a"]],
     packageImporting "d" []]
  roots := packageIds 4

def branchingProgram : Program := ofFindings {} "/" branchingFindings

theorem load_branchingFindings : (load {} "/" {} fun _ => .ok branchingFindings).outcome = .ok branchingProgram := rfl

theorem visitPackages_nest_branchingProgram :
    branchingProgram.Spans (fun package => package.path != "b") ⟨0⟩ 0 5 ∧
    branchingProgram.Spans (fun package => package.path != "b") ⟨1⟩ 1 2 ∧
    Relation.ReflTransGen (branchingProgram.Follows fun package => package.path != "b") ⟨0⟩ ⟨1⟩ ∧
    (∀ last, branchingProgram.Spans (fun package => package.path != "b") ⟨1⟩ 1 last → last = 2) := by
  have hevents : branchingProgram.visitPackages (fun package => package.path != "b") =
      [.enter ⟨0⟩, .enter ⟨1⟩, .leave ⟨1⟩, .enter ⟨2⟩, .leave ⟨2⟩, .leave ⟨0⟩, .enter ⟨3⟩, .leave ⟨3⟩] := by cbv
  have houter : branchingProgram.Spans (fun package => package.path != "b") ⟨0⟩ 0 5 := by
    rw [Spans, hevents]
    decide
  have hinner : branchingProgram.Spans (fun package => package.path != "b") ⟨1⟩ 1 2 := by
    rw [Spans, hevents]
    decide
  obtain ⟨_, _, hwithin, hskipped⟩ := visitPackages_nest load_branchingFindings fun package => package.path != "b"
  refine ⟨houter, hinner, hwithin ⟨0⟩ ⟨1⟩ 0 5 1 2 houter hinner (by omega) (by omega), fun last hlast => ?_⟩
  exact hskipped { packageImporting "b" [["d"]] with id := ⟨1⟩ } 1 last rfl rfl hlast

end ProgramIndex.Program
