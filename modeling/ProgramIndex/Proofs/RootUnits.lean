import ProgramIndex.Proofs.Traversal

/- How often a traversal of the units hands one over. A unit is known by the number of its package and
   its place there (`SourceUnit.address`). Within one package no unit comes twice
   (`nodup_address_acceptedUnits`), but the roots are taken as they are listed: a unit comes as often
   as its package is a root (`count_address_of_mem_acceptedUnits`). So no unit comes twice exactly if
   no root with accepted units is repeated (`rootUnits_come_as_often_as_roots`), and findings may
   repeat one (`rootUnits_repeated_after_load`). -/
namespace ProgramIndex

/-- The number of a unit's package and the unit's place there. -/
def SourceUnit.address (unit : SourceUnit) : PackageId × Nat := (unit.package.id, unit.place)

namespace Program
variable {program : Program}

/-! The units of one package. -/

theorem package_of_mem_unitsOf {package : Package} {unit : SourceUnit} (h : unit ∈ program.unitsOf package) :
    unit.package = package := by
  obtain ⟨_, _, rfl⟩ := List.mem_map.mp h
  rfl

theorem map_address_unitsOf (program : Program) (package : Package) :
    (program.unitsOf package).map SourceUnit.address =
      (List.range package.files.length).map fun place => (package.id, place) := by
  rw [List.range_eq_range', ← List.zipIdx_map_snd, unitsOf, List.map_map, List.map_map]
  rfl

theorem nodup_address_acceptedUnits (program : Program) (package : Package) :
    ((program.acceptedUnits package).map SourceUnit.address).Nodup := by
  have hall : ((program.unitsOf package).map SourceUnit.address).Nodup := by
    rw [map_address_unitsOf]
    exact List.nodup_range.map fun _ _ heq => (Prod.mk.inj heq).2
  exact hall.sublist (List.filter_sublist.map SourceUnit.address)

theorem address_not_mem_acceptedUnits {package other : Package} (hne : other.id ≠ package.id) (place : Nat) :
    (package.id, place) ∉ (program.acceptedUnits other).map SourceUnit.address := by
  intro hmem
  obtain ⟨unit, hunit, heq⟩ := List.mem_map.mp hmem
  rw [SourceUnit.address, package_of_mem_unitsOf (List.mem_filter.mp hunit).1] at heq
  exact hne (Prod.mk.inj heq).1

/-! The units of a list of roots. -/

/-- One more root brings the unit once more if it is the root's, and else not. -/
theorem count_address_of_mem_acceptedUnits (hprogram : program.Consistent) {package : Package}
    (hpackage : program.package? package.id = some package) (haccepts : program.options.acceptsPackage package = true)
    {unit : SourceUnit} (hunit : unit ∈ program.acceptedUnits package) (roots : List PackageId) :
    ((((roots.filterMap program.package?).filter program.options.acceptsPackage).flatMap
      program.acceptedUnits).map SourceUnit.address).count unit.address = roots.count package.id := by
  have haddress : unit.address = (package.id, unit.place) := by
    rw [SourceUnit.address, package_of_mem_unitsOf (List.mem_filter.mp hunit).1]
  have hone : ((program.acceptedUnits package).map SourceUnit.address).count unit.address = 1 :=
    List.count_eq_one_of_mem (nodup_address_acceptedUnits program package) (List.mem_map_of_mem hunit)
  induction roots with
  | nil => rfl
  | cons root rest ih =>
    by_cases hroot : root = package.id
    · subst hroot
      rw [List.filterMap_cons_some hpackage, List.filter_cons_of_pos haccepts, List.flatMap_cons, List.map_append,
        List.count_append, hone, ih, List.count_cons_self, Nat.add_comm]
    · rw [List.count_cons_of_ne hroot, ← ih]
      cases hother : program.package? root with
      | none => rw [List.filterMap_cons_none hother]
      | some other =>
        rw [List.filterMap_cons_some hother]
        cases haccept : program.options.acceptsPackage other with
        | false => rw [List.filter_cons_of_neg (by simp [haccept])]
        | true =>
          have hne : other.id ≠ package.id := fun heq => hroot (by rw [← hprogram.id_eq hother, heq])
          rw [List.filter_cons_of_pos haccept, List.flatMap_cons, List.map_append, List.count_append, haddress,
            List.count_eq_zero.mpr (address_not_mem_acceptedUnits hne unit.place), Nat.zero_add]

/-- Each accepted unit of an accepted root is handed over as often as its package is listed as a root.
    So no unit is handed over twice exactly if no accepted root with accepted units is repeated. -/
theorem rootUnits_come_as_often_as_roots {host : Host} {directory : String} {options : LoadOptions}
    {frontEnd : FrontEnd} {program : Program} (h : (load host directory options frontEnd).outcome = .ok program) :
    (∀ package ∈ program.acceptedRoots, ∀ unit ∈ program.acceptedUnits package,
      (program.rootUnits.map SourceUnit.address).count unit.address = program.roots.count package.id) ∧
    ((program.rootUnits.map SourceUnit.address).Nodup ↔
      ∀ package ∈ program.acceptedRoots, program.acceptedUnits package ≠ [] → program.roots.count package.id = 1) := by
  have hprogram := consistent_of_load h
  have hcount : ∀ package ∈ program.acceptedRoots, ∀ unit ∈ program.acceptedUnits package,
      (program.rootUnits.map SourceUnit.address).count unit.address = program.roots.count package.id := by
    intro package hpackage unit hunit
    obtain ⟨_, hfound, haccepts⟩ := (mem_acceptedRoots hprogram package).mp hpackage
    exact count_address_of_mem_acceptedUnits hprogram hfound haccepts hunit program.roots
  refine ⟨hcount, fun hnodup package hpackage hunits => ?_, fun honce => ?_⟩
  · obtain ⟨unit, hunit⟩ := List.exists_mem_of_ne_nil _ hunits
    have hle := List.nodup_iff_count.mp hnodup unit.address
    have hpos := List.count_pos_iff.mpr ((mem_acceptedRoots hprogram package).mp hpackage).1
    rw [hcount package hpackage unit hunit] at hle
    omega
  · apply List.nodup_iff_count.mpr
    intro address
    by_cases hmem : address ∈ program.rootUnits.map SourceUnit.address
    · obtain ⟨unit, hunit, rfl⟩ := List.mem_map.mp hmem
      obtain ⟨package, hpackage, hunit⟩ := List.mem_flatMap.mp hunit
      rw [hcount package hpackage unit hunit, honce package hpackage (List.ne_nil_of_mem hunit)]
    · rw [List.count_eq_zero.mpr hmem]
      exact Nat.zero_le 1

theorem address_rootUnits_loopProgram :
    loopProgram.rootUnits.map SourceUnit.address = [(⟨0⟩, 0), (⟨0⟩, 0)] := by cbv

theorem count_rootUnits_loopProgram :
    (loopProgram.rootUnits.map SourceUnit.address).count (⟨0⟩, 0) = 2 := by
  have hmem : (⟨0⟩, 0) ∈ loopProgram.rootUnits.map SourceUnit.address := by
    rw [address_rootUnits_loopProgram]
    exact List.mem_cons_self
  obtain ⟨unit, hroots, haddress⟩ := List.mem_map.mp hmem
  obtain ⟨package, hpackage, hunit⟩ := List.mem_flatMap.mp hroots
  have hcount := (rootUnits_come_as_often_as_roots load_loopFindings).1 package hpackage unit hunit
  have hid : package.id = ⟨0⟩ := by
    rw [← package_of_mem_unitsOf (List.mem_filter.mp hunit).1]
    exact (Prod.mk.inj haddress).1
  rw [haddress, hid] at hcount
  exact hcount

/-- Not every load that succeeds makes a program whose units are handed over once each. -/
theorem rootUnits_repeated_after_load :
    ¬ ∀ (host : Host) (directory : String) (options : LoadOptions) (frontEnd : FrontEnd) (program : Program),
      (load host directory options frontEnd).outcome = .ok program →
        (program.rootUnits.map SourceUnit.address).Nodup := by
  intro hall
  have hnodup := hall _ _ _ _ _ load_loopFindings
  rw [address_rootUnits_loopProgram] at hnodup
  exact absurd hnodup (by decide)

end Program

end ProgramIndex
