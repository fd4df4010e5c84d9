import ProgramIndex.Proofs.NameLookup
import ProgramIndex.Proofs.RequiredMember

/- Where the receiver of a member is declared. A member is looked up by the path of a package, the name of a
   type and its own name. The path must be indexed, and the name of the type is joined to it and divided again
   at the last dot. So a dot in the name of the type lengthens the path (`QualifiedName.divide`), and the
   receiver is declared by the package under the longer path (`resolveMember_eq_ok_iff`): without a dot it is
   the package that was named, and with one it never is (`receiver_stays_unless_dotted`). A package may thus be
   named that does not declare the receiver at all (`dotted_receiver_leaves_package`). -/
namespace ProgramIndex

/-! Paths that a name lengthens. -/

namespace QualifiedName

/-- The path and the name that a path with a name joined to it stands for. -/
def divide (path name : String) : String × String :=
  match split? name with
  | none => (path, name)
  | some (front, last) => (join path front, last)

theorem join_join (path front last : String) : join path (join front last) = join (join path front) last := by
  simp [join, String.append_assoc]

theorem divide_of_no_dot {name : String} (h : '.' ∉ name.toList) (path : String) : divide path name = (path, name) := by
  rw [divide, (split?_eq_none_iff name).mpr h]

theorem split?_join (path name : String) : split? (join path name) = some (divide path name) := by
  rw [divide]
  cases hsplit : split? name with
  | none => exact (split?_eq_some_iff _ _ _).mpr ⟨rfl, (split?_eq_none_iff name).mp hsplit⟩
  | some parts =>
    obtain ⟨rfl, hlast⟩ := (split?_eq_some_iff _ _ _).mp hsplit
    exact (split?_eq_some_iff _ _ _).mpr ⟨join_join path parts.1 parts.2, hlast⟩

theorem divide_fst_eq_iff (path name : String) : (divide path name).1 = path ↔ '.' ∉ name.toList := by
  rw [← split?_eq_none_iff, divide]
  cases split? name with
  | none => simp
  | some parts =>
    simp only [reduceCtorEq, iff_false]
    intro heq
    have hlength := congrArg String.length heq
    simp only [join, String.length_append] at hlength
    have hdot : ".".length = 1 := rfl
    omega

end QualifiedName

namespace Program
variable {program : Program}

/-! The declared receiver. -/

/-- The package that is indexed under a path binds a name to a symbol that has a type. -/
def DeclaresType (program : Program) (path name : String) (type : TypeId) : Prop :=
  ∃ symbol entity, program.Declares path name symbol ∧ program.symbols.symbol? symbol = some entity ∧
    entity.type = some type

theorem requireType_eq_ok_iff (qualified : String) (type : TypeId) :
    program.requireType qualified = .ok type ↔
      ∃ symbol entity, program.lookup? qualified = some symbol ∧ program.symbols.symbol? symbol = some entity ∧
        entity.type = some type := by
  have hlookup : program.requireType qualified = .ok type ↔ program.lookupType? qualified = some type := by
    rw [requireType]
    cases program.lookupType? qualified <;> simp
  rw [hlookup, lookupType?, Option.bind_assoc, Option.bind_eq_some_iff]
  refine exists_congr fun symbol => ?_
  rw [Option.bind_eq_some_iff, exists_and_left]

theorem requireType_join_eq_ok_iff (hprogram : program.Consistent) (path name : String) (type : TypeId) :
    program.requireType (QualifiedName.join path name) = .ok type ↔
      program.DeclaresType (QualifiedName.divide path name).1 (QualifiedName.divide path name).2 type := by
  rw [requireType_eq_ok_iff, DeclaresType, lookup?, QualifiedName.split?_join]
  simp only [declares_iff_find? hprogram]

/-- A member is looked up on the type that is declared under the divided path, as the named package
    sees it. -/
theorem resolveMember_eq_ok_iff (hprogram : program.Consistent) (path type member : String) (answer : Selection) :
    program.resolveMember path type member = .ok answer ↔ path ∈ program.index.keys ∧
      ∃ id, program.DeclaresType (QualifiedName.divide path type).1 (QualifiedName.divide path type).2 id ∧
        answer = program.symbols.lookupMember id true ⟨path, member⟩ := by
  simp only [← requireType_join_eq_ok_iff hprogram]
  rcases resolveMember_cases hprogram path type member with
    ⟨hpath, hresolve⟩ | ⟨hpath, ⟨htype, hresolve⟩ | ⟨id, htype, hresolve⟩⟩
  · simp [hresolve, hpath]
  · simp [hresolve, htype]
  · simp [hresolve, hpath, htype, eq_comm]

theorem lookupMember_of_undeclared (hprogram : program.Consistent) {path type : String}
    (h : ∀ id, ¬ program.DeclaresType (QualifiedName.divide path type).1 (QualifiedName.divide path type).2 id)
    (member : String) :
    program.lookupMember path type member = .notFound ∧ ∃ e, program.requireMember path type member = .error e := by
  cases hresolve : program.resolveMember path type member with
  | error e => exact ⟨by rw [lookupMember, hresolve], e, by rw [requireMember, hresolve]⟩
  | ok answer =>
    obtain ⟨_, id, hdeclares, _⟩ := (resolveMember_eq_ok_iff hprogram path type member answer).mp hresolve
    exact absurd hdeclares (h id)

/-- A member is looked up if the named path is indexed, on the type that is declared under the path that the dots
    in the type's name make. That is the named path exactly if there are none, and then nothing is found
    unless the named package declares the type. -/
theorem receiver_stays_unless_dotted {host : Host} {directory : String} {options : LoadOptions} {frontEnd : FrontEnd}
    {program : Program} (h : (load host directory options frontEnd).outcome = .ok program) :
    (∀ path type member, '.' ∉ type.toList → (∀ symbol, ¬ program.Declares path type symbol) →
      program.lookupMember path type member = .notFound ∧
      ∃ e, program.requireMember path type member = .error e) ∧
    (∀ path type member answer, program.resolveMember path type member = .ok answer ↔
      path ∈ program.index.keys ∧
      ∃ id, program.DeclaresType (QualifiedName.divide path type).1 (QualifiedName.divide path type).2 id ∧
        answer = program.symbols.lookupMember id true ⟨path, member⟩) ∧
    ∀ path type, (QualifiedName.divide path type).1 = path ↔ '.' ∉ type.toList := by
  have hprogram := consistent_of_load h
  refine ⟨fun path type member hdot hnone => ?_, resolveMember_eq_ok_iff hprogram, QualifiedName.divide_fst_eq_iff⟩
  apply lookupMember_of_undeclared hprogram
  rw [QualifiedName.divide_of_no_dot hdot]
  rintro id ⟨symbol, _, hdeclares, _⟩
  exact hnone symbol hdeclares

/-- Two packages of which one path is the other with a dot and more. Only the longer one declares a type. -/
def versionedFindings : Findings where
  packages := [{ key := "lib", path := "lib", name := "lib" },
    { key := "lib.v2", path := "lib.v2", name := "lib", scope := .ofList [("Node", ⟨1⟩)] }]
  roots := [⟨0⟩, ⟨1⟩]
  symbols :=
    { symbols := [⟨"Len", .field, some "lib.v2", none⟩, ⟨"Node", .typeName, some "lib.v2", some ⟨1⟩⟩]
      types := [.struct [⟨⟨0⟩, false⟩], .named ⟨1⟩ (some ⟨0⟩) []] }

def versionedProgram : Program := ofFindings {} "/" versionedFindings

theorem load_versionedFindings :
    (load {} "/" {} fun _ => .ok versionedFindings).outcome = .ok versionedProgram := rfl

theorem not_declares_lib (name : String) (symbol : SymbolId) : ¬ versionedProgram.Declares "lib" name symbol := by
  have hscope : (versionedProgram.packageAt? "lib").map (·.scope.bindings.entries) = some [] := by cbv
  rw [declares_iff_find? (consistent_of_load load_versionedFindings), Option.bind_eq_some_iff]
  rintro ⟨package, hpackage, hfind⟩
  rw [hpackage, Option.map_some, Option.some_inj] at hscope
  have hmem := (package.scope.bindings.get?_eq_some_iff name symbol).mp hfind
  simp [hscope] at hmem

theorem receiver_stays_versionedProgram :
    versionedProgram.lookupMember "lib" "Node" "Len" = .notFound ∧
    (∃ e, versionedProgram.requireMember "lib" "Node" "Len" = .error e) ∧
    versionedProgram.resolveMember "lib.v2" "Node" "Len" = .ok (.found ⟨0⟩ [0] false) := by
  obtain ⟨hnone, hfound, _⟩ := receiver_stays_unless_dotted load_versionedFindings
  have hdot : '.' ∉ "Node".toList := by decide
  have hdeclares : versionedProgram.Declares "lib.v2" "Node" ⟨1⟩ := by
    rw [declares_iff_find? (consistent_of_load load_versionedFindings)]
    cbv
  have hindexed : versionedProgram.index.keys = ["lib", "lib.v2"] := by cbv
  obtain ⟨hlookup, hrequire⟩ := hnone "lib" "Node" "Len" hdot (not_declares_lib "Node")
  refine ⟨hlookup, hrequire, (hfound "lib.v2" "Node" "Len" _).mpr ⟨by simp [hindexed], ⟨1⟩, ?_, by decide⟩⟩
  rw [QualifiedName.divide_of_no_dot hdot]
  exact ⟨⟨1⟩, _, hdeclares, rfl, rfl⟩

/-- Nor is it so that nothing is found unless the named package declares the type: a dot in the type's name leads
    to the package with the longer path. -/
theorem dotted_receiver_leaves_package :
    ¬ ∀ (host : Host) (directory : String) (options : LoadOptions) (frontEnd : FrontEnd) (program : Program),
      (load host directory options frontEnd).outcome = .ok program → ∀ path type member,
      (∀ symbol, ¬ program.Declares path type symbol) →
      program.lookupMember path type member = .notFound ∧
      ∃ e, program.requireMember path type member = .error e := by
  intro hall
  obtain ⟨hnone, _⟩ := hall {} "/" {} _ versionedProgram load_versionedFindings "lib" "v2.Node" "Len"
    (not_declares_lib "v2.Node")
  have hpackage : (versionedProgram.packageAt? "lib").isSome = true := by cbv
  obtain ⟨package, hpackage⟩ := Option.isSome_iff_exists.mp hpackage
  have htype : versionedProgram.requireType (QualifiedName.join "lib" "v2.Node") = .ok ⟨1⟩ := by cbv
  have hfound : versionedProgram.symbols.lookupMember ⟨1⟩ true ⟨"lib", "Len"⟩ = .found ⟨0⟩ [0] false := by decide
  rw [lookupMember, versionedProgram.resolveMember_eq hpackage htype "Len"] at hnone
  simp [hfound] at hnone

end Program

end ProgramIndex
