import ProgramIndex.Proofs.Addressability
import ProgramIndex.Proofs.Loaded

/- A member that may be missing, and one that must be there. Both are looked up in the same way, which ends in
   one of three: the package is not indexed, the type is not declared, or the table answers for a value with
   an address (`resolveMember_cases`). So each answer of the one stands for one outcome of the other
   (`requireMember_mirrors_lookupMember`). A member is reported missing only if no embedding path leads to
   one with its name (`not_leadsTo_of_notFound`), and never because its method needs a pointer. -/
namespace ProgramIndex

namespace SymbolTable

/-- A type that can have methods: no name for a pointer type, and no pointer to an interface. -/
structure CanHaveMethods (table : SymbolTable) (type : TypeId) : Prop where
  not_namedPointer : table.namedPointer? type = none
  not_interfacePointer : ∀ element methods, table.type? type = some (.pointer element) →
    table.underlyingForm? element ≠ some (.interface methods)

/-- A method with a pointer receiver that is declared on a type or on what it embeds. -/
def HasPointerMethod (table : SymbolTable) (type : TypeId) (selector : Selector) (method : SymbolId) : Prop :=
  table.CanHaveMethods type ∧ table.hasPointerReceiver method = true ∧
    ∃ path stop list place, table.LeadsTo selector (table.receiver type) path stop list place method

variable (table : SymbolTable) (selector : Selector)

theorem selectionOver_ne_notFound (addressable : Bool) {routes : List Route}
    (h : table.membersOf selector routes ≠ []) : table.selectionOver selector addressable routes ≠ .notFound := by
  unfold selectionOver
  split
  · next hnone => exact absurd hnone h
  · split <;> simp
  · simp

variable {table selector}

theorem CanHaveMethods.searched {type : TypeId} (h : table.CanHaveMethods type) :
    ((table.startRoute type).indirect &&
      (table.underlyingForm? (table.startRoute type).type).any TypeForm.isInterface) = false := by
  unfold startRoute deref
  split
  · next element hpointer =>
    cases hform : table.underlyingForm? element with
    | none => rfl
    | some form =>
      cases form with
      | interface methods => exact absurd hform (h.not_interfacePointer element methods hpointer)
      | _ => rfl
  · rfl

/-- What is not found is nowhere: no embedding path leads to a member with the name. -/
theorem not_leadsTo_of_notFound (hacyclic : table.UnnamedAcyclic) {type : TypeId} (htype : table.CanHaveMethods type)
    {addressable : Bool} (h : table.lookupMember type addressable selector = .notFound) (path : List Nat)
    (stop : Stop) (list : MemberList) (place : Nat) (symbol : SymbolId) :
    ¬ table.LeadsTo selector (table.receiver type) path stop list place symbol := by
  intro hleads
  rw [receiver, htype.not_namedPointer, Option.getD_none] at hleads
  have hexists : ∃ depth, table.membersOf selector (table.routesFrom [table.startRoute type] depth) ≠ [] :=
    ⟨path.length, (table.mem_memberDepths_iff selector type path.length).mp
      ⟨path, stop, list, place, symbol, rfl, hleads⟩⟩
  rw [lookupMember_eq_searchMember table selector htype.not_namedPointer,
    searchMember_eq_shallowestMember table selector hacyclic] at h
  unfold shallowestMember at h
  dsimp only at h
  rw [if_neg (by simp [htype.searched]), dif_pos hexists] at h
  classical
  exact table.selectionOver_ne_notFound selector addressable (Nat.find_spec hexists) h

end SymbolTable

namespace Program
variable {program : Program}

/-! How a look-up ends. -/

theorem packageAt?_eq_none_iff (hprogram : program.Consistent) (path : String) :
    program.packageAt? path = none ↔ path ∉ program.index.keys := by
  rw [← OrderedMap.get?_eq_none_iff, packageAt?, Option.bind_eq_none_iff]
  refine ⟨fun h => ?_, fun h id hid => by simp [h] at hid⟩
  cases hindex : program.index.get? path with
  | none => rfl
  | some id =>
    obtain ⟨package, hpackage, _⟩ := hprogram.index_package hindex
    rw [h id hindex] at hpackage
    cases hpackage

/-- The package is not indexed, the type is not declared, or the table answers as for a value with an
    address. -/
theorem resolveMember_cases (hprogram : program.Consistent) (path type member : String) :
    (path ∉ program.index.keys ∧ program.resolveMember path type member = .error (.packageNotFound path)) ∨
    path ∈ program.index.keys ∧
      ((program.requireType (QualifiedName.join path type) =
          .error (.typeNotFound (QualifiedName.join path type)) ∧
        program.resolveMember path type member = .error (.typeNotFound (QualifiedName.join path type))) ∨
      ∃ id, program.requireType (QualifiedName.join path type) = .ok id ∧
        program.resolveMember path type member = .ok (program.symbols.lookupMember id true ⟨path, member⟩)) := by
  cases hpackage : program.packageAt? path with
  | none => exact Or.inl ⟨(packageAt?_eq_none_iff hprogram path).mp hpackage, by simp [resolveMember, hpackage]⟩
  | some package =>
    have hindexed : path ∈ program.index.keys := by
      apply Decidable.byContradiction
      intro hnot
      simp [(packageAt?_eq_none_iff hprogram path).mpr hnot] at hpackage
    refine Or.inr ⟨hindexed, ?_⟩
    cases htype : program.lookupType? (QualifiedName.join path type) with
    | none =>
      have hrequire : program.requireType (QualifiedName.join path type) =
          .error (.typeNotFound (QualifiedName.join path type)) := by simp [requireType, htype]
      exact Or.inl ⟨hrequire, by simp [resolveMember, hpackage, hrequire]⟩
    | some id =>
      have hrequire : program.requireType (QualifiedName.join path type) = .ok id := by simp [requireType, htype]
      exact Or.inr ⟨id, hrequire, program.resolveMember_eq hpackage hrequire member⟩

/-! The two answers side by side. -/

/-- How looking a member up and asking for one that must exist end together. -/
inductive Outcome (program : Program) (path type member : String) : Selection → Except LookupError SymbolId → Prop
  | noPackage (hpath : path ∉ program.index.keys) :
      Outcome program path type member .notFound (.error (.packageNotFound path))
  | noType {e : LookupError} (hpath : path ∈ program.index.keys)
      (htype : program.requireType (QualifiedName.join path type) = .error e) :
      Outcome program path type member .notFound (.error (.typeNotFound (QualifiedName.join path type)))
  | found {id : TypeId} {symbol : SymbolId} {index : List Nat} {indirect : Bool} (hpath : path ∈ program.index.keys)
      (htype : program.requireType (QualifiedName.join path type) = .ok id) :
      Outcome program path type member (.found symbol index indirect) (.ok symbol)
  | ambiguous {id : TypeId} {index : List Nat} (hpath : path ∈ program.index.keys)
      (htype : program.requireType (QualifiedName.join path type) = .ok id) :
      Outcome program path type member (.ambiguous index)
        (.error (.ambiguousMember (QualifiedName.join path type) member))
  /-- Nothing is found on the type, even with an address. -/
  | noMember {id : TypeId} (hpath : path ∈ program.index.keys)
      (htype : program.requireType (QualifiedName.join path type) = .ok id)
      (hanswer : program.symbols.lookupMember id true ⟨path, member⟩ = .notFound) :
      Outcome program path type member .notFound
        (.error (.memberNotFound (QualifiedName.join path type) member))

theorem outcome (hprogram : program.Consistent) (path type member : String) :
    program.Outcome path type member (program.lookupMember path type member)
      (program.requireMember path type member) := by
  unfold lookupMember requireMember
  rcases resolveMember_cases hprogram path type member with
    ⟨hpath, hresolve⟩ | ⟨hpath, ⟨htype, hresolve⟩ | ⟨id, htype, hresolve⟩⟩
  · rw [hresolve]
    exact .noPackage hpath
  · rw [hresolve]
    exact .noType hpath htype
  · rw [hresolve]
    dsimp only
    cases hanswer : program.symbols.lookupMember id true ⟨path, member⟩ with
    | found symbol index indirect => exact .found hpath htype
    | ambiguous index => exact .ambiguous hpath htype
    | notAddressable =>
      exact absurd hanswer (program.symbols.lookupMember_true_ne_notAddressable ⟨path, member⟩ id)
    | notFound => exact .noMember hpath htype hanswer

namespace Outcome
variable {path type member : String} {answer : Selection} {result : Except LookupError SymbolId}
  (h : program.Outcome path type member answer result)
include h

theorem eq_ok_iff (symbol : SymbolId) :
    result = .ok symbol ↔ ∃ index indirect, answer = .found symbol index indirect := by
  cases h <;> simp

theorem eq_ambiguousMember_iff (receiver name : String) :
    result = .error (.ambiguousMember receiver name) ↔
      (receiver = QualifiedName.join path type ∧ name = member) ∧ ∃ index, answer = .ambiguous index := by
  cases h <;> simp [eq_comm]

theorem eq_packageNotFound_iff (missing : String) :
    result = .error (.packageNotFound missing) ↔ missing = path ∧ path ∉ program.index.keys := by
  cases h with
  | noPackage hpath => simp [hpath, eq_comm]
  | noType hpath => simp [hpath]
  | found hpath => simp [hpath]
  | ambiguous hpath => simp [hpath]
  | noMember hpath => simp [hpath]

theorem eq_typeNotFound_iff (missing : String) :
    result = .error (.typeNotFound missing) ↔ missing = QualifiedName.join path type ∧
      path ∈ program.index.keys ∧ ∃ e, program.requireType (QualifiedName.join path type) = .error e := by
  cases h with
  | noPackage hpath => simp [hpath]
  | noType hpath htype => simp [hpath, htype, eq_comm (a := missing)]
  | found hpath htype => simp [htype]
  | ambiguous hpath htype => simp [htype]
  | noMember hpath htype => simp [htype]

theorem eq_memberNotFound_iff (receiver missing : String) :
    result = .error (.memberNotFound receiver missing) ↔
      (receiver = QualifiedName.join path type ∧ missing = member) ∧ answer = .notFound ∧
      path ∈ program.index.keys ∧ ∃ id, program.requireType (QualifiedName.join path type) = .ok id := by
  cases h with
  | noPackage hpath => simp [hpath]
  | noType hpath htype => simp [htype]
  | found => simp
  | ambiguous => simp
  | noMember hpath htype => simp [hpath, htype, eq_comm (a := receiver), eq_comm (a := missing)]

theorem notFound_of_memberNotFound {receiver missing : String}
    (hmissing : result = .error (.memberNotFound receiver missing)) {id : TypeId}
    (htype : program.requireType (QualifiedName.join path type) = .ok id) (addressable : Bool) :
    program.symbols.lookupMember id addressable ⟨path, member⟩ = .notFound := by
  cases h with
  | noMember _ hfound hanswer =>
    obtain rfl := Except.ok.inj (htype.symm.trans hfound)
    cases addressable with
    | true => exact hanswer
    | false =>
      rw [SymbolTable.lookupMember_false, hanswer]
      rfl
  | _ => simp at hmissing

end Outcome

/-- A member that must exist is there exactly if looking it up finds it, and it is in conflict exactly if
    looking it up is. Any other error names what is missing: the package if its path is not indexed, or
    else the type if it is not declared, or else the member. A member that is missing is found neither
    without an address nor with one, and so it is no method with a pointer receiver that the type has. -/
theorem requireMember_mirrors_lookupMember {host : Host} {directory : String} {options : LoadOptions}
    {frontEnd : FrontEnd} {program : Program} (h : (load host directory options frontEnd).outcome = .ok program)
    (hacyclic : program.symbols.UnnamedAcyclic) (path type member : String) :
    (∀ symbol, program.requireMember path type member = .ok symbol ↔
      ∃ index indirect, program.lookupMember path type member = .found symbol index indirect) ∧
    (∀ receiver name, program.requireMember path type member = .error (.ambiguousMember receiver name) ↔
      (receiver = QualifiedName.join path type ∧ name = member) ∧
      ∃ index, program.lookupMember path type member = .ambiguous index) ∧
    (∀ missing, program.requireMember path type member = .error (.packageNotFound missing) ↔
      missing = path ∧ path ∉ program.index.keys) ∧
    (∀ missing, program.requireMember path type member = .error (.typeNotFound missing) ↔
      missing = QualifiedName.join path type ∧ path ∈ program.index.keys ∧
      ∃ e, program.requireType (QualifiedName.join path type) = .error e) ∧
    (∀ receiver missing, program.requireMember path type member = .error (.memberNotFound receiver missing) ↔
      (receiver = QualifiedName.join path type ∧ missing = member) ∧
      program.lookupMember path type member = .notFound ∧ path ∈ program.index.keys ∧
      ∃ id, program.requireType (QualifiedName.join path type) = .ok id) ∧
    ∀ receiver missing id, program.requireMember path type member = .error (.memberNotFound receiver missing) →
      program.requireType (QualifiedName.join path type) = .ok id →
      (∀ addressable, program.symbols.lookupMember id addressable ⟨path, member⟩ = .notFound) ∧
      ∀ method, ¬ program.symbols.HasPointerMethod id ⟨path, member⟩ method := by
  have houtcome := outcome (consistent_of_load h) path type member
  refine ⟨houtcome.eq_ok_iff, houtcome.eq_ambiguousMember_iff, houtcome.eq_packageNotFound_iff,
    houtcome.eq_typeNotFound_iff, houtcome.eq_memberNotFound_iff, ?_⟩
  intro receiver missing id hmissing htype
  have hnone := houtcome.notFound_of_memberNotFound hmissing htype
  refine ⟨hnone, fun method hmethod => ?_⟩
  obtain ⟨hcan, _, route, stop, list, place, hleads⟩ := hmethod
  exact SymbolTable.not_leadsTo_of_notFound hacyclic hcan (hnone true) route stop list place method hleads

/-- A type with a method that needs an address. Both structs that it embeds have a field `X`. -/
def conflictFindings : Findings where
  packages := [{ key := "p", path := "p", name := "p", scope := .ofList [("T", ⟨0⟩)] }]
  roots := [⟨0⟩]
  symbols :=
    { symbols := [⟨"T", .typeName, some "p", some ⟨0⟩⟩, ⟨"Set", .method true, some "p", none⟩,
        ⟨"A", .field, some "p", some ⟨1⟩⟩, ⟨"B", .field, some "p", some ⟨2⟩⟩,
        ⟨"X", .field, some "p", none⟩, ⟨"X", .field, some "p", none⟩]
      types := [.named ⟨0⟩ (some ⟨3⟩) [⟨1⟩], .struct [⟨⟨4⟩, false⟩], .struct [⟨⟨5⟩, false⟩],
        .struct [⟨⟨2⟩, true⟩, ⟨⟨3⟩, true⟩]] }

def conflictProgram : Program := ofFindings {} "/" conflictFindings

theorem index_conflictProgram : conflictProgram.index.keys = ["p"] := by cbv

theorem requireType_conflictProgram : conflictProgram.requireType (QualifiedName.join "p" "T") = .ok ⟨0⟩ := by cbv

theorem lookupMember_conflictProgram (member : String) :
    conflictProgram.lookupMember "p" "T" member =
      conflictProgram.symbols.lookupMember ⟨0⟩ true ⟨"p", member⟩ := by
  have hpackage : (conflictProgram.packageAt? "p").isSome = true := by cbv
  obtain ⟨package, hpackage⟩ := Option.isSome_iff_exists.mp hpackage
  rw [lookupMember, conflictProgram.resolveMember_eq hpackage requireType_conflictProgram member]

theorem requireMember_mirrors_lookupMember_conflictProgram :
    conflictProgram.requireMember "p" "T" "Set" = .ok ⟨1⟩ ∧
    conflictProgram.symbols.HasPointerMethod ⟨0⟩ ⟨"p", "Set"⟩ ⟨1⟩ ∧
    conflictProgram.requireMember "p" "T" "X" = .error (.ambiguousMember "p.T" "X") ∧
    conflictProgram.requireMember "q" "T" "X" = .error (.packageNotFound "q") ∧
    conflictProgram.requireMember "p" "U" "X" = .error (.typeNotFound "p.U") ∧
    conflictProgram.requireMember "p" "T" "Y" = .error (.memberNotFound "p.T" "Y") ∧
    ∀ method, ¬ conflictProgram.symbols.HasPointerMethod ⟨0⟩ ⟨"p", "Y"⟩ method := by
  have hload : (load {} "/" {} fun _ => .ok conflictFindings).outcome = .ok conflictProgram := rfl
  have hacyclic : conflictProgram.symbols.UnnamedAcyclic :=
    SymbolTable.unnamedAcyclic_of_addedInOrder (by decide)
  have hindexed : "p" ∈ conflictProgram.index.keys := by simp [index_conflictProgram]
  have huntyped : conflictProgram.requireType (QualifiedName.join "p" "U") = .error (.typeNotFound "p.U") := by cbv
  obtain ⟨hset, _⟩ := requireMember_mirrors_lookupMember hload hacyclic "p" "T" "Set"
  obtain ⟨_, hx, _⟩ := requireMember_mirrors_lookupMember hload hacyclic "p" "T" "X"
  obtain ⟨_, _, hq, _⟩ := requireMember_mirrors_lookupMember hload hacyclic "q" "T" "X"
  obtain ⟨_, _, _, hu, _⟩ := requireMember_mirrors_lookupMember hload hacyclic "p" "U" "X"
  obtain ⟨_, _, _, _, hy, hnone⟩ := requireMember_mirrors_lookupMember hload hacyclic "p" "T" "Y"
  rw [lookupMember_conflictProgram] at hy
  simp only [lookupMember_conflictProgram] at hset hx
  have hmissing : conflictProgram.requireMember "p" "T" "Y" = .error (.memberNotFound "p.T" "Y") :=
    (hy _ _).mpr ⟨⟨rfl, rfl⟩, by decide, hindexed, ⟨0⟩, requireType_conflictProgram⟩
  refine ⟨(hset ⟨1⟩).mpr ⟨[0], false, by decide⟩, ?_, (hx _ _).mpr ⟨⟨rfl, rfl⟩, [1, 0], by decide⟩,
    (hq _).mpr ⟨rfl, by simp [index_conflictProgram]⟩, (hu _).mpr ⟨rfl, hindexed, _, huntyped⟩, hmissing,
    (hnone _ _ ⟨0⟩ hmissing requireType_conflictProgram).2⟩
  exact ⟨⟨by decide, by simp [conflictProgram, ofFindings, conflictFindings, SymbolTable.type?]⟩, by decide,
    [], ⟨⟨0⟩, 0⟩, .declaredMethods, 0, ⟨rfl, rfl, by decide⟩⟩

end Program

end ProgramIndex
