import Mathlib
import ProgramIndex.Program.Load
import ProgramIndex.Program.Names
import ProgramIndex.Proofs.SearchLevels

/- What an address is good for. Two searches that differ in whether the value has an address go through
   the same levels, and the one without an address answers what `withoutAddress` leaves of the other
   answer (`searchLevels?_false`, `lookupMember_false`): a method with a pointer receiver is out of reach
   if no pointer was followed to it. On a name for a pointer type every member is behind that pointer, so
   there the address makes no difference. Asking again with an address, as a program does, is therefore
   the same as having it from the start (`Program.resolveMember_eq`). -/
namespace ProgramIndex

namespace SymbolTable
variable {table : SymbolTable} {selector : Selector}

/-- What is left of an answer for a value with an address if it has none. -/
def withoutAddress (table : SymbolTable) : Selection → Selection
  | .found symbol path indirect =>
    if table.hasPointerReceiver symbol && !indirect then .notAddressable else .found symbol path indirect
  | answer => answer

theorem withoutAddress_eq_notAddressable_iff {answer : Selection} (h : answer ≠ .notAddressable) :
    table.withoutAddress answer = .notAddressable ↔
      ∃ symbol path, answer = .found symbol path false ∧ table.hasPointerReceiver symbol = true := by
  cases answer with
  | found symbol path indirect =>
    cases indirect <;> cases hreceiver : table.hasPointerReceiver symbol <;> simp [withoutAddress, hreceiver]
  | ambiguous path => simp [withoutAddress]
  | notAddressable => exact absurd rfl h
  | notFound => simp [withoutAddress]

theorem withoutAddress_eq_self {answer : Selection} (h : table.withoutAddress answer ≠ .notAddressable) :
    table.withoutAddress answer = answer := by
  cases answer with
  | found symbol path indirect =>
    simp only [withoutAddress] at h ⊢
    split at h
    · exact absurd rfl h
    · next hreach => rw [if_neg hreach]
  | ambiguous path => rfl
  | notAddressable => rfl
  | notFound => rfl

/-! One level. -/

theorem verdict_false (hit : Hit) (others : List Hit) :
    table.verdict false hit others = table.withoutAddress (table.verdict true hit others) := by
  unfold verdict
  split
  · rfl
  · cases others with
    | nil => simp [withoutAddress]
    | cons other rest => rfl

theorem verdict_true_ne_notAddressable (hit : Hit) (others : List Hit) :
    table.verdict true hit others ≠ .notAddressable := by
  unfold verdict
  split
  · simp
  · cases others <;> simp

/-! Two searches. -/

theorem lockstep_withoutAddress (table : SymbolTable) (selector : Selector) :
    Lockstep table table selector selector true false Eq table.withoutAddress where
  notFound := rfl
  nil := fun h => by rw [h]
  decided := by
    intro seen level beside hit others hbeside hhits
    subst hbeside
    exact ⟨hit, others, hhits, verdict_false hit others⟩
  descends := by
    intro seen level beside hbeside hmiss
    subst hbeside
    exact ⟨hmiss, rfl, rfl⟩

/-- The search without an address goes through the levels of the one with an address. -/
theorem searchLevels?_false (bound : Nat) (seen : List TypeId) (level : List Candidate) :
    table.searchLevels? selector false bound seen level =
      (table.searchLevels? selector true bound seen level).map table.withoutAddress :=
  (table.lockstep_withoutAddress selector).searchLevels?_eq bound seen rfl

variable (table selector)

theorem searchMember_false (type : TypeId) :
    table.searchMember type false selector = table.withoutAddress (table.searchMember type true selector) := by
  unfold searchMember
  dsimp only
  split
  · rfl
  · rw [searchLevels?_false]
    cases table.searchLevels? selector true table.levelBound []
      [⟨(table.deref type).1, [], (table.deref type).2, false⟩] <;> rfl

theorem searchMember_true_ne_notAddressable (type : TypeId) :
    table.searchMember type true selector ≠ .notAddressable := by
  rcases table.searchMember_cases selector type true with hnone | ⟨hit, others, hverdict, _, _⟩
  · simp [hnone]
  · rw [hverdict]
    exact verdict_true_ne_notAddressable hit others

variable {table selector}

theorem indirect_of_searchMember {type : TypeId} (hpointer : (table.deref type).2 = true) {addressable : Bool}
    {symbol : SymbolId} {path : List Nat} {indirect : Bool}
    (h : table.searchMember type addressable selector = .found symbol path indirect) : indirect = true := by
  rcases table.searchMember_cases selector type addressable with hnone | ⟨hit, others, hverdict, _, hindirect⟩
  · simp [hnone] at h
  · rw [← (eq_of_verdict_found (hverdict.symm.trans h)).2]
    exact hindirect hpointer

theorem deref_of_namedPointer {type pointer : TypeId} (h : table.namedPointer? type = some pointer) :
    (table.deref pointer).2 = true := by
  unfold namedPointer? at h
  split at h
  · obtain ⟨_, hform⟩ := Option.filter_eq_some_iff.mp h
    obtain ⟨form, htype, hpointer⟩ := (Option.any_eq_true _ _).mp hform
    cases form with
    | pointer element => simp [deref, htype]
    | _ => simp [TypeForm.isPointer] at hpointer
  · simp at h

theorem indirect_of_namedPointer {type pointer : TypeId} (hpointer : table.namedPointer? type = some pointer)
    {addressable : Bool} {symbol : SymbolId} {path : List Nat} {indirect : Bool}
    (h : table.lookupMember type addressable selector = .found symbol path indirect) : indirect = true := by
  obtain ⟨granted, hsearch⟩ := table.exists_searchMember_of_lookupMember selector h (by simp)
  rw [hpointer, Option.getD_some] at hsearch
  exact indirect_of_searchMember (deref_of_namedPointer hpointer) hsearch

theorem searchMember_ne_notAddressable {type : TypeId} (hpointer : (table.deref type).2 = true) :
    table.searchMember type false selector ≠ .notAddressable := by
  rw [searchMember_false, Ne,
    withoutAddress_eq_notAddressable_iff (table.searchMember_true_ne_notAddressable selector type)]
  rintro ⟨symbol, path, hfound, _⟩
  have hindirect := indirect_of_searchMember hpointer hfound
  simp at hindirect

variable (table selector)

/-! Looking a member up. -/

theorem lookupMember_true_ne_notAddressable (type : TypeId) :
    table.lookupMember type true selector ≠ .notAddressable := by
  cases hpointer : table.namedPointer? type with
  | none =>
    rw [lookupMember_eq_searchMember table selector hpointer]
    exact table.searchMember_true_ne_notAddressable selector type
  | some pointer =>
    intro h
    obtain ⟨granted, hsearch⟩ := table.exists_searchMember_of_lookupMember selector h (by simp)
    rw [hpointer, Option.getD_some] at hsearch
    cases granted with
    | true => exact table.searchMember_true_ne_notAddressable selector pointer hsearch
    | false => exact searchMember_ne_notAddressable (deref_of_namedPointer hpointer) hsearch

/-- Without an address a look-up answers what is left of the answer with an address. -/
theorem lookupMember_false (type : TypeId) :
    table.lookupMember type false selector = table.withoutAddress (table.lookupMember type true selector) := by
  cases hpointer : table.namedPointer? type with
  | none =>
    rw [lookupMember_eq_searchMember table selector hpointer, lookupMember_eq_searchMember table selector hpointer]
    exact table.searchMember_false selector type
  | some pointer =>
    have hsame : table.lookupMember type false selector = table.lookupMember type true selector := by
      unfold lookupMember
      rw [hpointer]
    rw [hsame]
    symm
    apply withoutAddress_eq_self
    rw [Ne, withoutAddress_eq_notAddressable_iff (table.lookupMember_true_ne_notAddressable selector type)]
    rintro ⟨symbol, path, hfound, _⟩
    have hindirect := indirect_of_namedPointer hpointer hfound
    simp at hindirect

/-- A method is out of reach without an address exactly if it has a pointer receiver and is found with an
    address without following a pointer; the type is then no name for a pointer type. -/
theorem lookupMember_false_eq_notAddressable_iff (type : TypeId) :
    table.lookupMember type false selector = .notAddressable ↔
      table.namedPointer? type = none ∧ ∃ symbol path,
        table.lookupMember type true selector = .found symbol path false ∧
        table.hasPointerReceiver symbol = true := by
  rw [lookupMember_false,
    withoutAddress_eq_notAddressable_iff (table.lookupMember_true_ne_notAddressable selector type)]
  refine ⟨fun h => ⟨?_, h⟩, And.right⟩
  obtain ⟨symbol, path, hfound, _⟩ := h
  cases hpointer : table.namedPointer? type with
  | none => rfl
  | some pointer =>
    have hindirect := indirect_of_namedPointer hpointer hfound
    simp at hindirect

theorem lookupMember_false_eq_true {type : TypeId}
    (h : table.lookupMember type false selector ≠ .notAddressable) :
    table.lookupMember type false selector = table.lookupMember type true selector := by
  rw [lookupMember_false] at h ⊢
  exact withoutAddress_eq_self h

end SymbolTable

namespace Program

/-- Asking without an address, and again with one where that is needed, is asking with an address. -/
theorem resolveMember_eq (program : Program) {path type : String} {package : Package} {id : TypeId}
    (hpackage : program.packageAt? path = some package)
    (htype : program.requireType (QualifiedName.join path type) = .ok id) (member : String) :
    program.resolveMember path type member = .ok (program.symbols.lookupMember id true ⟨path, member⟩) := by
  unfold resolveMember
  rw [hpackage]
  dsimp only
  rw [htype]
  dsimp only
  split
  · rfl
  · next hother => rw [program.symbols.lookupMember_false_eq_true ⟨path, member⟩ hother]

theorem lookupMember_ne_notAddressable (program : Program) (path type member : String) :
    program.lookupMember path type member ≠ .notAddressable := by
  unfold lookupMember
  cases hpackage : program.packageAt? path with
  | none => simp [resolveMember, hpackage]
  | some package =>
    cases htype : program.requireType (QualifiedName.join path type) with
    | error e => simp [resolveMember, hpackage, htype]
    | ok id =>
      rw [program.resolveMember_eq hpackage htype member]
      exact program.symbols.lookupMember_true_ne_notAddressable ⟨path, member⟩ id

end Program

/-- With an address no member is out of reach. Without one a member is out of reach exactly if it is found
    with an address, on no name for a pointer type, as a method with a pointer receiver to which no
    pointer was followed; any other answer is the same with and without an address. So a program, which
    asks again with an address, never answers that a member is out of reach, and answers as the table
    does with an address wherever it knows the package and the type. -/
theorem address_unlocks_pointer_receivers :
    (∀ (table : SymbolTable) (type : TypeId) (selector : Selector),
      table.lookupMember type true selector ≠ .notAddressable ∧
      (table.lookupMember type false selector = .notAddressable ↔
        table.namedPointer? type = none ∧ ∃ symbol path,
          table.lookupMember type true selector = .found symbol path false ∧
          table.hasPointerReceiver symbol = true) ∧
      (table.lookupMember type false selector ≠ .notAddressable →
        table.lookupMember type false selector = table.lookupMember type true selector)) ∧
    ∀ (program : Program) (path type member : String),
      program.lookupMember path type member ≠ .notAddressable ∧
      ∀ package id, program.packageAt? path = some package →
        program.requireType (QualifiedName.join path type) = .ok id →
        program.lookupMember path type member = program.symbols.lookupMember id true ⟨path, member⟩ := by
  refine ⟨fun table type selector => ?_, fun program path type member => ?_⟩
  · exact ⟨table.lookupMember_true_ne_notAddressable selector type,
      table.lookupMember_false_eq_notAddressable_iff selector type, table.lookupMember_false_eq_true selector⟩
  · refine ⟨program.lookupMember_ne_notAddressable path type member, fun package id hpackage htype => ?_⟩
    rw [Program.lookupMember, program.resolveMember_eq hpackage htype member]

/-! A program with a method that needs an address. -/

def setterFindings : Findings where
  packages := [{ key := "p", path := "p", name := "p", scope := .ofList [("T", ⟨0⟩)] }]
  roots := [⟨0⟩]
  symbols :=
    { symbols := [⟨"T", .typeName, some "p", some ⟨0⟩⟩, ⟨"Set", .method true, some "p", none⟩]
      types := [.named ⟨0⟩ (some ⟨1⟩) [⟨1⟩], .struct []] }

def setterProgram : Program := Program.ofFindings {} "/" setterFindings

theorem address_unlocks_setterProgram :
    (load {} "/" {} fun _ => .ok setterFindings).outcome = .ok setterProgram ∧
    setterProgram.symbols.lookupMember ⟨0⟩ false ⟨"p", "Set"⟩ = .notAddressable ∧
    setterProgram.lookupMember "p" "T" "Set" = .found ⟨1⟩ [0] false := by
  obtain ⟨htable, hprogram⟩ := address_unlocks_pointer_receivers
  have hfound : setterProgram.symbols.lookupMember ⟨0⟩ true ⟨"p", "Set"⟩ = .found ⟨1⟩ [0] false := by decide
  have hpackage : (setterProgram.packageAt? "p").isSome = true := by cbv
  obtain ⟨package, hpackage⟩ := Option.isSome_iff_exists.mp hpackage
  have htype : setterProgram.requireType (QualifiedName.join "p" "T") = .ok ⟨0⟩ := by cbv
  refine ⟨rfl, ?_, ?_⟩
  · exact ((htable setterProgram.symbols ⟨0⟩ ⟨"p", "Set"⟩).2.1).mpr ⟨by decide, ⟨1⟩, [0], hfound, by decide⟩
  · rw [← hfound]
    exact (hprogram setterProgram "p" "T" "Set").2 package ⟨0⟩ hpackage htype

end ProgramIndex
