import ProgramIndex.Proofs.Addressability

/- The members of a pointer. A search from a pointer and a search from what it points to go through the
   same levels, and differ only in that every candidate of the first is behind the pointer
   (`lockstep_behindPointer`). Behind a pointer nothing is out of reach, so the search from the
   pointer answers what the other one answers for a value with an address, whether or not the pointer
   itself has an address (`lookupMember_pointer`, `pointer_has_members_of_addressable`). A pointer to a
   pointer, to a name for a pointer type or to an interface is left out: these are searched by other
   rules than what they point to. -/
namespace ProgramIndex

/-- An answer as it is found behind a pointer. -/
def Selection.behindPointer : Selection → Selection
  | .found symbol path _ => .found symbol path true
  | answer => answer

namespace Selection

theorem behindPointer_eq_found_iff {answer : Selection} {symbol : SymbolId} {path : List Nat} {indirect : Bool} :
    answer.behindPointer = .found symbol path indirect ↔
      (∃ direct, answer = .found symbol path direct) ∧ indirect = true := by
  cases answer <;> simp [behindPointer, eq_comm, and_assoc]

theorem behindPointer_eq_ambiguous_iff {answer : Selection} {path : List Nat} :
    answer.behindPointer = .ambiguous path ↔ answer = .ambiguous path := by
  cases answer <;> simp [behindPointer]

theorem behindPointer_eq_notAddressable_iff {answer : Selection} :
    answer.behindPointer = .notAddressable ↔ answer = .notAddressable := by
  cases answer <;> simp [behindPointer]

theorem behindPointer_eq_notFound_iff {answer : Selection} :
    answer.behindPointer = .notFound ↔ answer = .notFound := by
  cases answer <;> simp [behindPointer]

end Selection

namespace SymbolTable

def Candidate.behindPointer (c : Candidate) : Candidate := { c with indirect := true }

def Hit.behindPointer (hit : Hit) : Hit := { hit with indirect := true }

@[simp] theorem Candidate.behindPointer_type (c : Candidate) : c.behindPointer.type = c.type := rfl

variable {table : SymbolTable} {selector : Selector}

/-! One level. -/

theorem hits_behindPointer (c : Candidate) :
    table.hits selector c.behindPointer = (table.hits selector c).map Hit.behindPointer := by
  simp [hits, Candidate.behindPointer, Hit.behindPointer]

theorem deeper_behindPointer (c : Candidate) :
    table.deeper c.behindPointer = (table.deeper c).map Candidate.behindPointer := by
  simp [deeper, Candidate.behindPointer]

theorem merge_map_behindPointer : ∀ level : List Candidate,
    merge (level.map Candidate.behindPointer) = (merge level).map Candidate.behindPointer
  | [] => rfl
  | c :: rest => by
    have hagain : hasType (rest.map Candidate.behindPointer) c.type = hasType rest c.type := by
      simp [hasType, List.any_map, Function.comp_def]
    rw [List.map_cons, merge_cons, merge_map_behindPointer rest, merge_cons, List.map_cons, List.filter_map,
      Candidate.behindPointer_type, hagain]
    rfl

theorem unsearched_map_behindPointer (seen : List TypeId) (level : List Candidate) :
    unsearched seen (level.map Candidate.behindPointer) =
      (unsearched seen level).map Candidate.behindPointer := by
  rw [unsearched, List.filter_map]
  rfl

theorem flatMap_hits_behindPointer (seen : List TypeId) (level : List Candidate) :
    (unsearched seen (level.map Candidate.behindPointer)).flatMap (table.hits selector) =
      ((unsearched seen level).flatMap (table.hits selector)).map Hit.behindPointer := by
  rw [unsearched_map_behindPointer, List.flatMap_map, List.map_flatMap]
  simp only [hits_behindPointer]

theorem seenAfter_behindPointer (seen : List TypeId) (level : List Candidate) :
    table.seenAfter seen (level.map Candidate.behindPointer) = table.seenAfter seen level := by
  rw [seenAfter, unsearched_map_behindPointer, List.map_map]
  rfl

theorem nextLevel_behindPointer (seen : List TypeId) (level : List Candidate) :
    table.nextLevel seen (level.map Candidate.behindPointer) =
      (table.nextLevel seen level).map Candidate.behindPointer := by
  rw [nextLevel, unsearched_map_behindPointer, List.flatMap_map]
  simp only [deeper_behindPointer]
  rw [← List.map_flatMap, merge_map_behindPointer]
  rfl

theorem verdict_behindPointer (addressable : Bool) (hit : Hit) (others : List Hit) :
    table.verdict addressable hit.behindPointer (others.map Hit.behindPointer) =
      (table.verdict true hit others).behindPointer := by
  unfold verdict
  cases hrepeated : hit.repeated with
  | true => simp [Hit.behindPointer, hrepeated, Selection.behindPointer]
  | false => cases others <;> simp [Hit.behindPointer, hrepeated, Selection.behindPointer]

/-! Two searches. -/

theorem lockstep_behindPointer (table : SymbolTable) (selector : Selector) (addressable : Bool) :
    Lockstep table table selector selector true addressable
      (fun level beside => beside = level.map Candidate.behindPointer) Selection.behindPointer where
  notFound := rfl
  nil := by
    intro level beside hbeside
    subst hbeside
    exact List.map_eq_nil_iff.symm
  decided := by
    intro seen level beside hit others hbeside hhits
    subst hbeside
    refine ⟨hit.behindPointer, others.map Hit.behindPointer, ?_, verdict_behindPointer addressable hit others⟩
    rw [flatMap_hits_behindPointer, hhits, List.map_cons]
  descends := by
    intro seen level beside hbeside hmiss
    subst hbeside
    refine ⟨?_, seenAfter_behindPointer seen level, nextLevel_behindPointer seen level⟩
    rw [flatMap_hits_behindPointer, hmiss, List.map_nil]

/-- A type that is no pointer type, no name for one and no interface. -/
structure IsValueType (table : SymbolTable) (type : TypeId) : Prop where
  not_pointer : ∀ element, table.type? type ≠ some (.pointer element)
  not_namedPointer : table.namedPointer? type = none
  not_interface : ∀ methods, table.underlyingForm? type ≠ some (.interface methods)

theorem IsValueType.deref_eq {type : TypeId} (h : table.IsValueType type) :
    table.deref type = (type, false) := by
  unfold deref
  split
  · next element hform => exact absurd hform (h.not_pointer element)
  · rfl

theorem IsValueType.isInterface_eq_false {type : TypeId} (h : table.IsValueType type) :
    (table.underlyingForm? type).any TypeForm.isInterface = false := by
  cases hform : table.underlyingForm? type with
  | none => rfl
  | some form =>
    cases form with
    | interface methods => exact absurd hform (h.not_interface methods)
    | _ => rfl

theorem deref_of_pointer {pointer element : TypeId} (h : table.type? pointer = some (.pointer element)) :
    table.deref pointer = (element, true) := by
  simp [deref, h]

theorem namedPointer?_of_pointer {pointer element : TypeId}
    (h : table.type? pointer = some (.pointer element)) : table.namedPointer? pointer = none := by
  simp [namedPointer?, isNamed, h, TypeForm.isNamed]

variable (selector)

/-- A pointer has the members of what it points to, as a value with an address has them. -/
theorem lookupMember_pointer {pointer element : TypeId} (hpointer : table.type? pointer = some (.pointer element))
    (helement : table.IsValueType element) (addressable : Bool) :
    table.lookupMember pointer addressable selector =
      (table.lookupMember element true selector).behindPointer := by
  have hsearch : table.searchLevels? selector addressable table.levelBound [] [⟨element, [], true, false⟩] =
      (table.searchLevels? selector true table.levelBound [] [⟨element, [], false, false⟩]).map
        Selection.behindPointer :=
    (table.lockstep_behindPointer selector addressable).searchLevels?_eq table.levelBound [] rfl
  rw [lookupMember_eq_searchMember table selector (namedPointer?_of_pointer hpointer),
    lookupMember_eq_searchMember table selector helement.not_namedPointer, searchMember, searchMember,
    deref_of_pointer hpointer, helement.deref_eq]
  simp only [helement.isInterface_eq_false, Bool.and_false, Bool.false_eq_true, if_false]
  rw [hsearch]
  cases table.searchLevels? selector true table.levelBound [] [⟨element, [], false, false⟩] <;> rfl

variable {selector}

/-- Looking a name up on a pointer finds a member, is in conflict or finds nothing exactly if looking it
    up on what the pointer points to does for a value with an address, with the same member and the same
    path. What is found on the pointer is found indirectly, and nothing is out of reach there. -/
theorem pointer_has_members_of_addressable (table : SymbolTable) {pointer element : TypeId}
    (hpointer : table.type? pointer = some (.pointer element)) (helement : table.IsValueType element)
    (addressable : Bool) (selector : Selector) :
    (∀ symbol path, (∃ indirect, table.lookupMember pointer addressable selector = .found symbol path indirect) ↔
      ∃ indirect, table.lookupMember element true selector = .found symbol path indirect) ∧
    (∀ path, table.lookupMember pointer addressable selector = .ambiguous path ↔
      table.lookupMember element true selector = .ambiguous path) ∧
    (table.lookupMember pointer addressable selector = .notFound ↔
      table.lookupMember element true selector = .notFound) ∧
    (∀ symbol path indirect, table.lookupMember pointer addressable selector = .found symbol path indirect →
      indirect = true) ∧
    table.lookupMember pointer addressable selector ≠ .notAddressable := by
  have hlaw := lookupMember_pointer selector hpointer helement addressable
  refine ⟨fun symbol path => ?_, fun path => ?_, ?_, fun symbol path indirect h => ?_, fun h => ?_⟩
  · simp [hlaw, Selection.behindPointer_eq_found_iff]
  · rw [hlaw, Selection.behindPointer_eq_ambiguous_iff]
  · rw [hlaw, Selection.behindPointer_eq_notFound_iff]
  · rw [hlaw, Selection.behindPointer_eq_found_iff] at h
    exact h.2
  · rw [hlaw, Selection.behindPointer_eq_notAddressable_iff] at h
    exact table.lookupMember_true_ne_notAddressable selector element h

/-- A pointer to a named type with a method that needs an address. Of the three structs that the type
    embeds, the first one behind a pointer, two have a field of the same name. -/
def pointedAt : SymbolTable where
  symbols := [⟨"Set", .method true, some "p", none⟩, ⟨"E", .field, some "p", some ⟨2⟩⟩,
    ⟨"F", .field, some "p", some ⟨3⟩⟩, ⟨"G", .field, some "p", some ⟨4⟩⟩, ⟨"X", .field, some "p", none⟩,
    ⟨"Y", .field, some "p", none⟩, ⟨"Y", .field, some "p", none⟩]
  types := [.named ⟨9⟩ (some ⟨5⟩) [⟨0⟩], .struct [⟨⟨4⟩, false⟩], .pointer ⟨1⟩, .struct [⟨⟨5⟩, false⟩],
    .struct [⟨⟨6⟩, false⟩], .struct [⟨⟨1⟩, true⟩, ⟨⟨2⟩, true⟩, ⟨⟨3⟩, true⟩], .pointer ⟨0⟩]

/-- The method that is out of reach without an address is found on the pointer, and the name that two of
    the embedded structs have is in conflict on the pointer as well. -/
theorem pointer_has_members_pointedAt :
    pointedAt.IsValueType ⟨0⟩ ∧ pointedAt.lookupMember ⟨0⟩ false ⟨"p", "Set"⟩ = .notAddressable ∧
    (∃ indirect, pointedAt.lookupMember ⟨6⟩ false ⟨"p", "Set"⟩ = .found ⟨0⟩ [0] indirect) ∧
    pointedAt.lookupMember ⟨6⟩ false ⟨"p", "Y"⟩ = .ambiguous [2, 0] := by
  have hpointer : pointedAt.type? ⟨6⟩ = some (.pointer ⟨0⟩) := by decide
  have helement : pointedAt.IsValueType ⟨0⟩ :=
    ⟨by simp [pointedAt, type?], by decide, by simp [pointedAt, underlyingForm?, underlying?, type?]⟩
  refine ⟨helement, by decide, ?_, ?_⟩
  · obtain ⟨hfound, _⟩ := pointer_has_members_of_addressable pointedAt hpointer helement false ⟨"p", "Set"⟩
    exact (hfound ⟨0⟩ [0]).mpr ⟨false, by decide⟩
  · obtain ⟨_, hambiguous, _⟩ := pointer_has_members_of_addressable pointedAt hpointer helement false ⟨"p", "Y"⟩
    exact (hambiguous [2, 0]).mpr (by decide)

end SymbolTable

end ProgramIndex
