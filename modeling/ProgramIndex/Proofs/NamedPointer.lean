import ProgramIndex.Proofs.MemberPath

/- Names for pointer types. Such a name has the fields of its pointer and is meant to have no methods: a
   look-up drops what it found if that is a method. It goes by the kind of the symbol, not by the list
   in which the symbol stands (`lookupMember_eq_found_iff`). So what is found is a field exactly if it
   stands in no list of methods (`namedPointer_finds_field_unless_unmarked`), and a method that is listed
   with another kind is found all the same (`namedPointer_finds_interface_method`). -/
namespace ProgramIndex.SymbolTable

/-- The symbols that a type lists as methods. -/
def methodsOf (table : SymbolTable) (type : TypeId) : List SymbolId :=
  table.membersIn type .declaredMethods ++ table.membersIn type .interfaceMethods

variable {table : SymbolTable}

/-- A name for a pointer type finds what a search from the pointer finds, if that is not of the kind of
    methods. -/
theorem lookupMember_eq_found_iff {type pointer : TypeId} (hpointer : table.namedPointer? type = some pointer)
    (addressable : Bool) (selector : Selector) (symbol : SymbolId) (index : List Nat) (indirect : Bool) :
    table.lookupMember type addressable selector = .found symbol index indirect ↔
      table.searchMember pointer false selector = .found symbol index indirect ∧ table.isMethod symbol = false := by
  unfold lookupMember
  rw [hpointer]
  dsimp only
  split
  · next found path stripped hsearch =>
    rw [hsearch]
    cases hkind : table.isMethod found with
    | true =>
      simp only [if_true, reduceCtorEq, false_iff, Selection.found.injEq, not_and]
      rintro ⟨rfl, _⟩
      simp [hkind]
    | false =>
      simp only [Bool.false_eq_true, if_false, Selection.found.injEq, iff_self_and]
      rintro ⟨rfl, _⟩
      exact hkind
  · next hother =>
    constructor
    · intro h
      exact absurd h (hother symbol index indirect)
    · intro h
      exact absurd h.1 (hother symbol index indirect)

theorem membersIn_interfaceMethods_eq_nil {type : TypeId} {s : SymbolId} (hs : s ∈ table.membersIn type .fields) :
    table.membersIn type .interfaceMethods = [] := by
  simp only [membersIn] at hs ⊢
  split at hs
  · next fields hform => simp [hform]
  · simp at hs

theorem LeadsTo.eq_fields_iff {selector : Selector} {start stop : Stop} {path : List Nat} {list : MemberList}
    {place : Nat} {symbol : SymbolId} (h : table.LeadsTo selector start path stop list place symbol)
    (hdeclared : list ≠ .declaredMethods → table.NoneDeclared selector stop.type) :
    list = .fields ↔ symbol ∉ table.methodsOf stop.type := by
  have hmem := List.mem_of_getElem? h.member
  cases list with
  | declaredMethods => simpa [methodsOf] using fun hnot => absurd hmem hnot
  | interfaceMethods => simpa [methodsOf] using fun _ => hmem
  | fields =>
    refine ⟨fun _ hmethod => ?_, fun _ => rfl⟩
    rcases List.mem_append.mp hmethod with hmethod | hmethod
    · -- a declared method with the name would have been found in its place
      have hanswers := hdeclared (by simp) symbol hmethod
      simp [h.answers] at hanswers
    · simp [membersIn_interfaceMethods_eq_nil hmem] at hmethod

/-- A name for a pointer type finds exactly what a search from the pointer finds and is not of the kind of
    methods. That is a field exactly if the type on which it stands does not list it as a method, and so
    it is one wherever all that is listed as a method is of the kind of methods. -/
theorem namedPointer_finds_field_unless_unmarked (table : SymbolTable) (hacyclic : table.UnnamedAcyclic)
    {type pointer : TypeId} (hpointer : table.namedPointer? type = some pointer) (addressable : Bool)
    (selector : Selector) (symbol : SymbolId) (index : List Nat) (indirect : Bool) :
    (table.lookupMember type addressable selector = .found symbol index indirect ↔
      table.searchMember pointer false selector = .found symbol index indirect ∧ table.isMethod symbol = false) ∧
    (table.lookupMember type addressable selector = .found symbol index indirect →
      ∃ path stop list place, index = path ++ [place] ∧
        table.LeadsTo selector (table.receiver type) path stop list place symbol ∧
        (list = .fields ↔ symbol ∉ table.methodsOf stop.type) ∧
        ((∀ s ∈ table.methodsOf stop.type, table.isMethod s = true) → list = .fields)) := by
  have hfound := lookupMember_eq_found_iff hpointer addressable selector symbol index indirect
  refine ⟨hfound, fun h => ?_⟩
  obtain ⟨path, stop, list, place, hindex, hleads, _, _, hdeclared⟩ := table.leadsTo_of_found selector hacyclic h
  have hkind : table.isMethod symbol = false := (hfound.mp h).2
  have hfields := hleads.eq_fields_iff hdeclared
  refine ⟨path, stop, list, place, hindex, hleads, hfields, fun hmarked => hfields.mpr fun hmethod => ?_⟩
  simp [hmarked symbol hmethod] at hkind

/-- A name for a pointer to a type that has a method and a field, and embeds an interface. -/
def readerPointer (methodKind : SymbolKind) : SymbolTable where
  symbols := [⟨"Read", methodKind, some "io", none⟩, ⟨"Reader", .field, some "p", some ⟨1⟩⟩,
    ⟨"Size", .field, some "p", none⟩, ⟨"Close", .method true, some "p", none⟩]
  types := [.interface [⟨0⟩], .named ⟨9⟩ (some ⟨0⟩) [], .struct [⟨⟨1⟩, true⟩, ⟨⟨2⟩, false⟩],
    .named ⟨9⟩ (some ⟨2⟩) [⟨3⟩], .pointer ⟨3⟩, .named ⟨9⟩ (some ⟨4⟩) []]

theorem unnamedAcyclic_readerPointer (methodKind : SymbolKind) : (readerPointer methodKind).UnnamedAcyclic :=
  unnamedAcyclic_of_addedInOrder rfl

theorem namedPointer_finds_field_readerPointer :
    (readerPointer (.method false)).LeadsTo ⟨"p", "Size"⟩ ((readerPointer (.method false)).receiver ⟨5⟩) []
      ⟨⟨3⟩, 1⟩ .fields 1 ⟨2⟩ := by
  have hpointer : (readerPointer (.method false)).namedPointer? ⟨5⟩ = some ⟨4⟩ := by decide
  have hfound : (readerPointer (.method false)).lookupMember ⟨5⟩ false ⟨"p", "Size"⟩ = .found ⟨2⟩ [1] true := by
    decide
  obtain ⟨path, stop, list, place, hindex, hleads, _, hfields⟩ :=
    (namedPointer_finds_field_unless_unmarked _ (unnamedAcyclic_readerPointer (.method false)) hpointer
      false ⟨"p", "Size"⟩ ⟨2⟩ [1] true).2 hfound
  obtain ⟨rfl, rfl⟩ : path = [] ∧ place = 1 := List.append_singleton_inj.mp hindex.symm
  obtain rfl : Stop.mk ⟨3⟩ 1 = stop := Option.some.inj hleads.replay
  obtain rfl := hfields (by decide)
  exact hleads

/-- Not everything that a name for a pointer type finds is a field: a method that an embedded interface
    lists is found if its symbol has another kind. -/
theorem namedPointer_finds_interface_method :
    ¬ ∀ (table : SymbolTable) (type : TypeId) (addressable : Bool) (selector : Selector) (symbol : SymbolId)
      (index : List Nat) (indirect : Bool), table.UnnamedAcyclic → (table.namedPointer? type).isSome = true →
      table.lookupMember type addressable selector = .found symbol index indirect →
      ∃ path stop place, index = path ++ [place] ∧
        table.LeadsTo selector (table.receiver type) path stop .fields place symbol := by
  intro hall
  obtain ⟨path, stop, place, hindex, hleads⟩ := hall (readerPointer .func) ⟨5⟩ false ⟨"p", "Read"⟩ ⟨0⟩ [0, 0] true
    (unnamedAcyclic_readerPointer .func) (by decide) (by decide)
  obtain ⟨rfl, _⟩ : path = [0] ∧ place = 0 := List.append_singleton_inj.mp hindex.symm
  obtain rfl : Stop.mk ⟨1⟩ 1 = stop := Option.some.inj hleads.replay
  have hmember : ([] : List SymbolId)[place]? = some ⟨0⟩ := hleads.member
  simp at hmember

end ProgramIndex.SymbolTable
