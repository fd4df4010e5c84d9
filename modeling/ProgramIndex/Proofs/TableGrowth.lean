import Mathlib.Data.List.Find
import ProgramIndex.Proofs.HiddenNames

/- Tables that grow. Symbols and types that are added later stand behind those that were there
   (`extends_addAll`), so a table in which every number is that of a symbol or type of its own (`Closed`)
   reads the same where it has grown. A search from a type of the table never leaves the table: what it has come
   to at each level was there before (`Extends.lockstep`). So it goes through the same levels and ends with
   the same answer, whatever was added, cycles of unnamed structs included
   (`lookupMember_ignores_additions`). -/
namespace ProgramIndex

/-- A symbol or a type that is added to a table. -/
inductive Addition where
  | symbol (symbol : Symbol)
  | type (form : TypeForm)

namespace TypeForm

/-- The symbols that a type names. -/
def symbols : TypeForm → List SymbolId
  | .basic _ => []
  | .named symbol _ methods => symbol :: methods
  | .pointer _ => []
  | .struct fields => fields.map Field.symbol
  | .interface methods => methods

/-- The types that a type names. -/
def types : TypeForm → List TypeId
  | .basic _ => []
  | .named _ underlying _ => underlying.toList
  | .pointer element => [element]
  | .struct _ => []
  | .interface _ => []

end TypeForm

namespace SymbolTable

def add (table : SymbolTable) : Addition → SymbolTable
  | .symbol symbol => (table.addSymbol symbol).1
  | .type form => (table.addType form).1

def addAll (table : SymbolTable) (additions : List Addition) : SymbolTable := additions.foldl add table

/-- A symbol number that is in use. -/
def HasSymbol (table : SymbolTable) (id : SymbolId) : Prop := id.index < table.symbols.length

/-- A type number that is in use. -/
def HasType (table : SymbolTable) (id : TypeId) : Prop := id.index < table.types.length

instance (table : SymbolTable) (id : SymbolId) : Decidable (table.HasSymbol id) :=
  inferInstanceAs (Decidable (_ < _))

instance (table : SymbolTable) (id : TypeId) : Decidable (table.HasType id) :=
  inferInstanceAs (Decidable (_ < _))

/-- A table in which all numbers are in use. -/
structure Closed (table : SymbolTable) : Prop where
  formSymbols : ∀ form ∈ table.types, ∀ id ∈ form.symbols, table.HasSymbol id
  formTypes : ∀ form ∈ table.types, ∀ id ∈ form.types, table.HasType id
  symbolTypes : ∀ symbol ∈ table.symbols, ∀ id ∈ symbol.type, table.HasType id

/-- One table has the symbols and types of another and maybe more behind them. -/
structure Extends (table grown : SymbolTable) : Prop where
  symbols : table.symbols <+: grown.symbols
  types : table.types <+: grown.types

variable {table grown : SymbolTable} {selector : Selector}

theorem Extends.add (h : table.Extends grown) (addition : Addition) : table.Extends (grown.add addition) := by
  cases addition with
  | symbol symbol => exact ⟨h.symbols.trans (List.prefix_append _ _), h.types⟩
  | type form => exact ⟨h.symbols, h.types.trans (List.prefix_append _ _)⟩

theorem Extends.addAll (h : table.Extends grown) (additions : List Addition) :
    table.Extends (grown.addAll additions) := by
  induction additions generalizing grown with
  | nil => exact h
  | cons addition rest ih => exact ih (h.add addition)

theorem extends_addAll (table : SymbolTable) (additions : List Addition) :
    table.Extends (table.addAll additions) :=
  Extends.addAll ⟨List.prefix_rfl, List.prefix_rfl⟩ additions

/-! Numbers in use lead to numbers in use. -/

theorem hasSymbol_of_answersTo {id : SymbolId} (h : table.answersTo selector id = true) : table.HasSymbol id := by
  obtain ⟨symbol, hsymbol, _⟩ := (Option.any_eq_true _ _).mp h
  exact (List.getElem?_eq_some_iff.mp hsymbol).1

theorem mem_types_of_underlyingForm? {type : TypeId} {form : TypeForm}
    (h : table.underlyingForm? type = some form) : form ∈ table.types := by
  obtain ⟨under, _, hform⟩ := Option.bind_eq_some_iff.mp h
  exact List.mem_of_getElem? hform

theorem hasType_unsearched (seen : List TypeId) {level : List Candidate}
    (hlevel : ∀ c ∈ level, table.HasType c.type) : ∀ c ∈ unsearched seen level, table.HasType c.type :=
  fun c hc => hlevel c (List.mem_filter.mp hc).1

namespace Closed
variable (hclosed : table.Closed)
include hclosed

theorem hasType_underlying? {type under : TypeId} (htype : table.HasType type)
    (h : table.underlying? type = some under) : table.HasType under := by
  unfold underlying? at h
  split at h
  · next symbol underlying methods hform =>
    exact hclosed.formTypes _ (List.mem_of_getElem? hform) under (by simp [TypeForm.types, h])
  · exact Option.some.inj h ▸ htype
  · cases h

theorem hasType_deref {type : TypeId} (htype : table.HasType type) : table.HasType (table.deref type).1 := by
  unfold deref
  split
  · next element hform => exact hclosed.formTypes _ (List.mem_of_getElem? hform) element (by simp [TypeForm.types])
  · exact htype

theorem hasSymbol_declaredMethods {type : TypeId} : ∀ id ∈ table.declaredMethods type, table.HasSymbol id := by
  intro id hid
  unfold declaredMethods at hid
  split at hid
  · next symbol underlying methods hform =>
    exact hclosed.formSymbols _ (List.mem_of_getElem? hform) id (List.mem_cons_of_mem symbol hid)
  · simp at hid

theorem hasType_symbolType {id : SymbolId} {type : TypeId} (h : (table.symbol? id).bind (·.type) = some type) :
    table.HasType type := by
  obtain ⟨symbol, hsymbol, htype⟩ := Option.bind_eq_some_iff.mp h
  exact hclosed.symbolTypes symbol (List.mem_of_getElem? hsymbol) type htype

theorem hasType_embedding {type : TypeId} {e : Embedding} (h : e ∈ table.embeddings type) :
    table.HasType e.type := by
  unfold embeddings at h
  split at h
  · next fields hform =>
    obtain ⟨f, _, hf⟩ := List.mem_filterMap.mp h
    obtain ⟨_, hf⟩ := Option.ite_none_right_eq_some.mp hf
    obtain ⟨fieldType, hfieldType, rfl⟩ := Option.map_eq_some_iff.mp hf
    exact hclosed.hasType_deref (hclosed.hasType_symbolType hfieldType)
  · simp at h

theorem hasType_nextLevel (seen : List TypeId) (level : List Candidate) :
    ∀ c ∈ table.nextLevel seen level, table.HasType c.type := by
  intro c hc
  obtain ⟨d, hd, htype⟩ := exists_mem_of_mem_merge hc
  obtain ⟨b, _, hdeeper⟩ := List.mem_flatMap.mp hd
  obtain ⟨e, he, rfl⟩ := List.mem_map.mp hdeeper
  rw [← htype]
  exact hclosed.hasType_embedding he

end Closed

/-! What is read of a grown table. -/

namespace Extends
variable (h : table.Extends grown)
include h

theorem symbol?_eq {id : SymbolId} (hid : table.HasSymbol id) : grown.symbol? id = table.symbol? id := by
  obtain ⟨more, hmore⟩ := h.symbols
  rw [symbol?, ← hmore]
  exact List.getElem?_append_left hid

theorem type?_eq {type : TypeId} (htype : table.HasType type) : grown.type? type = table.type? type := by
  obtain ⟨more, hmore⟩ := h.types
  rw [type?, ← hmore]
  exact List.getElem?_append_left htype

theorem underlying?_eq {type : TypeId} (htype : table.HasType type) :
    grown.underlying? type = table.underlying? type := by
  unfold underlying?
  rw [h.type?_eq htype]

theorem deref_eq {type : TypeId} (htype : table.HasType type) : grown.deref type = table.deref type := by
  unfold deref
  rw [h.type?_eq htype]

theorem isNamed_eq {type : TypeId} (htype : table.HasType type) : grown.isNamed type = table.isNamed type := by
  rw [isNamed, h.type?_eq htype, isNamed]

theorem declaredMethods_eq {type : TypeId} (htype : table.HasType type) :
    grown.declaredMethods type = table.declaredMethods type := by
  unfold declaredMethods
  rw [h.type?_eq htype]

theorem answersTo_eq {id : SymbolId} (hid : table.HasSymbol id) :
    grown.answersTo selector id = table.answersTo selector id := by
  rw [answersTo, h.symbol?_eq hid, answersTo]

theorem firstMethod_eq {methods : List SymbolId} (hmethods : ∀ id ∈ methods, table.HasSymbol id) :
    grown.firstMethod selector methods = table.firstMethod selector methods := by
  unfold firstMethod
  rw [List.find?_congr]
  intro m hm
  exact h.answersTo_eq (hmethods m.1 (List.fst_mem_of_mem_zipIdx hm))

theorem namedFields_eq {fields : List Field} (hfields : ∀ field ∈ fields, table.HasSymbol field.symbol) :
    grown.namedFields selector fields = table.namedFields selector fields := by
  unfold namedFields
  rw [List.filter_congr]
  intro f hf
  exact h.answersTo_eq (hfields f.1 (List.fst_mem_of_mem_zipIdx hf))

theorem seenAfter_eq (seen : List TypeId) {level : List Candidate} (hlevel : ∀ c ∈ level, table.HasType c.type) :
    grown.seenAfter seen level = table.seenAfter seen level := by
  unfold seenAfter
  rw [List.filter_congr]
  intro type htype
  obtain ⟨c, hc, rfl⟩ := List.mem_map.mp htype
  exact h.isNamed_eq (hlevel c (List.mem_filter.mp hc).1)

theorem verdict_eq (addressable : Bool) {hit : Hit} (others : List Hit) (hhit : table.HasSymbol hit.symbol) :
    grown.verdict addressable hit others = table.verdict addressable hit others := by
  unfold verdict hasPointerReceiver
  rw [h.symbol?_eq hhit]

theorem startCandidate_eq {type : TypeId} (htype : table.HasType type) :
    grown.startCandidate type = table.startCandidate type := by
  rw [startCandidate, h.deref_eq htype, startCandidate]

theorem levelBound_le : table.levelBound ≤ grown.levelBound := by
  have hnamed : table.types.countP TypeForm.isNamed ≤ grown.types.countP TypeForm.isNamed :=
    h.types.sublist.countP_le
  have hstruct : table.types.countP TypeForm.isStruct ≤ grown.types.countP TypeForm.isStruct :=
    h.types.sublist.countP_le
  exact Nat.mul_le_mul (by omega) (by omega)

variable (hclosed : table.Closed)
include hclosed

theorem underlyingForm?_eq {type : TypeId} (htype : table.HasType type) :
    grown.underlyingForm? type = table.underlyingForm? type := by
  unfold underlyingForm?
  rw [h.underlying?_eq htype]
  cases hunder : table.underlying? type with
  | none => rfl
  | some under => exact h.type?_eq (hclosed.hasType_underlying? htype hunder)

theorem namedPointer?_eq {type : TypeId} (htype : table.HasType type) :
    grown.namedPointer? type = table.namedPointer? type := by
  unfold namedPointer?
  rw [h.isNamed_eq htype, h.underlying?_eq htype]
  cases hunder : table.underlying? type with
  | none => rfl
  | some under =>
    simp only [Option.filter, h.type?_eq (hclosed.hasType_underlying? htype hunder)]

theorem ownMembers_eq {type : TypeId} (htype : table.HasType type) :
    grown.ownMembers selector type = table.ownMembers selector type := by
  unfold ownMembers
  rw [h.declaredMethods_eq htype, h.firstMethod_eq hclosed.hasSymbol_declaredMethods,
    h.underlyingForm?_eq hclosed htype]
  split
  · cases hform : table.underlyingForm? type with
    | none => rfl
    | some form =>
      have hsymbols := hclosed.formSymbols form (mem_types_of_underlyingForm? hform)
      cases form with
      | struct fields => exact h.namedFields_eq fun field hfield => hsymbols _ (List.mem_map_of_mem hfield)
      | interface methods => exact h.firstMethod_eq hsymbols
      | _ => rfl
  · rfl

theorem embeddings_eq {type : TypeId} (htype : table.HasType type) :
    grown.embeddings type = table.embeddings type := by
  unfold embeddings
  rw [h.underlyingForm?_eq hclosed htype]
  split
  · next fields hform =>
    have hsymbols := hclosed.formSymbols _ (mem_types_of_underlyingForm? hform)
    apply List.filterMap_congr
    intro f hf
    have hfield : table.HasSymbol f.1.symbol :=
      hsymbols _ (List.mem_map_of_mem (List.fst_mem_of_mem_zipIdx hf))
    rw [h.symbol?_eq hfield]
    cases hfieldType : (table.symbol? f.1.symbol).bind (·.type) with
    | none => rfl
    | some fieldType =>
      simp only [Option.map_some, h.deref_eq (hclosed.hasType_symbolType hfieldType)]
  · rfl

/-! Searching a grown table. -/

theorem flatMap_hits_eq {level : List Candidate} (hlevel : ∀ c ∈ level, table.HasType c.type) :
    level.flatMap (grown.hits selector) = level.flatMap (table.hits selector) := by
  apply List.flatMap_congr
  intro c hc
  rw [hits, h.ownMembers_eq hclosed (hlevel c hc), hits]

theorem flatMap_deeper_eq {level : List Candidate} (hlevel : ∀ c ∈ level, table.HasType c.type) :
    level.flatMap grown.deeper = level.flatMap table.deeper := by
  apply List.flatMap_congr
  intro c hc
  rw [deeper, h.embeddings_eq hclosed (hlevel c hc), deeper]

/-- The two searches go through the same levels, none of which leaves the table. -/
theorem lockstep (selector : Selector) (addressable : Bool) :
    Lockstep table grown selector selector addressable addressable
      (fun level beside => beside = level ∧ ∀ c ∈ level, table.HasType c.type) id where
  notFound := rfl
  nil := fun hrelated => by rw [hrelated.1]
  decided := by
    rintro seen level beside hit others ⟨rfl, hlevel⟩ hhits
    have hfresh := hasType_unsearched seen hlevel
    -- The verdict reads the kind of the hit, which is a symbol of the table since it answers to the selector.
    obtain ⟨_, _, _, hanswers⟩ := exists_candidate_of_hits hhits
    refine ⟨hit, others, ?_, h.verdict_eq addressable others (hasSymbol_of_answersTo hanswers)⟩
    rw [h.flatMap_hits_eq hclosed hfresh, hhits]
  descends := by
    rintro seen level beside ⟨rfl, hlevel⟩ hmiss
    have hfresh := hasType_unsearched seen hlevel
    refine ⟨?_, h.seenAfter_eq seen hlevel, ?_, hclosed.hasType_nextLevel seen beside⟩
    · rw [h.flatMap_hits_eq hclosed hfresh, hmiss]
    · rw [nextLevel, h.flatMap_deeper_eq hclosed hfresh, nextLevel]

theorem exists_searchEnds (hacyclic : table.UnnamedAcyclic) {type : TypeId} (htype : table.HasType type)
    (addressable : Bool) (selector : Selector) :
    ∃ levels ≤ table.levelBound, ∃ answer,
      table.SearchEnds selector addressable [] [table.startCandidate type] levels answer ∧
      grown.SearchEnds selector addressable [] [table.startCandidate type] levels answer := by
  obtain ⟨levels, hle, answer, hends⟩ :=
    SymbolTable.exists_searchEnds hacyclic selector addressable (table.startCandidate type)
  refine ⟨levels, hle, answer, hends, (h.lockstep hclosed selector addressable).searchEnds hends ⟨rfl, ?_⟩⟩
  intro c hc
  rw [List.mem_singleton.mp hc]
  exact hclosed.hasType_deref htype

theorem searchMember_eq (hacyclic : table.UnnamedAcyclic) {type : TypeId} (htype : table.HasType type)
    (addressable : Bool) (selector : Selector) :
    grown.searchMember type addressable selector = table.searchMember type addressable selector := by
  obtain ⟨levels, hle, answer, hends, hgrown⟩ := h.exists_searchEnds hclosed hacyclic htype addressable selector
  have hbefore := hends.searchLevels?_eq hle
  -- The grown table may be searched for more levels, but the search has ended before.
  have hafter := hgrown.searchLevels?_eq (Nat.le_trans hle h.levelBound_le)
  unfold searchMember
  rw [h.deref_eq htype]
  dsimp only
  rw [h.underlyingForm?_eq hclosed (hclosed.hasType_deref htype)]
  split
  · rfl
  · rw [startCandidate] at hbefore hafter
    rw [hbefore, hafter]

theorem lookupMember_eq (hacyclic : table.UnnamedAcyclic) {type : TypeId} (htype : table.HasType type)
    (addressable : Bool) (selector : Selector) :
    grown.lookupMember type addressable selector = table.lookupMember type addressable selector := by
  unfold lookupMember
  rw [h.namedPointer?_eq hclosed htype]
  split
  · exact h.searchMember_eq hclosed hacyclic htype addressable selector
  · next pointer hpointer =>
    have hunder : table.HasType pointer := by
      unfold namedPointer? at hpointer
      split at hpointer
      · exact hclosed.hasType_underlying? htype (Option.filter_eq_some_iff.mp hpointer).1
      · cases hpointer
    rw [h.searchMember_eq hclosed hacyclic hunder]
    split
    · next symbol path indirect hsearch =>
      have hsymbol := hasSymbol_of_answersTo (answersTo_of_searchMember hsearch)
      rw [isMethod, h.symbol?_eq hsymbol, isMethod]
    · rfl

end Extends

/-- Whatever is added to a table whose numbers are all in use, the types that were there keep their members: a
    look-up gives the same answer, and its search ends after as many levels. -/
theorem lookupMember_ignores_additions (table : SymbolTable) (hclosed : table.Closed)
    (hacyclic : table.UnnamedAcyclic) (additions : List Addition) (type : TypeId) (htype : table.HasType type)
    (addressable : Bool) (selector : Selector) :
    (table.addAll additions).lookupMember type addressable selector =
      table.lookupMember type addressable selector ∧
    ∃ levels answer,
      table.SearchEnds selector addressable [] [table.startCandidate type] levels answer ∧
      (table.addAll additions).SearchEnds selector addressable []
        [(table.addAll additions).startCandidate type] levels answer := by
  have hextends := table.extends_addAll additions
  refine ⟨hextends.lookupMember_eq hclosed hacyclic htype addressable selector, ?_⟩
  obtain ⟨levels, _, answer, hends, hgrown⟩ :=
    hextends.exists_searchEnds hclosed hacyclic htype addressable selector
  rw [hextends.startCandidate_eq htype]
  exact ⟨levels, answer, hends, hgrown⟩

/-- A field `X`, and an unnamed struct that embeds itself by it, for a table with five symbols and seven
    types. -/
def loopAdditions : List Addition :=
  [.symbol ⟨"X", .field, some "p", some ⟨7⟩⟩, .type (.struct [⟨⟨5⟩, true⟩])]

/-- The conflict between two fields `X` stays as it was, though the grown table has another one and a cycle. -/
theorem lookupMember_ignores_additions_diamond :
    diamond.Closed ∧ diamond.UnnamedAcyclic ∧ diamond.HasType ⟨4⟩ ∧
    ¬ (diamond.addAll loopAdditions).UnnamedAcyclic ∧
    (diamond.addAll loopAdditions).lookupMember ⟨4⟩ false ⟨"p", "X"⟩ = .ambiguous [0, 0, 0] := by
  have hclosed : diamond.Closed := ⟨by decide, by decide, by decide⟩
  have hacyclic : diamond.UnnamedAcyclic := unnamedAcyclic_of_addedInOrder (by decide)
  have htype : diamond.HasType ⟨4⟩ := by decide
  refine ⟨hclosed, hacyclic, htype, fun hgrown => ?_, ?_⟩
  · exact hgrown ⟨7⟩ (.single ⟨by decide, by decide, ⟨0, ⟨7⟩, false⟩, by decide, rfl⟩)
  · rw [(lookupMember_ignores_additions diamond hclosed hacyclic loopAdditions ⟨4⟩ htype false ⟨"p", "X"⟩).1]
    decide

end SymbolTable

end ProgramIndex
