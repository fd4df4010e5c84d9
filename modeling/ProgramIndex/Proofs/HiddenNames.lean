import Mathlib.Data.List.Forall2
import ProgramIndex.Proofs.SearchLevels

/- Names that a package cannot see. A name that is not exported means a symbol only within the package
   that declares the symbol. A search reads little of a table: the types, the type of each symbol, and the
   kinds of the symbols that answer to the name (`Symbol.seenBy`). Tables in which it reads the same have
   the same members (`lookupMember_withSymbols`). So the hidden symbols of other packages may have any
   names and kinds, and an exported name has the same members from everywhere
   (`lookupMember_ignores_hidden`). -/
namespace ProgramIndex

/-- What a search for a selector reads of a symbol: its type, and its kind if it answers to the name. -/
def Symbol.seenBy (selector : Selector) (symbol : Symbol) : Option TypeId × Option SymbolKind :=
  (symbol.type, if symbol.answersTo selector.package selector.name then some symbol.kind else none)

/-- A symbol of another package whose name is not exported. -/
def Symbol.HiddenFrom (package : String) (symbol : Symbol) : Prop :=
  symbol.package ≠ some package ∧ isExported symbol.name = false

/-- Two symbols that are the same, or are hidden from a package and differ at most in name and kind. -/
def Symbol.AlikeFrom (package : String) (first second : Symbol) : Prop :=
  first = second ∨ first.HiddenFrom package ∧ second.HiddenFrom package ∧
    first.package = second.package ∧ first.type = second.type

namespace SymbolTable

/-- Two tables that differ at most in the names and kinds of symbols that are hidden from a package. -/
structure AlikeFrom (package : String) (first second : SymbolTable) : Prop where
  types : first.types = second.types
  symbols : List.Forall₂ (Symbol.AlikeFrom package) first.symbols second.symbols

/-- A table with other symbols and the same types. -/
def withSymbols (table : SymbolTable) (symbols : List Symbol) : SymbolTable := { table with symbols }

variable {table : SymbolTable} {symbols : List Symbol} {selector other : Selector}

/-! What is read of a symbol. -/

theorem bind_type_eq (table : SymbolTable) (selector : Selector) (id : SymbolId) :
    (table.symbol? id).bind (·.type) = ((table.symbol? id).map (Symbol.seenBy selector)).bind Prod.fst := by
  cases table.symbol? id <;> rfl

theorem answersTo_eq_any (table : SymbolTable) (selector : Selector) (id : SymbolId) :
    table.answersTo selector id = ((table.symbol? id).map (Symbol.seenBy selector)).any (·.2.isSome) := by
  unfold answersTo
  cases table.symbol? id with
  | none => rfl
  | some symbol =>
    cases h : symbol.answersTo selector.package selector.name <;> simp [Symbol.seenBy, h]

theorem any_kind_eq {id : SymbolId} (h : table.answersTo selector id = true) (p : SymbolKind → Bool) :
    (table.symbol? id).any (fun symbol => p symbol.kind) =
      ((table.symbol? id).map (Symbol.seenBy selector)).any fun seen => seen.2.any p := by
  obtain ⟨symbol, hsymbol, hanswers⟩ := (Option.any_eq_true _ _).mp h
  simp [hsymbol, Symbol.seenBy, hanswers]

theorem answersTo_of_searchMember {type : TypeId} {addressable : Bool} {symbol : SymbolId} {path : List Nat}
    {indirect : Bool} (h : table.searchMember type addressable selector = .found symbol path indirect) :
    table.answersTo selector symbol = true := by
  rcases table.searchMember_cases selector type addressable with hnone | ⟨hit, others, hverdict, hanswers, _⟩
  · simp [hnone] at h
  · rw [← (eq_of_verdict_found (hverdict.symm.trans h)).1]
    exact hanswers

/-! Two tables in which the same is read. -/

section Alike
variable (hseen : table.symbols.map (Symbol.seenBy selector) = symbols.map (Symbol.seenBy other))
include hseen

theorem map_seenBy_symbol? (id : SymbolId) :
    (table.symbol? id).map (Symbol.seenBy selector) =
      ((table.withSymbols symbols).symbol? id).map (Symbol.seenBy other) := by
  simp only [symbol?, withSymbols, ← List.getElem?_map, hseen]

theorem answersTo_withSymbols : (table.withSymbols symbols).answersTo other = table.answersTo selector := by
  funext id
  rw [answersTo_eq_any, answersTo_eq_any, map_seenBy_symbol? hseen]

theorem ownMembers_withSymbols : (table.withSymbols symbols).ownMembers other = table.ownMembers selector := by
  funext type
  unfold ownMembers firstMethod namedFields
  rw [answersTo_withSymbols hseen]
  rfl

theorem embeddings_withSymbols : (table.withSymbols symbols).embeddings = table.embeddings := by
  have hderef : (table.withSymbols symbols).deref = table.deref := rfl
  funext type
  unfold embeddings
  simp only [table.bind_type_eq selector, (table.withSymbols symbols).bind_type_eq other,
    map_seenBy_symbol? hseen, hderef]
  rfl

theorem hits_withSymbols : (table.withSymbols symbols).hits other = table.hits selector := by
  funext c
  rw [hits, ownMembers_withSymbols hseen]
  rfl

theorem deeper_withSymbols : (table.withSymbols symbols).deeper = table.deeper := by
  funext c
  rw [deeper, embeddings_withSymbols hseen]
  rfl

theorem any_kind_withSymbols {id : SymbolId} (h : table.answersTo selector id = true) (p : SymbolKind → Bool) :
    ((table.withSymbols symbols).symbol? id).any (fun symbol => p symbol.kind) =
      (table.symbol? id).any fun symbol => p symbol.kind := by
  have hother : (table.withSymbols symbols).answersTo other id = true := by
    rw [answersTo_withSymbols hseen]
    exact h
  rw [any_kind_eq h, any_kind_eq hother, map_seenBy_symbol? hseen]

theorem verdict_withSymbols (addressable : Bool) {hit : Hit} (others : List Hit)
    (h : table.answersTo selector hit.symbol = true) :
    (table.withSymbols symbols).verdict addressable hit others = table.verdict addressable hit others := by
  have hreceiver : (table.withSymbols symbols).hasPointerReceiver hit.symbol =
      table.hasPointerReceiver hit.symbol := any_kind_withSymbols hseen h SymbolKind.hasPointerReceiver
  unfold verdict
  rw [hreceiver]

theorem lockstep_withSymbols (addressable : Bool) :
    Lockstep table (table.withSymbols symbols) selector other addressable addressable Eq id where
  notFound := rfl
  nil := fun h => by rw [h]
  decided := by
    intro seen level beside hit others hbeside hhits
    subst hbeside
    obtain ⟨_, _, _, hanswers⟩ := exists_candidate_of_hits hhits
    refine ⟨hit, others, ?_, verdict_withSymbols hseen addressable others hanswers⟩
    rw [hits_withSymbols hseen, hhits]
  descends := by
    intro seen level beside hbeside hmiss
    subst hbeside
    refine ⟨?_, rfl, ?_⟩
    · rw [hits_withSymbols hseen, hmiss]
    · rw [nextLevel, nextLevel, deeper_withSymbols hseen]

theorem searchMember_withSymbols (type : TypeId) (addressable : Bool) :
    (table.withSymbols symbols).searchMember type addressable other =
      table.searchMember type addressable selector := by
  unfold searchMember
  dsimp only
  rw [(lockstep_withSymbols hseen addressable).searchLevels?_eq _ _ rfl, Option.map_id_apply]
  rfl

/-- A look-up gives the same in two tables in which it reads the same. -/
theorem lookupMember_withSymbols (type : TypeId) (addressable : Bool) :
    (table.withSymbols symbols).lookupMember type addressable other =
      table.lookupMember type addressable selector := by
  have hpointer : (table.withSymbols symbols).namedPointer? type = table.namedPointer? type := rfl
  unfold lookupMember
  rw [hpointer]
  split
  · exact searchMember_withSymbols hseen type addressable
  · next pointer _ =>
    rw [searchMember_withSymbols hseen]
    split
    · next symbol path indirect hsearch =>
      have hmethod : (table.withSymbols symbols).isMethod symbol = table.isMethod symbol :=
        any_kind_withSymbols hseen (answersTo_of_searchMember hsearch) SymbolKind.isMethod
      rw [hmethod]
    · rfl

end Alike

end SymbolTable

/-! Hidden symbols. -/

/-- A symbol that is hidden from a package answers to no name that is written there: an exported name is
    not its own, and any other means a symbol of that package. -/
theorem Symbol.HiddenFrom.answersTo_eq_false {package : String} {symbol : Symbol}
    (h : symbol.HiddenFrom package) (name : String) : symbol.answersTo package name = false := by
  obtain ⟨hpackage, hexported⟩ := h
  by_cases hname : symbol.name = name
  · rw [hname] at hexported
    simp [answersTo, hexported, hpackage]
  · simp [answersTo, hname]

theorem Symbol.AlikeFrom.seenBy_eq {package : String} {first second : Symbol}
    (h : first.AlikeFrom package second) (name : String) :
    first.seenBy ⟨package, name⟩ = second.seenBy ⟨package, name⟩ := by
  rcases h with rfl | ⟨hfirst, hsecond, _, htype⟩
  · rfl
  · simp [seenBy, hfirst.answersTo_eq_false, hsecond.answersTo_eq_false, htype]

theorem Symbol.seenBy_of_isExported {name : String} (h : isExported name = true) (package other : String) :
    Symbol.seenBy ⟨package, name⟩ = Symbol.seenBy ⟨other, name⟩ := by
  funext symbol
  simp [seenBy, answersTo, h]

namespace SymbolTable

theorem AlikeFrom.map_seenBy_eq {package : String} {first second : SymbolTable}
    (h : first.AlikeFrom package second) (name : String) :
    first.symbols.map (Symbol.seenBy ⟨package, name⟩) = second.symbols.map (Symbol.seenBy ⟨package, name⟩) := by
  rw [← List.forall₂_eq_eq_eq, List.forall₂_map_left_iff, List.forall₂_map_right_iff]
  exact h.symbols.imp fun _ _ halike => halike.seenBy_eq name

/-- What is looked up from a package does not depend on the names and kinds of symbols that are hidden
    from it, and what is looked up by an exported name does not depend on the package. -/
theorem lookupMember_ignores_hidden :
    (∀ (package : String) (first second : SymbolTable), first.AlikeFrom package second →
      ∀ (type : TypeId) (addressable : Bool) (name : String),
        first.lookupMember type addressable ⟨package, name⟩ =
          second.lookupMember type addressable ⟨package, name⟩) ∧
    ∀ (table : SymbolTable) (name : String), isExported name = true →
      ∀ (type : TypeId) (addressable : Bool) (package other : String),
        table.lookupMember type addressable ⟨package, name⟩ =
          table.lookupMember type addressable ⟨other, name⟩ := by
  refine ⟨fun package first second h type addressable name => ?_,
    fun table name hexported type addressable package other => ?_⟩
  · have hsecond : second = first.withSymbols second.symbols := by
      rw [withSymbols, h.types]
    rw [hsecond]
    exact (lookupMember_withSymbols (h.map_seenBy_eq name) type addressable).symm
  · have hseen : table.symbols.map (Symbol.seenBy ⟨other, name⟩) =
        table.symbols.map (Symbol.seenBy ⟨package, name⟩) := by
      rw [Symbol.seenBy_of_isExported hexported other package]
    exact lookupMember_withSymbols hseen type addressable

/-- A struct that embeds another one under the name of a symbol of package `q`. The embedded struct has
    a field `x` and a field `X`, both of package `p`. -/
def embeddedBy (name : String) (kind : SymbolKind) : SymbolTable where
  symbols := [⟨name, kind, some "q", some ⟨0⟩⟩, ⟨"x", .field, some "p", none⟩, ⟨"X", .field, some "p", none⟩]
  types := [.struct [⟨⟨1⟩, false⟩, ⟨⟨2⟩, false⟩], .struct [⟨⟨0⟩, true⟩]]

/-- From `p` the embedding symbol is hidden, though it is called `x` itself: it does not stand in the way
    of the deeper field `x`, as it does from its own package. -/
theorem lookupMember_ignores_hidden_embeddedBy :
    (embeddedBy "x" .field).AlikeFrom "p" (embeddedBy "y" .const) ∧
    (embeddedBy "x" .field).lookupMember ⟨1⟩ false ⟨"p", "x"⟩ = .found ⟨1⟩ [0, 0] false ∧
    (embeddedBy "x" .field).lookupMember ⟨1⟩ false ⟨"q", "x"⟩ = .found ⟨0⟩ [0] false ∧
    (embeddedBy "x" .field).lookupMember ⟨1⟩ false ⟨"q", "X"⟩ = .found ⟨2⟩ [0, 1] false := by
  have halike : (embeddedBy "x" .field).AlikeFrom "p" (embeddedBy "y" .const) := by
    refine ⟨rfl, .cons (Or.inr ⟨⟨by decide, by decide⟩, ⟨by decide, by decide⟩, rfl, rfl⟩) ?_⟩
    exact List.forall₂_same.mpr fun symbol _ => Or.inl rfl
  obtain ⟨hhidden, hexported⟩ := lookupMember_ignores_hidden
  refine ⟨halike, ?_, by decide, ?_⟩
  · rw [hhidden "p" _ _ halike ⟨1⟩ false "x"]
    decide
  · rw [hexported (embeddedBy "x" .field) "X" (by decide) ⟨1⟩ false "q" "p"]
    decide

end SymbolTable

end ProgramIndex
