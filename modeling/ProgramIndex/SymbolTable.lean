import ProgramIndex.Symbol

/- Symbol tables: the symbols and types of a program, numbered in order of addition. Types may
   refer to symbols and types that are not there (yet), so that recursive types can be built:
   a named type is declared first and completed afterwards. A step that names an unknown symbol
   or type, or a type that is not named, changes nothing. -/
namespace ProgramIndex

/-- A struct field: its symbol, which has the field's type, and whether the field is embedded. -/
structure Field where
  symbol : SymbolId
  embedded : Bool
deriving DecidableEq

/-- What a type is. An interface lists all of its methods, a named type those declared on it. -/
inductive TypeForm where
  | basic (name : String)
  | named (symbol : SymbolId) (underlying : Option TypeId) (methods : List SymbolId)
  | pointer (element : TypeId)
  | struct (fields : List Field)
  | interface (methods : List SymbolId)
deriving DecidableEq

namespace TypeForm

def isNamed : TypeForm → Bool
  | .named .. => true
  | _ => false

def isPointer : TypeForm → Bool
  | .pointer _ => true
  | _ => false

def isStruct : TypeForm → Bool
  | .struct _ => true
  | _ => false

def isInterface : TypeForm → Bool
  | .interface _ => true
  | _ => false

/-- A named type with another underlying type; any other type as it is. -/
def withUnderlying (type : TypeId) : TypeForm → TypeForm
  | .named symbol _ methods => .named symbol (some type) methods
  | form => form

/-- A named type with one more method; any other type as it is. -/
def withMethod (method : SymbolId) : TypeForm → TypeForm
  | .named symbol underlying methods => .named symbol underlying (methods ++ [method])
  | form => form

end TypeForm

structure SymbolTable where
  symbols : List Symbol := []
  types : List TypeForm := []
deriving DecidableEq

namespace SymbolTable

/-! Reading. -/

def symbol? (table : SymbolTable) (id : SymbolId) : Option Symbol := table.symbols[id.index]?

def type? (table : SymbolTable) (id : TypeId) : Option TypeForm := table.types[id.index]?

/-- What stands behind a type's name: a named type's underlying type, any other type itself. -/
def underlying? (table : SymbolTable) (id : TypeId) : Option TypeId :=
  match table.type? id with
  | some (.named _ underlying _) => underlying
  | some _ => some id
  | none => none

def underlyingForm? (table : SymbolTable) (id : TypeId) : Option TypeForm :=
  (table.underlying? id).bind table.type?

/-- The number of symbols. -/
def size (table : SymbolTable) : Nat := table.symbols.length

/-! Building. -/

def addSymbol (table : SymbolTable) (symbol : Symbol) : SymbolTable × SymbolId :=
  ({ table with symbols := table.symbols ++ [symbol] }, ⟨table.symbols.length⟩)

def addType (table : SymbolTable) (form : TypeForm) : SymbolTable × TypeId :=
  ({ table with types := table.types ++ [form] }, ⟨table.types.length⟩)

def assignType (table : SymbolTable) (id : SymbolId) (type : TypeId) : SymbolTable :=
  { table with symbols := table.symbols.modify id.index fun s => { s with type := some type } }

/-- Adds a named type for a symbol, with nothing behind it and no methods yet, and makes it the
    symbol's type. -/
def declareType (table : SymbolTable) (symbol : SymbolId) : SymbolTable × TypeId :=
  let (table, type) := table.addType (.named symbol none [])
  (table.assignType symbol type, type)

def setUnderlying (table : SymbolTable) (named type : TypeId) : SymbolTable :=
  { table with types := table.types.modify named.index (.withUnderlying type) }

def addMethod (table : SymbolTable) (named : TypeId) (method : SymbolId) : SymbolTable :=
  { table with types := table.types.modify named.index (.withMethod method) }

/-! What a building step does to the symbols and types. -/

theorem symbol?_addSymbol_self (table : SymbolTable) (symbol : Symbol) :
    (table.addSymbol symbol).1.symbol? (table.addSymbol symbol).2 = some symbol :=
  List.getElem?_concat_length

theorem symbol?_addSymbol_of_lt (table : SymbolTable) (symbol : Symbol) (id : SymbolId)
    (h : id.index < table.symbols.length) : (table.addSymbol symbol).1.symbol? id = table.symbol? id :=
  List.getElem?_append_left h

theorem type?_addType_self (table : SymbolTable) (form : TypeForm) :
    (table.addType form).1.type? (table.addType form).2 = some form :=
  List.getElem?_concat_length

theorem type?_addType_of_lt (table : SymbolTable) (form : TypeForm) (id : TypeId)
    (h : id.index < table.types.length) : (table.addType form).1.type? id = table.type? id :=
  List.getElem?_append_left h

theorem symbol?_assignType (table : SymbolTable) (id other : SymbolId) (type : TypeId) :
    (table.assignType id type).symbol? other =
      (table.symbol? other).map fun s => if id = other then { s with type := some type } else s := by
  obtain ⟨i⟩ := id
  obtain ⟨j⟩ := other
  simp only [symbol?, assignType, List.getElem?_modify, SymbolId.mk.injEq]
  split <;> rfl

theorem type?_setUnderlying (table : SymbolTable) (named type other : TypeId) :
    (table.setUnderlying named type).type? other =
      (table.type? other).map fun form => if named = other then form.withUnderlying type else form := by
  obtain ⟨i⟩ := named
  obtain ⟨j⟩ := other
  simp only [type?, setUnderlying, List.getElem?_modify, TypeId.mk.injEq]
  split <;> rfl

theorem type?_addMethod (table : SymbolTable) (named other : TypeId) (method : SymbolId) :
    (table.addMethod named method).type? other =
      (table.type? other).map fun form => if named = other then form.withMethod method else form := by
  obtain ⟨i⟩ := named
  obtain ⟨j⟩ := other
  simp only [type?, addMethod, List.getElem?_modify, TypeId.mk.injEq]
  split <;> rfl

end SymbolTable

end ProgramIndex
