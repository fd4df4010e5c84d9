import ProgramIndex.Id
import ProgramIndex.OrderedMap

/- Scopes: the names declared at the top level of a package, or in the universe, in the order of
   their declaration. The first declaration of a name stands. -/
namespace ProgramIndex

structure Scope where
  bindings : OrderedMap String SymbolId := .empty

namespace Scope

/-- The symbol that a name is bound to. -/
def find? (scope : Scope) (name : String) : Option SymbolId := scope.bindings.get? name

/-- Binds a name that is not bound yet. Answers the binding that already stood, if there was one. -/
def insert (scope : Scope) (name : String) (symbol : SymbolId) : Scope × Option SymbolId :=
  (⟨scope.bindings.insertIfNew name symbol⟩, scope.find? name)

def ofList (bindings : List (String × SymbolId)) : Scope :=
  bindings.foldl (fun scope b => (scope.insert b.1 b.2).1) {}

/-- The bindings in order of declaration. -/
def toList (scope : Scope) : List (String × SymbolId) := scope.bindings.entries

def size (scope : Scope) : Nat := scope.bindings.size

/-- After an insertion the name is bound to what it was bound to before, or else to the new symbol. -/
theorem find?_insert_self (scope : Scope) (name : String) (symbol : SymbolId) :
    (scope.insert name symbol).1.find? name = some ((scope.find? name).getD symbol) := by
  simp [find?, insert, OrderedMap.insertIfNew]

/-- An insertion leaves the other names alone. -/
theorem find?_insert_ne (scope : Scope) {name other : String} (h : other ≠ name) (symbol : SymbolId) :
    (scope.insert name symbol).1.find? other = scope.find? other :=
  OrderedMap.get?_update_ne h _ _

end Scope

end ProgramIndex
