import ProgramIndex.Id
import ProgramIndex.Text.Uppercase

/- Symbols: the entities that a program declares. A name is exported if it starts with an upper
   case letter. An exported name is known by its spelling everywhere, any other only within the
   package that declares it. -/
namespace ProgramIndex

inductive SymbolKind where
  | builtin
  | const
  | var
  | field
  | func
  | method (pointerReceiver : Bool)
  | typeName
  | packageName
  | label
  | nil
deriving DecidableEq

def SymbolKind.isMethod : SymbolKind → Bool
  | .method _ => true
  | _ => false

/-- Whether the symbol is a method whose receiver is a pointer. -/
def SymbolKind.hasPointerReceiver : SymbolKind → Bool
  | .method pointerReceiver => pointerReceiver
  | _ => false

def isExported (name : String) : Bool := name.toList.head?.any Text.isUppercase

/-- A declared entity; one that no package declares belongs to the universe. -/
structure Symbol where
  name : String
  kind : SymbolKind
  package : Option String
  type : Option TypeId := none
deriving DecidableEq

/-- Whether `name`, written in a package, means this symbol. -/
def Symbol.answersTo (symbol : Symbol) (package name : String) : Bool :=
  symbol.name == name && (isExported name || symbol.package == some package)

end ProgramIndex
