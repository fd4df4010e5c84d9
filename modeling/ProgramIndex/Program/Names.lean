import ProgramIndex.Program
import ProgramIndex.QualifiedName
import ProgramIndex.SymbolTable.Member

/- Looking names up in a program: qualified names, names as they are used within a package, and
   members of declared types. A look-up that must succeed says what is missing. -/
namespace ProgramIndex

/-- The answer to a name that may have several meanings. -/
inductive Resolution where
  | found (symbol : SymbolId)
  | ambiguous (candidates : List SymbolId)
  | notFound
deriving DecidableEq

namespace Resolution

def ofCandidates : List SymbolId → Resolution
  | [] => .notFound
  | [symbol] => .found symbol
  | candidates => .ambiguous candidates

/-- The one symbol that was found. -/
def symbol? : Resolution → Option SymbolId
  | .found symbol => some symbol
  | _ => none

def candidates : Resolution → List SymbolId
  | .found symbol => [symbol]
  | .ambiguous candidates => candidates
  | .notFound => []

def isFound : Resolution → Bool
  | .found _ => true
  | _ => false

def isAmbiguous : Resolution → Bool
  | .ambiguous _ => true
  | _ => false

@[simp] theorem candidates_ofCandidates : ∀ symbols : List SymbolId,
    (ofCandidates symbols).candidates = symbols
  | [] => rfl
  | [_] => rfl
  | _ :: _ :: _ => rfl

end Resolution

/-- What a look-up that must succeed did not find. Types are given by their qualified names. -/
inductive LookupError where
  | objectNotFound (qualified : String)
  | typeNotFound (qualified : String)
  | packageNotFound (path : String)
  | memberNotFound (type member : String)
  | ambiguousMember (type member : String)
deriving DecidableEq

def LookupError.message : LookupError → String
  | .objectNotFound qualified => "object not found: " ++ qualified
  | .typeNotFound qualified => "type not found: " ++ qualified
  | .packageNotFound path => "package not found: " ++ path
  | .memberNotFound type member => member ++ " not found in " ++ type
  | .ambiguousMember type member => "ambiguous selector " ++ member ++ " in " ++ type

namespace Program

/-! Names. -/

/-- The symbol of a qualified name; a name without a dot is one of the universe. -/
def lookup? (program : Program) (qualified : String) : Option SymbolId :=
  match QualifiedName.split? qualified with
  | none => program.universeScope.find? qualified
  | some (path, name) => (program.packageAt? path).bind (·.scope.find? name)

/-- The declared type of a qualified name. -/
def lookupType? (program : Program) (qualified : String) : Option TypeId :=
  ((program.lookup? qualified).bind program.symbols.symbol?).bind (·.type)

def requireSymbol (program : Program) (qualified : String) : Except LookupError SymbolId :=
  match program.lookup? qualified with
  | some symbol => .ok symbol
  | none => .error (.objectNotFound qualified)

def requireType (program : Program) (qualified : String) : Except LookupError TypeId :=
  match program.lookupType? qualified with
  | some type => .ok type
  | none => .error (.typeNotFound qualified)

/-- What a name means within a package: what the package itself declares, or else what the
    packages that it imports declare. -/
def resolve (program : Program) (package : Package) (name : String) : Resolution :=
  match package.scope.find? name with
  | some symbol => .found symbol
  | none =>
    .ofCandidates ((package.imports.values.filterMap program.package?).filterMap (·.scope.find? name))

/-! Members. -/

/-- A member of a type as the type's package sees it. The type is first taken as the type of a
    value without an address, and a method that needs one is then granted it. -/
def resolveMember (program : Program) (path type member : String) : Except LookupError Selection :=
  match program.packageAt? path with
  | none => .error (.packageNotFound path)
  | some _ =>
    match program.requireType (QualifiedName.join path type) with
    | .error e => .error e
    | .ok id =>
      match program.symbols.lookupMember id false ⟨path, member⟩ with
      | .notAddressable => .ok (program.symbols.lookupMember id true ⟨path, member⟩)
      | answer => .ok answer

/-- A member of a type that a package declares; there is none without the package or the type. -/
def lookupMember (program : Program) (path type member : String) : Selection :=
  match program.resolveMember path type member with
  | .ok answer => answer
  | .error _ => .notFound

/-- The symbol of a member that must exist. -/
def requireMember (program : Program) (path type member : String) : Except LookupError SymbolId :=
  match program.resolveMember path type member with
  | .error e => .error e
  | .ok (.found symbol _ _) => .ok symbol
  | .ok (.ambiguous _) => .error (.ambiguousMember (QualifiedName.join path type) member)
  | .ok .notAddressable => .error (.memberNotFound (QualifiedName.join path type) member)
  | .ok .notFound => .error (.memberNotFound (QualifiedName.join path type) member)

end Program

end ProgramIndex
