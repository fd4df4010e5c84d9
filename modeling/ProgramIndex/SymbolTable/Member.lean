import ProgramIndex.SymbolTable

/- Members of a type, found directly or through embedded fields. The search goes level by level:
   the candidates of a level are the types that are embedded at one depth, and the first level
   that has a member decides. Two members at that depth, or one in a type that is embedded
   there twice, are ambiguous. A named type is searched at most once, at its least depth, so
   recursion through named types ends; `levelBound` bounds the levels of every table in which
   no struct embeds itself through unnamed structs alone. -/
namespace ProgramIndex

/-- A member's name as it is written in a package. -/
structure Selector where
  package : String
  name : String
deriving DecidableEq

/-- The answer of a member search. A path gives, for each embedded field on the way, its place
    among the fields of its struct, and last the place of the member in its own list. -/
inductive Selection where
  /-- The member, its path, and whether a pointer was followed on the way. -/
  | found (symbol : SymbolId) (path : List Nat) (indirect : Bool)
  /-- Several members at the least depth; the path is that of the first one in conflict. -/
  | ambiguous (path : List Nat)
  /-- A method that needs a pointer to a value that has no address. -/
  | notAddressable
  | notFound
deriving DecidableEq

/-- The one symbol that was found. -/
def Selection.symbol? : Selection → Option SymbolId
  | .found symbol _ _ => some symbol
  | _ => none

namespace SymbolTable

/-! The members and the embedded types of one type. -/

def answersTo (table : SymbolTable) (selector : Selector) (id : SymbolId) : Bool :=
  (table.symbol? id).any (·.answersTo selector.package selector.name)

/-- The first method with the selector's name, and its place. -/
def firstMethod (table : SymbolTable) (selector : Selector) (methods : List SymbolId) :
    List (SymbolId × Nat) :=
  (methods.zipIdx.find? fun m => table.answersTo selector m.1).toList

/-- Every field with the selector's name, and its place. -/
def namedFields (table : SymbolTable) (selector : Selector) (fields : List Field) :
    List (SymbolId × Nat) :=
  (fields.zipIdx.filter fun f => table.answersTo selector f.1.symbol).map fun f => (f.1.symbol, f.2)

/-- The methods that are declared on a named type. -/
def declaredMethods (table : SymbolTable) (type : TypeId) : List SymbolId :=
  match table.type? type with
  | some (.named _ _ methods) => methods
  | _ => []

/-- The members of a type itself: a method declared on it, or else those of what stands behind it. -/
def ownMembers (table : SymbolTable) (selector : Selector) (type : TypeId) : List (SymbolId × Nat) :=
  match table.firstMethod selector (table.declaredMethods type) with
  | [] =>
    match table.underlyingForm? type with
    | some (.struct fields) => table.namedFields selector fields
    | some (.interface methods) => table.firstMethod selector methods
    | _ => []
  | declared => declared

/-- The type behind one pointer, and whether there was a pointer. -/
def deref (table : SymbolTable) (type : TypeId) : TypeId × Bool :=
  match table.type? type with
  | some (.pointer element) => (element, true)
  | _ => (type, false)

/-- A type embedded in a struct: its place among the fields, and whether it is behind a pointer. -/
structure Embedding where
  place : Nat
  type : TypeId
  indirect : Bool
deriving DecidableEq

def embeddings (table : SymbolTable) (type : TypeId) : List Embedding :=
  match table.underlyingForm? type with
  | some (.struct fields) =>
    fields.zipIdx.filterMap fun f =>
      if f.1.embedded then
        ((table.symbol? f.1.symbol).bind (·.type)).map fun fieldType =>
          let target := table.deref fieldType
          ⟨f.2, target.1, target.2⟩
      else
        none
  | _ => []

/-! The levels of the search. -/

/-- A type to be searched at the current depth. It is repeated if more than one path leads to it. -/
structure Candidate where
  type : TypeId
  path : List Nat
  indirect : Bool
  repeated : Bool
deriving DecidableEq

/-- A member at the current depth. -/
structure Hit where
  symbol : SymbolId
  path : List Nat
  indirect : Bool
  repeated : Bool
deriving DecidableEq

def hits (table : SymbolTable) (selector : Selector) (c : Candidate) : List Hit :=
  (table.ownMembers selector c.type).map fun m => ⟨m.1, c.path ++ [m.2], c.indirect, c.repeated⟩

def deeper (table : SymbolTable) (c : Candidate) : List Candidate :=
  (table.embeddings c.type).map fun e => ⟨e.type, c.path ++ [e.place], c.indirect || e.indirect, c.repeated⟩

/-- One candidate for each type, the first, which is repeated if there was another. -/
def merge : List Candidate → List Candidate
  | [] => []
  | c :: rest =>
    { c with repeated := c.repeated || rest.any (·.type == c.type) } ::
      (merge rest).filter (·.type != c.type)

def isNamed (table : SymbolTable) (type : TypeId) : Bool := (table.type? type).any TypeForm.isNamed

def hasPointerReceiver (table : SymbolTable) (id : SymbolId) : Bool :=
  (table.symbol? id).any (·.kind.hasPointerReceiver)

def isMethod (table : SymbolTable) (id : SymbolId) : Bool := (table.symbol? id).any (·.kind.isMethod)

/-- What the hits of a level decide: one hit is the answer unless it is repeated, and of several
    the first that is repeated or not the first is in conflict. -/
def verdict (table : SymbolTable) (addressable : Bool) (hit : Hit) (others : List Hit) : Selection :=
  if hit.repeated then
    .ambiguous hit.path
  else
    match others with
    | other :: _ => .ambiguous other.path
    | [] =>
      if table.hasPointerReceiver hit.symbol && !hit.indirect && !addressable then .notAddressable
      else .found hit.symbol hit.path hit.indirect

/-- Searches level by level, leaving out the named types that were searched before; absent if
    `fuel` levels do not decide. -/
def searchLevels? (table : SymbolTable) (selector : Selector) (addressable : Bool) :
    Nat → List TypeId → List Candidate → Option Selection
  | _, _, [] => some .notFound
  | 0, _, _ :: _ => none
  | fuel + 1, seen, level =>
    -- a type that was searched before has no member, and what it embeds is met at a lesser depth
    let fresh := level.filter fun c => !seen.contains c.type
    match fresh.flatMap (table.hits selector) with
    | hit :: others => some (table.verdict addressable hit others)
    | [] =>
      searchLevels? table selector addressable fuel
        ((fresh.map (·.type)).filter table.isNamed ++ seen) (merge (fresh.flatMap table.deeper))

/-- Named types are searched once each, and between two of them a path runs through unnamed
    structs only. -/
def levelBound (table : SymbolTable) : Nat :=
  (table.types.countP TypeForm.isNamed + 1) * (table.types.countP TypeForm.isStruct + 1)

/-! Looking a member up. -/

/-- Searches a type, or what a pointer points to; a pointer to an interface has no members. -/
def searchMember (table : SymbolTable) (type : TypeId) (addressable : Bool) (selector : Selector) :
    Selection :=
  let start := table.deref type
  if start.2 && (table.underlyingForm? start.1).any TypeForm.isInterface then
    .notFound
  else
    (table.searchLevels? selector addressable table.levelBound [] [⟨start.1, [], start.2, false⟩]).getD
      .notFound

/-- The pointer type that stands behind a named type's name. -/
def namedPointer? (table : SymbolTable) (type : TypeId) : Option TypeId :=
  if table.isNamed type then
    (table.underlying? type).filter fun under => (table.type? under).any TypeForm.isPointer
  else
    none

/-- The field or method that a selector names on a value of a type; a value with an address also
    has the methods of its pointer. A name for a pointer type has the fields of the pointer, and no
    methods. -/
def lookupMember (table : SymbolTable) (type : TypeId) (addressable : Bool) (selector : Selector) :
    Selection :=
  match table.namedPointer? type with
  | none => table.searchMember type addressable selector
  | some pointer =>
    match table.searchMember pointer false selector with
    | .found symbol path indirect =>
      if table.isMethod symbol then .notFound else .found symbol path indirect
    | other => other

end SymbolTable

end ProgramIndex
