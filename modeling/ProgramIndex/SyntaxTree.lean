import ProgramIndex.PathLiteral

/- Syntax trees, as far as an index reads them: where the package clause stands, the comments, the
   imports and the identifiers of one source file. Places are offsets in bytes. -/
namespace ProgramIndex

/-- A comment with its text as written, delimiters included. -/
structure Comment where
  offset : Nat
  text : String
deriving DecidableEq

/-- An import: a local name if one is given, and the path literal as written. -/
structure Import where
  localName : Option String
  literal : String
  offset : Nat
deriving DecidableEq

/-- The path that an import's literal denotes. -/
def Import.path? (i : Import) : Option String := PathLiteral.path? i.literal

/-- An identifier token. -/
structure Ident where
  name : String
  offset : Nat
deriving DecidableEq

/-- The comments come in groups of adjacent ones; an occurrence's place counts in `idents`. -/
structure SyntaxTree where
  packageOffset : Nat
  comments : List (List Comment) := []
  imports : List Import := []
  idents : List Ident := []
deriving DecidableEq

namespace SyntaxTree

def addComments (tree : SyntaxTree) (group : List Comment) : SyntaxTree :=
  { tree with comments := tree.comments ++ [group] }

/-- One more import, whose literal is the path between double quotes and unescaped; it is said
    to stand where the package clause does. -/
def addImport (tree : SyntaxTree) (path : String) : SyntaxTree :=
  { tree with imports := tree.imports ++ [⟨none, PathLiteral.quote path, tree.packageOffset⟩] }

/-- One more identifier, and its place. -/
def addIdent (tree : SyntaxTree) (name : String) (offset : Nat) : SyntaxTree × Nat :=
  ({ tree with idents := tree.idents ++ [⟨name, offset⟩] }, tree.idents.length)

/-- The paths of the imports whose literals are well formed, in source order. -/
def importPaths (tree : SyntaxTree) : List String := tree.imports.filterMap Import.path?

end SyntaxTree

end ProgramIndex
