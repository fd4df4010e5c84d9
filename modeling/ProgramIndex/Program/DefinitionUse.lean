import ProgramIndex.Program.Traversal

/- Definitions and their uses. Over the packages that a full traversal visits, in the order in which
   it leaves them, the uses of each symbol and the symbols of each defining occurrence are
   collected; a definition's uses are those of its symbols. -/
namespace ProgramIndex

/-- For each symbol the occurrences that use it. -/
def usesBySymbol (packages : List Package) : OrderedMap SymbolId (List Occurrence) :=
  (packages.flatMap (·.uses.entries)).foldl (fun uses u => uses.push u.2 u.1) .empty

/-- The occurrences that define a symbol of their own, with that symbol. -/
def symbolDefinitions (packages : List Package) : List (Occurrence × SymbolId) :=
  (packages.flatMap (·.definitions.entries)).filterMap fun d => d.2.map fun symbol => (d.1, symbol)

/-- For each defining occurrence the symbols that it defines, one for each package that says so. -/
def symbolsByDefinition (packages : List Package) : OrderedMap Occurrence (List SymbolId) :=
  (symbolDefinitions packages).foldl (fun definitions d => definitions.push d.1 d.2) .empty

/-- For each defining occurrence that is used the occurrences that use it. -/
def definitionUsesOf (packages : List Package) : OrderedMap Occurrence (List Occurrence) :=
  let uses := usesBySymbol packages
  (symbolsByDefinition packages).filterMap fun _ symbols =>
    match symbols.flatMap fun symbol => (uses.get? symbol).getD [] with
    | [] => none
    | occurrences => some occurrences

/-- The uses of every definition that a full traversal comes to. -/
def Program.definitionUses (program : Program) : OrderedMap Occurrence (List Occurrence) :=
  definitionUsesOf program.postOrder

end ProgramIndex
