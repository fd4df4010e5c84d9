import ProgramIndex.Id
import ProgramIndex.OrderedMap
import ProgramIndex.Text.Blank
import ProgramIndex.Text.Uppercase
import ProgramIndex.Text.Lines
import ProgramIndex.Text.Part
import ProgramIndex.Text.Quoted
import ProgramIndex.Position
import ProgramIndex.PathLiteral
import ProgramIndex.SyntaxTree
import ProgramIndex.SyntaxTree.GeneratedMarker
import ProgramIndex.Scope
import ProgramIndex.FileTable
import ProgramIndex.Symbol
import ProgramIndex.SymbolTable
import ProgramIndex.SymbolTable.Member
import ProgramIndex.Diagnostic
import ProgramIndex.Package
import ProgramIndex.Directory
import ProgramIndex.Filters
import ProgramIndex.SourceUnit
import ProgramIndex.LoadOptions
import ProgramIndex.Findings
import ProgramIndex.LogEvent
import ProgramIndex.Walk
import ProgramIndex.QualifiedName
import ProgramIndex.Program
import ProgramIndex.Program.Load
import ProgramIndex.Program.Traversal
import ProgramIndex.Program.Names
import ProgramIndex.Program.DefinitionUse
import ProgramIndex.Proofs.EmbeddingDepth
import ProgramIndex.Proofs.EmbeddingRoute
import ProgramIndex.Proofs.MemberSearch
import ProgramIndex.Proofs.OrderedMap
import ProgramIndex.Proofs.DefinitionUse
import ProgramIndex.Proofs.Walk
import ProgramIndex.Proofs.Loaded
import ProgramIndex.Proofs.Gathering
import ProgramIndex.Proofs.Traversal
import ProgramIndex.Proofs.RootUnits
import ProgramIndex.Proofs.IndexCoverage
import ProgramIndex.Proofs.Ownership
import ProgramIndex.Proofs.LoadOutcome
import ProgramIndex.Proofs.RepeatedUses
import ProgramIndex.Proofs.FileOwners
import ProgramIndex.Proofs.Reordering
import ProgramIndex.Proofs.MemberPath
import ProgramIndex.Proofs.NamedPointer
import ProgramIndex.Proofs.SearchLevels
import ProgramIndex.Proofs.Addressability
import ProgramIndex.Proofs.HiddenNames
import ProgramIndex.Proofs.LiteralGrammar
import ProgramIndex.Proofs.PointerMembers
import ProgramIndex.Proofs.MarkerScan
import ProgramIndex.Proofs.LinePositions
import ProgramIndex.Proofs.GeneratedUnits
import ProgramIndex.Proofs.AddedFilters
import ProgramIndex.Proofs.VisitSpans
import ProgramIndex.Proofs.ImportOrder
import ProgramIndex.Proofs.NameLookup
import ProgramIndex.Proofs.ReceiverPackage
import ProgramIndex.Proofs.TableGrowth
import ProgramIndex.Proofs.FileNumbering
import ProgramIndex.Proofs.ShuffledImports
import ProgramIndex.Proofs.TableHistory
import ProgramIndex.Proofs.DiagnosticLog
import ProgramIndex.Proofs.FilterQuestions
import ProgramIndex.Proofs.UnescapedPaths
import ProgramIndex.Proofs.ScopeHistory
