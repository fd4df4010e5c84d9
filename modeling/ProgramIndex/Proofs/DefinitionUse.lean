import ProgramIndex.Program.DefinitionUse
import ProgramIndex.Proofs.OrderedMap

/- Definitions and their uses, by package. The uses of a symbol are listed by package and, within a
   package, in the order of its table; the uses of a definition are those of the symbols that packages
   record for it. `definitionUses_inverts` says that the collected map holds exactly these lists, for
   the definitions for which there are any, in the order in which the definitions were recorded. -/
namespace ProgramIndex

/-- The occurrences that use a symbol. -/
def usesOf (packages : List Package) (symbol : SymbolId) : List Occurrence :=
  packages.flatMap fun package => (package.uses.entries.filter fun u => u.2 = symbol).map Prod.fst

/-- The uses of the symbols that packages record for an occurrence. -/
def usesAt (packages : List Package) (definition : Occurrence) : List Occurrence :=
  packages.flatMap fun package =>
    match package.definitions.get? definition with
    | some (some symbol) => usesOf packages symbol
    | _ => []

/-- The occurrences that packages record with a symbol, in order. -/
def recordedDefinitions (packages : List Package) : List Occurrence :=
  packages.flatMap fun package => (package.definitions.entries.filter fun d => d.2.isSome).map Prod.fst

/-! The two collections. -/

theorem getD_usesBySymbol (packages : List Package) (symbol : SymbolId) :
    ((usesBySymbol packages).get? symbol).getD [] = usesOf packages symbol := by
  have hswap : usesBySymbol packages =
      ((packages.flatMap (·.uses.entries)).map Prod.swap).foldl (fun uses u => uses.push u.1 u.2) .empty := by
    rw [List.foldl_map]
    rfl
  rw [hswap, OrderedMap.getD_foldl_push]
  simp only [usesOf, List.filter_map, List.map_map, List.filter_flatMap, List.map_flatMap,
    OrderedMap.get?_empty, Option.getD_none, List.nil_append]
  rfl

theorem symbols_of_entries (definitions : OrderedMap Occurrence (Option SymbolId)) (definition : Occurrence) :
    (((definitions.entries.filterMap fun d => d.2.map fun symbol => (d.1, symbol)).filter
      fun d => d.1 = definition).map Prod.snd) = ((definitions.get? definition).bind id).toList := by
  -- to leave out unresolved entries and to look for one key may be swapped
  have hcomm : (definitions.entries.filterMap fun d => d.2.map fun symbol => (d.1, symbol)).filter
      (fun d => d.1 = definition) =
        (definitions.entries.filter fun d => d.1 = definition).filterMap
          fun d => d.2.map fun symbol => (d.1, symbol) := by
    rw [List.filter_filterMap, List.filterMap_filter]
    congr 1
    funext d
    cases hsymbol : d.2 with
    | none => simp
    | some symbol => by_cases h : d.1 = definition <;> simp [h, Option.filter]
  rw [hcomm, OrderedMap.filter_entries_eq]
  cases definitions.get? definition with
  | none => rfl
  | some recorded => cases recorded <;> rfl

theorem getD_symbolsByDefinition (packages : List Package) (definition : Occurrence) :
    ((symbolsByDefinition packages).get? definition).getD [] =
      packages.flatMap fun package => ((package.definitions.get? definition).bind id).toList := by
  rw [symbolsByDefinition, OrderedMap.getD_foldl_push, symbolDefinitions]
  simp only [OrderedMap.get?_empty, Option.getD_none, List.nil_append, List.filterMap_flatMap,
    List.filter_flatMap, List.map_flatMap, symbols_of_entries]

theorem keys_symbolsByDefinition (packages : List Package) :
    (symbolsByDefinition packages).keys = (recordedDefinitions packages).eraseDups := by
  have hkeys := OrderedMap.keys_foldl_update (fun d : Occurrence × SymbolId => d.1)
    (fun d old => old.getD [] ++ [d.2]) (symbolDefinitions packages) .empty
  have hrecorded : (symbolDefinitions packages).map Prod.fst = recordedDefinitions packages := by
    simp only [symbolDefinitions, recordedDefinitions, List.filterMap_flatMap, List.map_flatMap]
    congr 1
    funext package
    induction package.definitions.entries with
    | nil => rfl
    | cons d rest ih =>
      cases hsymbol : d.2 with
      | none => simpa [hsymbol] using ih
      | some symbol => simpa [hsymbol] using ih
  rw [← hrecorded]
  exact hkeys

/-! The collected map. -/

/-- The uses of a definition's symbols are the definition's uses. -/
theorem flatMap_usesBySymbol (packages : List Package) (definition : Occurrence) :
    (((symbolsByDefinition packages).get? definition).getD []).flatMap
      (fun symbol => ((usesBySymbol packages).get? symbol).getD []) = usesAt packages definition := by
  simp only [getD_symbolsByDefinition, getD_usesBySymbol, List.flatMap_assoc, usesAt]
  congr 1
  funext package
  cases package.definitions.get? definition with
  | none => rfl
  | some recorded => cases recorded <;> simp

theorem get?_definitionUsesOf (packages : List Package) (definition : Occurrence) :
    (definitionUsesOf packages).get? definition =
      if usesAt packages definition = [] then none else some (usesAt packages definition) := by
  rw [definitionUsesOf, OrderedMap.get?_filterMap, ← flatMap_usesBySymbol]
  cases (symbolsByDefinition packages).get? definition with
  | none => rfl
  | some symbols =>
    simp only [Option.bind_some, Option.getD_some]
    split
    · next h => rw [if_pos h]
    · next h => rw [if_neg h]

theorem keys_definitionUsesOf (packages : List Package) :
    (definitionUsesOf packages).keys =
      (recordedDefinitions packages).eraseDups.filter fun definition => usesAt packages definition ≠ [] := by
  rw [definitionUsesOf, OrderedMap.keys_filterMap, keys_symbolsByDefinition]
  apply List.filter_congr
  intro definition _
  have hget := get?_definitionUsesOf packages definition
  rw [definitionUsesOf, OrderedMap.get?_filterMap] at hget
  rw [hget]
  split
  · next h => simp [h]
  · next h => simp [h]

theorem mem_usesOf (packages : List Package) (symbol : SymbolId) (use : Occurrence) :
    use ∈ usesOf packages symbol ↔ ∃ package ∈ packages, package.uses.get? use = some symbol := by
  simp only [usesOf, List.mem_flatMap, List.mem_map, List.mem_filter, decide_eq_true_eq,
    OrderedMap.get?_eq_some_iff]
  refine exists_congr fun package => and_congr_right fun _ => ⟨fun h => ?_, fun h => ⟨_, ⟨h, rfl⟩, rfl⟩⟩
  obtain ⟨⟨occurrence, recorded⟩, ⟨hentry, rfl⟩, rfl⟩ := h
  exact hentry

theorem mem_usesAt (packages : List Package) (definition use : Occurrence) :
    use ∈ usesAt packages definition ↔
      ∃ package ∈ packages, ∃ symbol, package.definitions.get? definition = some (some symbol) ∧
        use ∈ usesOf packages symbol := by
  rw [usesAt, List.mem_flatMap]
  refine exists_congr fun package => and_congr_right fun _ => ?_
  cases package.definitions.get? definition with
  | none => simp
  | some recorded => cases recorded <;> simp

/-- A use is listed under a definition. -/
def Program.ListsUse (program : Program) (definition use : Occurrence) : Prop :=
  ∃ uses, program.definitionUses.get? definition = some uses ∧ use ∈ uses

theorem Program.get?_definitionUses (program : Program) {definition : Occurrence} {uses : List Occurrence}
    (h : program.definitionUses.get? definition = some uses) : uses = usesAt program.postOrder definition := by
  have hget : program.definitionUses.get? definition = _ := get?_definitionUsesOf program.postOrder definition
  rw [hget] at h
  split at h
  · cases h
  · exact (Option.some.inj h).symm

theorem Program.listsUse_iff (program : Program) (definition use : Occurrence) :
    program.ListsUse definition use ↔ use ∈ usesAt program.postOrder definition := by
  refine ⟨fun h => ?_, fun h => ⟨_, ?_, h⟩⟩
  · obtain ⟨uses, huses, hmem⟩ := h
    rw [← program.get?_definitionUses huses]
    exact hmem
  · have hget : program.definitionUses.get? definition = _ := get?_definitionUsesOf program.postOrder definition
    rw [hget, if_neg (List.ne_nil_of_mem h)]

/-- The uses of every definition that a full traversal comes to are exactly the uses of its symbols,
    over the packages in the order in which they are left. A definition without uses is not a key. The
    keys stand in the order in which the definitions are first recorded with a symbol. -/
theorem definitionUses_inverts (program : Program) :
    (∀ definition, program.definitionUses.get? definition =
      if usesAt program.postOrder definition = [] then none else some (usesAt program.postOrder definition)) ∧
    (∀ definition, definition ∈ program.definitionUses.keys ↔ usesAt program.postOrder definition ≠ []) ∧
    program.definitionUses.keys =
      (recordedDefinitions program.postOrder).eraseDups.filter
        fun definition => usesAt program.postOrder definition ≠ [] := by
  have hget := get?_definitionUsesOf program.postOrder
  refine ⟨hget, fun definition => ?_, keys_definitionUsesOf program.postOrder⟩
  have hnone : program.definitionUses.get? definition = none ↔ usesAt program.postOrder definition = [] := by
    rw [show program.definitionUses.get? definition = _ from hget definition]
    split
    · next h => exact ⟨fun _ => h, fun _ => rfl⟩
    · next h => exact ⟨fun hsome => by simp at hsome, fun hnil => absurd hnil h⟩
  rw [Ne, ← hnone, OrderedMap.get?_eq_none_iff, Decidable.not_not]

/-! A program in which a symbol is used in the package that defines it and in one that imports this. -/

/-- Its only identifier uses a symbol of the package that it imports. -/
def userPackage : Package where
  id := ⟨0⟩
  key := "a"
  path := "a"
  name := "a"
  files := [⟨⟨0⟩, "a", ⟨0, [], [⟨none, PathLiteral.quote "b", 0⟩], [⟨"F", 20⟩]⟩⟩]
  imports := .ofList [("b", ⟨1⟩)]
  uses := .ofList [(⟨⟨0⟩, 0⟩, ⟨0⟩)]

/-- The first identifier defines a symbol and the third one uses it; the second one has no symbol. -/
def definerPackage : Package where
  id := ⟨1⟩
  key := "b"
  path := "b"
  name := "b"
  files := [⟨⟨1⟩, "b", ⟨0, [], [], [⟨"F", 10⟩, ⟨"b", 8⟩, ⟨"F", 30⟩]⟩⟩]
  definitions := .ofList [(⟨⟨1⟩, 0⟩, some ⟨0⟩), (⟨⟨1⟩, 1⟩, none)]
  uses := .ofList [(⟨⟨1⟩, 2⟩, ⟨0⟩)]

def crossFindings : Findings where
  packages := [userPackage, definerPackage]
  roots := [⟨0⟩]
  symbols := { symbols := [⟨"F", .func, some "b", none⟩] }

def crossProgram : Program := .ofFindings { dependencies := true } "/" crossFindings

theorem load_crossFindings :
    (load {} "/" { dependencies := true } fun _ => .ok crossFindings).outcome = .ok crossProgram := rfl

example : crossProgram.definitionUses.entries = [(⟨⟨1⟩, 0⟩, [⟨⟨1⟩, 2⟩, ⟨⟨0⟩, 0⟩])] := by cbv

end ProgramIndex
