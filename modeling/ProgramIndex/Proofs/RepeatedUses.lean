import ProgramIndex.Proofs.DefinitionUse
import ProgramIndex.Proofs.Traversal

/- How often a use is listed under a definition. Two packages join a definition and a use if one records
   the definition with a symbol and the other the use of that symbol (`Joins`). Every such pair of
   visited packages lists the use once more (`count_usesAt`). So no list has a use twice exactly if no
   definition and use are joined by two pairs (`uses_come_as_often_as_joined`), and a package and its
   test variant, which share their files, join them by four (`uses_repeated_after_load`). -/
namespace ProgramIndex

/-- The first package records the definition with a symbol, and the second one the use of that symbol. -/
def Joins (definition use : Occurrence) (pair : Package × Package) : Prop :=
  ∃ symbol ∈ (pair.1.definitions.get? definition).join, pair.2.uses.get? use = some symbol

instance (definition use : Occurrence) (pair : Package × Package) : Decidable (Joins definition use pair) :=
  inferInstanceAs (Decidable (∃ symbol ∈ _, _ = some symbol))

/-! Counting. -/

theorem countP_le_one_iff {α : Type} {l : List α} (hl : l.Nodup) (p : α → Bool) :
    l.countP p ≤ 1 ↔ ∀ a ∈ l, p a = true → ∀ b ∈ l, p b = true → a = b := by
  let found : Finset α := ⟨l.filter p, Multiset.coe_nodup.mpr (hl.filter p)⟩
  have hcard : l.countP p = found.card := List.countP_eq_length_filter
  have hmem : ∀ a, a ∈ found ↔ a ∈ l ∧ p a = true := fun a => List.mem_filter
  rw [hcard, Finset.card_le_one]
  simp only [hmem, and_imp]

theorem count_usesOf_singleton (package : Package) (symbol : SymbolId) (use : Occurrence) :
    (usesOf [package] symbol).count use = if package.uses.get? use = some symbol then 1 else 0 := by
  have hnodup : (usesOf [package] symbol).Nodup := by
    rw [usesOf, List.flatMap_singleton]
    exact package.uses.distinct.sublist (List.filter_sublist.map Prod.fst)
  have hmem := mem_usesOf [package] symbol use
  simp only [List.mem_singleton, exists_eq_left] at hmem
  split
  · next h => exact List.count_eq_one_of_mem hnodup (hmem.mpr h)
  · next h => exact List.count_eq_zero.mpr fun huse => h (hmem.mp huse)

theorem count_usesOf (packages : List Package) (symbol : SymbolId) (use : Occurrence) :
    (usesOf packages symbol).count use = packages.countP fun package => package.uses.get? use = some symbol := by
  induction packages with
  | nil => rfl
  | cons package rest ih =>
    have hsplit : usesOf (package :: rest) symbol = usesOf [package] symbol ++ usesOf rest symbol := by
      simp [usesOf]
    rw [hsplit, List.count_append, count_usesOf_singleton, ih, List.countP_cons, Nat.add_comm]
    simp only [decide_eq_true_eq]

/-- A use is listed under a definition once for every pair of packages that joins the two. -/
theorem count_usesAt (packages : List Package) (definition use : Occurrence) :
    (usesAt packages definition).count use =
      (packages.product packages).countP fun pair => Joins definition use pair := by
  rw [usesAt, List.product, List.count_flatMap, List.countP_flatMap]
  congr 2
  funext definer
  -- one definer is joined with the packages that use the symbol it records, if it records one
  simp only [Function.comp_apply, List.countP_map, Function.comp_def]
  cases hrecorded : definer.definitions.get? definition with
  | none => simp [Joins, hrecorded]
  | some recorded =>
    cases recorded with
    | none => simp [Joins, hrecorded]
    | some symbol => simp [Joins, hrecorded, count_usesOf]

namespace Program
variable {program : Program}

theorem forall_nodup_uses_iff (hprogram : program.Consistent) :
    (∀ definition uses, program.definitionUses.get? definition = some uses → uses.Nodup) ↔
      ∀ definition use, ∀ first ∈ program.postOrder.product program.postOrder, Joins definition use first →
        ∀ second ∈ program.postOrder.product program.postOrder, Joins definition use second → first = second := by
  have hpairs : (program.postOrder.product program.postOrder).Nodup :=
    (nodup_postOrder hprogram).product (nodup_postOrder hprogram)
  have hlist : ∀ definition, (∀ uses, program.definitionUses.get? definition = some uses → uses.Nodup) ↔
      (usesAt program.postOrder definition).Nodup := by
    intro definition
    have hget : program.definitionUses.get? definition = _ := get?_definitionUsesOf program.postOrder definition
    rw [hget]
    split
    · next h => simp [h]
    · next h => simp
  refine forall_congr' fun definition => (hlist definition).trans ?_
  simp only [List.nodup_iff_count, count_usesAt, countP_le_one_iff hpairs, decide_eq_true_eq]

/-- Each use is listed under a definition as often as there are pairs of visited packages of which one
    records the definition with a symbol and the other the use of that symbol. So no list has a use
    twice exactly if there are never two such pairs. -/
theorem uses_come_as_often_as_joined {host : Host} {directory : String} {options : LoadOptions} {frontEnd : FrontEnd}
    {program : Program} (h : (load host directory options frontEnd).outcome = .ok program) :
    (∀ definition uses, program.definitionUses.get? definition = some uses → ∀ use,
      uses.count use = (program.postOrder.product program.postOrder).countP fun pair => Joins definition use pair) ∧
    ((∀ definition uses, program.definitionUses.get? definition = some uses → uses.Nodup) ↔
      ∀ definition use, ∀ first ∈ program.postOrder.product program.postOrder, Joins definition use first →
        ∀ second ∈ program.postOrder.product program.postOrder, Joins definition use second → first = second) := by
  refine ⟨fun definition uses huses use => ?_, forall_nodup_uses_iff (consistent_of_load h)⟩
  rw [program.get?_definitionUses huses]
  exact count_usesAt program.postOrder definition use

/-! A package and its test variant, which share a file. -/

/-- The first identifier of its file defines a symbol and the second one uses it. -/
def selfUser (key : String) : Package where
  key := key
  path := "p"
  name := "p"
  files := [⟨⟨0⟩, "p", ⟨0, [], [], [⟨"F", 10⟩, ⟨"F", 20⟩]⟩⟩]
  definitions := .ofList [(⟨⟨0⟩, 0⟩, some ⟨0⟩)]
  uses := .ofList [(⟨⟨0⟩, 1⟩, ⟨0⟩)]

def testedFindings : Findings where
  packages := [selfUser "p", selfUser "p [p.test]"]
  roots := [⟨0⟩, ⟨1⟩]
  symbols := { symbols := [⟨"F", .func, some "p", none⟩] }

def testedProgram : Program := ofFindings { tests := true } "/" testedFindings

theorem load_testedFindings :
    (load {} "/" { tests := true } fun _ => .ok testedFindings).outcome = .ok testedProgram := rfl

theorem get?_definitionUses_testedProgram :
    testedProgram.definitionUses.get? ⟨⟨0⟩, 0⟩ = some (List.replicate 4 ⟨⟨0⟩, 1⟩) := by cbv

/-- Each of the two packages is joined with itself and with the other one, so the one use is listed four
    times. -/
theorem uses_come_as_often_as_joined_testedProgram :
    ((testedProgram.postOrder.product testedProgram.postOrder).countP fun pair =>
      Joins ⟨⟨0⟩, 0⟩ ⟨⟨0⟩, 1⟩ pair) = 4 := by
  have hcount := (uses_come_as_often_as_joined load_testedFindings).1 _ _ get?_definitionUses_testedProgram ⟨⟨0⟩, 1⟩
  rw [← hcount, List.count_replicate_self]

/-- Not every load that succeeds makes a program in which no use is listed twice under a definition. -/
theorem uses_repeated_after_load :
    ¬ ∀ (host : Host) (directory : String) (options : LoadOptions) (frontEnd : FrontEnd) (program : Program),
      (load host directory options frontEnd).outcome = .ok program →
        ∀ definition uses, program.definitionUses.get? definition = some uses → uses.Nodup := by
  intro hall
  have hnodup := hall _ _ _ _ _ load_testedFindings _ _ get?_definitionUses_testedProgram
  exact absurd hnodup (by decide)

end Program

end ProgramIndex
