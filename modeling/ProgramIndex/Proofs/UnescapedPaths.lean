import ProgramIndex.Proofs.LiteralGrammar

/- Paths that are quoted as they are. An added import has its path between double quotes with nothing escaped, so the
   reader takes the path itself for a run of items (`path?_quote`). An item spells one character, by that
   character or by more than one, so a run of items denotes itself or a shorter text
   (`Items.plain_or_shorter`). Hence an added import has the path that it was added for exactly if there is
   nothing in the path to escape (`addImport_keeps_plain_paths`); blanks at its ends and backquotes do no harm. -/
namespace ProgramIndex

namespace PathLiteral

/-- A text in which every character stands for itself within double quotes. -/
def Plain (text : List Char) : Prop := '"' ∉ text ∧ '\\' ∉ text ∧ '\n' ∉ text

instance (text : List Char) : Decidable (Plain text) := inferInstanceAs (Decidable (_ ∧ _ ∧ _))

theorem plain_cons_iff (c : Char) (rest : List Char) :
    Plain (c :: rest) ↔ (c ≠ '"' ∧ c ≠ '\\' ∧ c ≠ '\n') ∧ Plain rest := by
  simp only [Plain, List.mem_cons, not_or, ne_comm (a := c)]
  tauto

/-! What a run of items denotes. -/

theorem Item.plain_or_longer {spelling : List Char} {c : Char} (h : Item spelling c) :
    (spelling = [c] ∧ c ≠ '"' ∧ c ≠ '\\' ∧ c ≠ '\n') ∨ 1 < spelling.length := by
  cases h with
  | plain hquote hescape hline => exact Or.inl ⟨rfl, hquote, hescape, hline⟩
  | simple _ => exact Or.inr (by simp)
  | numeric _ _ _ => exact Or.inr (by simp)

/-- A run of items denotes itself, or a text that is shorter. -/
theorem Items.plain_or_shorter {spelling text : List Char} (h : Items spelling text) :
    (Plain spelling ∧ text = spelling) ∨ text.length < spelling.length := by
  induction h with
  | nil => exact Or.inl ⟨by decide, rfl⟩
  | @cons spelling rest c text first more ih =>
    rcases first.plain_or_longer with ⟨rfl, hc⟩ | hlong
    · rcases ih with ⟨hplain, rfl⟩ | hlt
      · exact Or.inl ⟨(plain_cons_iff c text).mpr ⟨hc, hplain⟩, rfl⟩
      · right
        simpa using hlt
    · -- an escape takes more than one character for one, and what follows it cannot make up for that
      right
      have hle : text.length ≤ rest.length := by
        rcases ih with ⟨_, rfl⟩ | hlt
        · exact Nat.le_refl _
        · exact Nat.le_of_lt hlt
      rw [List.length_cons, List.length_append]
      omega

theorem items_of_plain : ∀ {text : List Char}, Plain text → Items text text
  | [], _ => .nil
  | c :: rest, h => by
    obtain ⟨⟨hquote, hescape, hline⟩, hrest⟩ := (plain_cons_iff c rest).mp h
    exact .cons (.plain hquote hescape hline) (items_of_plain hrest)

/-! Quoted paths. -/

theorem decode?_quoted (body : List Char) : decode? ('"' :: body ++ ['"']) = items? body := by
  have htrim : Text.trim ('"' :: body ++ ['"']) = '"' :: body ++ ['"'] :=
    Text.trim_of_ends _ _ _ (by decide) (by decide)
  have hquoted : enclosed? '"' ('"' :: body ++ ['"']) = some body := (enclosed?_eq_some_iff _ _ _).mpr rfl
  rw [decode?, htrim, enclosed?_rawQuote_quoted, hquoted]
  rfl

/-- A quoted path is read item by item. -/
theorem path?_quote (path : String) : path? (quote path) = (items? path.toList).map String.ofList := by
  have hquote : (quote path).toList = '"' :: path.toList ++ ['"'] := by simp [quote]
  rw [path?, hquote, decode?_quoted]

theorem path?_quote_eq_some_iff (path other : String) :
    path? (quote path) = some other ↔ Items path.toList other.toList := by
  rw [path?_quote, Option.map_eq_some_iff, ← items?_eq_some_iff]
  simp only [← String.toList_inj, String.toList_ofList, exists_eq_right]

example : path? (quote "a\\tb") = some "a\tb" := by cbv

theorem path?_quote_eq_self_iff (path : String) : path? (quote path) = some path ↔ Plain path.toList := by
  rw [path?_quote_eq_some_iff]
  constructor
  · intro h
    rcases h.plain_or_shorter with ⟨hplain, _⟩ | hlt
    · exact hplain
    · exact absurd hlt (Nat.lt_irrefl _)
  · exact items_of_plain

theorem length_lt_of_path?_quote {path other : String} (h : path? (quote path) = some other)
    (hplain : ¬ Plain path.toList) : other.length < path.length := by
  rcases ((path?_quote_eq_some_iff path other).mp h).plain_or_shorter with ⟨hself, _⟩ | hlt
  · exact absurd hself hplain
  · rwa [String.length_toList, String.length_toList] at hlt

end PathLiteral

/-- The import that is added for a path has that path exactly if no double quote, backslash or newline is in it.
    Otherwise it has no path, or another one, which is shorter. -/
theorem SyntaxTree.addImport_keeps_plain_paths (tree : SyntaxTree) (path : String) :
    ∃ added : Import, (tree.addImport path).imports = tree.imports ++ [added] ∧
      (added.path? = some path ↔ PathLiteral.Plain path.toList) ∧
      (¬ PathLiteral.Plain path.toList →
        added.path? = none ∨ ∃ other, added.path? = some other ∧ other ≠ path ∧ other.length < path.length) := by
  have hself := PathLiteral.path?_quote_eq_self_iff path
  refine ⟨_, rfl, hself, fun hplain => ?_⟩
  cases hread : PathLiteral.path? (PathLiteral.quote path) with
  | none => exact Or.inl hread
  | some other =>
    refine Or.inr ⟨other, hread, fun heq => ?_, PathLiteral.length_lt_of_path?_quote hread hplain⟩
    exact hplain (hself.mp (hread.trans (congrArg some heq)))

/-- A tree that has an import already. -/
def importingTree : SyntaxTree := { packageOffset := 40, imports := [⟨none, "\"fmt\"", 12⟩] }

theorem SyntaxTree.addImport_keeps_plain_paths_importingTree :
    (∃ added, (importingTree.addImport " a`b\t").imports = importingTree.imports ++ [added] ∧
      added.path? = some " a`b\t") ∧
    ∃ added, (importingTree.addImport "a\\tb").imports = importingTree.imports ++ [added] ∧
      added.path? ≠ some "a\\tb" ∧
      (added.path? = none ∨
        ∃ other, added.path? = some other ∧ other ≠ "a\\tb" ∧ other.length < "a\\tb".length) := by
  constructor
  · obtain ⟨added, himports, hself, _⟩ := SyntaxTree.addImport_keeps_plain_paths importingTree " a`b\t"
    exact ⟨added, himports, hself.mpr (by decide)⟩
  · obtain ⟨added, himports, hself, hother⟩ := SyntaxTree.addImport_keeps_plain_paths importingTree "a\\tb"
    have hplain : ¬ PathLiteral.Plain "a\\tb".toList := by decide
    exact ⟨added, himports, fun heq => hplain (hself.mp heq), hother hplain⟩

end ProgramIndex
