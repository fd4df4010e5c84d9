import Mathlib.Data.List.TakeWhile
import ProgramIndex.SyntaxTree.GeneratedMarker

/- The marker of a generated file is the first whole line that has the form of one. The reader goes through
   comments and their lines, passes over comments in which no marker opens, and stops at the first comment
   past the package clause. This is one flat rule over the lines of the leading comments
   (`generator?_is_first_marker`): passing over changes nothing (`Comment.generator?_eq_findSome?`), because a
   line is a part of its text, and neither does a comment past the clause or anything after it
   (`leadingComments_of_past`). The lines here are those that come of splitting at newlines
   (`Text.splitLines`), which the reader's lines are but for an empty one at the end
   (`Text.exists_splitLines_eq`). -/
namespace ProgramIndex

namespace Text

/-- A line without the carriage return at its end. -/
def dropReturn (line : List Char) : List Char := if line.getLast? = some '\r' then line.dropLast else line

/-- What stands between newlines, each but the last without the carriage return before its newline. -/
def dropReturns : List (List Char) → List (List Char)
  | line :: next :: more => dropReturn line :: dropReturns (next :: more)
  | lines => lines

/-- The lines of a text, split at its newlines. -/
def splitLines (text : List Char) : List (List Char) := dropReturns (text.splitOn '\n')

/-! Splitting a text character by character. -/

theorem dropReturn_cons {c : Char} {line : List Char} (h : c ≠ '\r' ∨ line ≠ []) :
    dropReturn (c :: line) = c :: dropReturn line := by
  cases line with
  | nil => simp [dropReturn, h.resolve_right (by simp)]
  | cons d more =>
    simp only [dropReturn, List.getLast?_cons_cons, List.dropLast_cons_cons]
    split <;> rfl

theorem dropReturns_cons (line : List Char) {lines : List (List Char)} (h : lines ≠ []) :
    dropReturns (line :: lines) = dropReturn line :: dropReturns lines := by
  cases lines with
  | nil => exact absurd rfl h
  | cons next more => rfl

theorem splitLines_newline (rest : List Char) : splitLines ('\n' :: rest) = [] :: splitLines rest := by
  rw [splitLines, List.splitOn_cons_eq_if_modifyHead, if_pos (by simp),
    dropReturns_cons _ (List.splitOn_ne_nil '\n' rest)]
  rfl

theorem splitLines_return_newline (rest : List Char) :
    splitLines ('\r' :: '\n' :: rest) = [] :: splitLines rest := by
  rw [splitLines, List.splitOn_cons_eq_if_modifyHead, if_neg (by simp), List.splitOn_cons_eq_if_modifyHead,
    if_pos (by simp), List.modifyHead_cons, dropReturns_cons _ (List.splitOn_ne_nil '\n' rest)]
  rfl

theorem exists_of_splitOn_newline {text : List Char} {next : List Char} {more : List (List Char)}
    (h : text.splitOn '\n' = [] :: next :: more) : ∃ rest, text = '\n' :: rest := by
  cases text with
  | nil => simp at h
  | cons c rest =>
    by_cases hc : c = '\n'
    · exact ⟨rest, by rw [hc]⟩
    · obtain ⟨line, lines, hrest⟩ := List.exists_cons_of_ne_nil (List.splitOn_ne_nil '\n' rest)
      rw [List.splitOn_cons_eq_if_modifyHead, if_neg (by simpa using hc), hrest, List.modifyHead_cons] at h
      simp at h

theorem splitLines_cons {c : Char} {rest : List Char} (hline : c ≠ '\n')
    (hreturn : ∀ more, c = '\r' → rest ≠ '\n' :: more) :
    splitLines (c :: rest) = (splitLines rest).modifyHead (c :: ·) := by
  rw [splitLines, List.splitOn_cons_eq_if_modifyHead, if_neg (by simpa using hline), splitLines]
  cases hsplit : rest.splitOn '\n' with
  | nil => exact absurd hsplit (List.splitOn_ne_nil '\n' rest)
  | cons line lines =>
    cases lines with
    | nil => rfl
    | cons next more =>
      have hkeep : c ≠ '\r' ∨ line ≠ [] := by
        by_cases hempty : line = []
        · obtain ⟨tail, htail⟩ := exists_of_splitOn_newline (hempty ▸ hsplit)
          exact Or.inl fun hc => hreturn tail hc htail
        · exact Or.inr hempty
      rw [List.modifyHead_cons, dropReturns_cons (c :: line) (List.cons_ne_nil next more),
        dropReturns_cons line (List.cons_ne_nil next more), dropReturn_cons hkeep]
      rfl

/-! The reader's lines. -/

theorem lines_eq_nil_iff (text : List Char) : lines text = [] ↔ text = [] := by
  fun_cases lines text <;> simp

/-- Splitting at newlines gives the reader's lines, and after them at most empty ones. -/
theorem exists_splitLines_eq (text : List Char) :
    ∃ after, splitLines text = lines text ++ after ∧ ∀ line ∈ after, line = [] := by
  fun_induction lines text with
  | case1 => exact ⟨[[]], rfl, by simp⟩
  | case2 rest ih =>
    obtain ⟨after, hsplit, hempty⟩ := ih
    exact ⟨after, by rw [splitLines_newline, hsplit]; rfl, hempty⟩
  | case3 rest ih =>
    obtain ⟨after, hsplit, hempty⟩ := ih
    exact ⟨after, by rw [splitLines_return_newline, hsplit]; rfl, hempty⟩
  | case4 c rest hline hreturn hnone ih =>
    obtain rfl := (lines_eq_nil_iff rest).mp hnone
    exact ⟨[], splitLines_cons hline hreturn, by simp⟩
  | case5 c rest hline hreturn line more hlines ih =>
    obtain ⟨after, hsplit, hempty⟩ := ih
    exact ⟨after, by rw [splitLines_cons hline hreturn, hsplit, hlines]; rfl, hempty⟩

theorem lines_are_parts (text : List Char) :
    (∀ line, (lines text).head? = some line → line <+: text) ∧ ∀ line ∈ lines text, line <:+: text := by
  fun_induction lines text with
  | case1 => simp
  | case2 rest ih =>
    refine ⟨by simp, fun line hmem => ?_⟩
    rcases List.mem_cons.mp hmem with rfl | hmem
    · exact List.nil_infix
    · exact List.infix_cons (ih.2 line hmem)
  | case3 rest ih =>
    refine ⟨by simp, fun line hmem => ?_⟩
    rcases List.mem_cons.mp hmem with rfl | hmem
    · exact List.nil_infix
    · exact List.infix_cons (List.infix_cons (ih.2 line hmem))
  | case4 c rest _ _ _ _ =>
    have hfirst : [c] <+: c :: rest := ⟨rest, rfl⟩
    exact ⟨by simp, by simpa using hfirst.isInfix⟩
  | case5 c rest _ _ line more hlines ih =>
    have hfirst : c :: line <+: c :: rest := List.cons_prefix_cons.mpr ⟨rfl, ih.1 line (by rw [hlines]; rfl)⟩
    refine ⟨by simpa using hfirst, fun other hmem => ?_⟩
    rcases List.mem_cons.mp hmem with rfl | hmem
    · exact hfirst.isInfix
    · exact List.infix_cons (ih.2 other (hlines ▸ List.mem_cons_of_mem line hmem))

end Text

/-! Markers among lines. -/

namespace GeneratedMarker

/-- A line with the form of a marker names a generator, and no line before it has that form. -/
def First (lines : List (List Char)) (generator : List Char) : Prop :=
  ∃ before after, lines = before ++ line generator :: after ∧ ∀ l ∈ before, ∀ other, l ≠ line other

theorem generator?_eq_none_iff (text : List Char) : generator? text = none ↔ ∀ g, text ≠ line g := by
  simp only [Option.eq_none_iff_forall_ne_some, Ne, generator?_eq_some_iff]

theorem findSome?_eq_some_iff_first (lines : List (List Char)) (generator : List Char) :
    lines.findSome? generator? = some generator ↔ First lines generator := by
  rw [List.findSome?_eq_some_iff]
  constructor
  · intro h
    obtain ⟨before, text, after, rfl, htext, hnone⟩ := h
    obtain rfl := (generator?_eq_some_iff _ _).mp htext
    exact ⟨before, after, rfl, fun l hl => (generator?_eq_none_iff l).mp (hnone l hl)⟩
  · intro h
    obtain ⟨before, after, rfl, hnone⟩ := h
    exact ⟨before, _, after, rfl, (generator?_eq_some_iff _ _).mpr rfl,
      fun l hl => (generator?_eq_none_iff l).mpr (hnone l hl)⟩

theorem findSome?_eq_none_iff_no_line (lines : List (List Char)) :
    lines.findSome? generator? = none ↔ ∀ l ∈ lines, ∀ g, l ≠ line g := by
  simp only [List.findSome?_eq_none_iff, generator?_eq_none_iff]

theorem findSome?_splitLines (text : List Char) :
    (Text.splitLines text).findSome? generator? = (Text.lines text).findSome? generator? := by
  obtain ⟨after, hsplit, hempty⟩ := Text.exists_splitLines_eq text
  have hnone : after.findSome? generator? = none := by
    rw [List.findSome?_eq_none_iff]
    intro line hline
    rw [hempty line hline]
    rfl
  rw [hsplit, List.findSome?_append, hnone, Option.or_none]

end GeneratedMarker

/-- Passing over comments in which no marker opens changes nothing. -/
theorem Comment.generator?_eq_findSome? (c : Comment) :
    c.generator? = (Text.lines c.text.toList).findSome? GeneratedMarker.generator? := by
  unfold Comment.generator?
  split
  · rfl
  · next hunopened =>
    symm
    rw [GeneratedMarker.findSome?_eq_none_iff_no_line]
    intro l hl g hline
    subst hline
    apply hunopened
    rw [Text.hasPart_eq_true_iff]
    have hopening : GeneratedMarker.opening <+: GeneratedMarker.line g := by
      rw [GeneratedMarker.line, List.append_assoc]
      exact List.prefix_append _ _
    exact hopening.isInfix.trans ((Text.lines_are_parts _).2 _ hl)

namespace SyntaxTree

/-- The longest run of comments from the first one on of which none is past the package clause. -/
structure IsLeading (tree : SyntaxTree) (leading : List Comment) : Prop where
  run : leading <+: tree.comments.flatten
  not_past : ∀ c ∈ leading, c.offset ≤ tree.packageOffset
  longest : ∀ other, other <+: tree.comments.flatten → (∀ c ∈ other, c.offset ≤ tree.packageOffset) →
    other.length ≤ leading.length

/-- The lines of the leading comments, one after the other. -/
def leadingLines (tree : SyntaxTree) : List (List Char) :=
  tree.leadingComments.flatMap fun c => Text.splitLines c.text.toList

variable (tree : SyntaxTree)

theorem isLeading_leadingComments : tree.IsLeading tree.leadingComments where
  run := List.takeWhile_prefix _
  not_past := fun c hc => by simpa using List.mem_takeWhile_imp hc
  longest := by
    intro other hrun hother
    obtain ⟨rest, hrest⟩ := hrun
    rw [leadingComments, ← hrest, List.takeWhile_append_of_pos (by simpa using hother), List.length_append]
    exact Nat.le_add_right _ _

theorem leadingComments_of_past {before after : List Comment} {c : Comment}
    (hcomments : tree.comments.flatten = before ++ c :: after) (hpast : tree.packageOffset < c.offset) :
    tree.leadingComments = ({ tree with comments := [before] } : SyntaxTree).leadingComments := by
  have hstop : (c :: after).takeWhile (fun c => decide (c.offset ≤ tree.packageOffset)) = [] := by
    rw [List.takeWhile_cons_of_neg (by simpa using hpast)]
  simp only [leadingComments, hcomments, List.flatten_singleton, List.takeWhile_append, hstop, List.append_nil]
  split
  · next hall => rw [(List.takeWhile_prefix _).eq_of_length hall]
  · rfl

/-- Of comments in order of position, those that are not past the package clause are leading. -/
theorem leadingComments_of_ordered (h : tree.comments.flatten.Pairwise fun c d => c.offset ≤ d.offset) :
    tree.leadingComments = tree.comments.flatten.filter (·.offset ≤ tree.packageOffset) := by
  unfold leadingComments
  generalize tree.comments.flatten = comments at h ⊢
  induction comments with
  | nil => rfl
  | cons c rest ih =>
    obtain ⟨hfirst, hrest⟩ := List.pairwise_cons.mp h
    by_cases hc : c.offset ≤ tree.packageOffset
    · rw [List.takeWhile_cons_of_pos (by simpa using hc), List.filter_cons_of_pos (by simpa using hc), ih hrest]
    · -- all that follows is past the clause as well
      rw [List.takeWhile_cons_of_neg (by simpa using hc), List.filter_cons_of_neg (by simpa using hc)]
      symm
      apply List.filter_eq_nil_iff.mpr
      intro d hd
      have := hfirst d hd
      simpa using (by omega : tree.packageOffset < d.offset)

theorem findSome?_leadingComments :
    tree.leadingComments.findSome? Comment.generator? =
      tree.leadingLines.findSome? GeneratedMarker.generator? := by
  unfold leadingLines
  induction tree.leadingComments with
  | nil => rfl
  | cons c rest ih =>
    rw [List.findSome?_cons, List.flatMap_cons, List.findSome?_append, GeneratedMarker.findSome?_splitLines,
      ← Comment.generator?_eq_findSome?, ih]
    cases c.generator? <;> rfl

/-- The generator of a file is the one that the first marker among the lines of its leading comments
    names, and it has none if no such line has the form of a marker. Passing over comments in which no
    marker opens changes nothing; a marker has its opening and its closing one after the other; a comment
    past the package clause may be left out with all that follows it; and of comments in order of position
    exactly those that are not past the package clause are leading. -/
theorem generator?_is_first_marker :
    tree.IsLeading tree.leadingComments ∧
    (∀ g : String, tree.generator? = some g ↔ GeneratedMarker.First tree.leadingLines g.toList) ∧
    (tree.generator? = none ↔ ∀ l ∈ tree.leadingLines, ∀ g, l ≠ GeneratedMarker.line g) ∧
    (∀ c : Comment, c.generator? = (Text.lines c.text.toList).findSome? GeneratedMarker.generator?) ∧
    (∀ text g, GeneratedMarker.generator? text = some g ↔
      text = GeneratedMarker.opening ++ g ++ GeneratedMarker.closing) ∧
    (∀ before c after, tree.comments.flatten = before ++ c :: after → tree.packageOffset < c.offset →
      tree.generator? = ({ tree with comments := [before] } : SyntaxTree).generator?) ∧
    (tree.comments.flatten.Pairwise (fun c d => c.offset ≤ d.offset) →
      tree.leadingComments = tree.comments.flatten.filter (·.offset ≤ tree.packageOffset)) := by
  refine ⟨tree.isLeading_leadingComments, fun g => ?_, ?_, Comment.generator?_eq_findSome?,
    GeneratedMarker.generator?_eq_some_iff, fun before c after hcomments hpast => ?_,
    tree.leadingComments_of_ordered⟩
  · rw [← GeneratedMarker.findSome?_eq_some_iff_first, ← findSome?_leadingComments, generator?,
      Option.map_eq_some_iff]
    constructor
    · intro h
      obtain ⟨text, htext, rfl⟩ := h
      rw [String.toList_ofList]
      exact htext
    · intro h
      exact ⟨g.toList, h, String.ofList_toList⟩
  · rw [← GeneratedMarker.findSome?_eq_none_iff_no_line, ← findSome?_leadingComments, generator?,
      Option.map_eq_none_iff]
  · rw [generator?, generator?, tree.leadingComments_of_past hcomments hpast]

/-- The opening and the closing of a marker may not share the blank between them. -/
example : GeneratedMarker.generator? "// Code generated DO NOT EDIT.".toList = none := by decide

/-- Four comments, the third of them past the package clause. The first one has a marker on its second
    line, and so have the second and the fourth one. -/
def markedComments : List Comment :=
  [⟨0, "/* Package p.\r\n// Code generated by a. DO NOT EDIT.\r\n*/"⟩, ⟨60, "// Code generated b DO NOT EDIT."⟩,
   ⟨95, "// Imports."⟩, ⟨80, "// Code generated c DO NOT EDIT."⟩]

def markedTree : SyntaxTree := { packageOffset := 90, comments := [markedComments] }

/-- The first marker counts. Without the comments from the third one on, which are in order of position,
    the file has the same marker. -/
theorem generator?_markedTree :
    markedTree.generator? = some "by a." ∧
    ({ markedTree with comments := [markedComments.take 2] } : SyntaxTree).generator? = some "by a." ∧
    ({ markedTree with comments := [markedComments.take 2] } : SyntaxTree).leadingComments =
      markedComments.take 2 := by
  have hlines : markedTree.leadingLines = ["/* Package p.".toList] ++ GeneratedMarker.line "by a.".toList ::
      ["*/".toList, GeneratedMarker.line "b".toList] := by decide
  have hnone : GeneratedMarker.generator? "/* Package p.".toList = none := by decide
  obtain ⟨_, hfirst, _, _, _, hpast, _⟩ := generator?_is_first_marker markedTree
  obtain ⟨_, _, _, _, _, _, hordered⟩ :=
    generator?_is_first_marker { markedTree with comments := [markedComments.take 2] }
  have hmarked : markedTree.generator? = some "by a." := by
    refine (hfirst "by a.").mpr ⟨_, _, hlines, fun l hl => ?_⟩
    rw [List.mem_singleton.mp hl]
    exact (GeneratedMarker.generator?_eq_none_iff _).mp hnone
  refine ⟨hmarked, ?_, ?_⟩
  · rw [← hpast (markedComments.take 2) _ _ rfl (by decide)]
    exact hmarked
  · rw [hordered (by decide)]
    decide

end SyntaxTree

end ProgramIndex
