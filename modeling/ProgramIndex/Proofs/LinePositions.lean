import Mathlib.Data.List.TakeWhile
import Mathlib.Data.String.Basic
import ProgramIndex.Position

/- Where an offset stands in a text. The newlines of a text are known by their places among its characters,
   and each ends a certain number of bytes into the text (`Text.newlinePlaces`, `Text.endOf`). A line table
   lists these ends (`LineTable.startsAfter_eq`), in increasing order, so the starts up to an offset come
   first and the others after them, and they can be divided at one place only
   (`LineTable.dividesAt_iff`). `LineTable.position?_counts_newlines` says that the line of an offset is
   the number of newlines that end at or before it, and that its column counts from the end of the
   last of them. -/
namespace ProgramIndex

namespace Text

/-- The places at which the newlines of a text stand among its characters. -/
def newlinePlaces (text : List Char) : List Nat :=
  (List.range text.length).filter fun place => text[place]? = some '\n'

/-- The offset in bytes just past the character at a place. -/
def endOf (text : List Char) (place : Nat) : Nat := String.utf8Len (text.take (place + 1))

/-- The newlines that lie with all their bytes before an offset. -/
def newlinesBefore (text : List Char) (offset : Nat) : List Nat :=
  (newlinePlaces text).filter fun place => endOf text place ≤ offset

/-- The offset just past the last newline that lies before an offset, or zero if there is none. -/
def lineStart (text : List Char) (offset : Nat) : Nat :=
  ((newlinesBefore text offset).getLast?.map (endOf text)).getD 0

/-! Texts character by character. -/

theorem newlinePlaces_cons (c : Char) (rest : List Char) :
    newlinePlaces (c :: rest) = (if c = '\n' then [0] else []) ++ (newlinePlaces rest).map Nat.succ := by
  have hrest : ((List.range rest.length).map Nat.succ).filter (fun place => (c :: rest)[place]? = some '\n') =
      (newlinePlaces rest).map Nat.succ := by
    rw [List.filter_map, newlinePlaces]
    rfl
  rw [newlinePlaces, List.length_cons, List.range_succ_eq_map, List.filter_cons, hrest]
  by_cases hc : c = '\n' <;> simp [hc]

theorem endOf_zero (c : Char) (rest : List Char) : endOf (c :: rest) 0 = c.utf8Size := by
  simp [endOf]

theorem endOf_succ (c : Char) (rest : List Char) (place : Nat) :
    endOf (c :: rest) (place + 1) = c.utf8Size + endOf rest place := by
  rw [endOf, endOf, List.take_succ_cons, String.utf8Len_cons, Nat.add_comm]

theorem length_le_utf8Len : ∀ text : List Char, text.length ≤ String.utf8Len text
  | [] => Nat.le_refl 0
  | c :: rest => by
    have ih := length_le_utf8Len rest
    have hpos := c.utf8Size_pos
    rw [List.length_cons, String.utf8Len_cons]
    omega

end Text

namespace LineTable

/-- The starts of all lines, the first one included. -/
def starts (table : LineTable) : List Nat := 0 :: table.laterStarts

/-- So many starts come first, none of them past the offset, and all the others are past it. -/
def DividesAt (starts : List Nat) (offset count : Nat) : Prop :=
  ∃ before after, starts = before ++ after ∧ before.length = count ∧
    (∀ start ∈ before, start ≤ offset) ∧ ∀ start ∈ after, offset < start

/-! What a table lists. -/

/-- Later lines start where newlines end. -/
theorem startsAfter_eq (offset : Nat) (text : List Char) :
    startsAfter offset text = (Text.newlinePlaces text).map fun place => offset + Text.endOf text place := by
  induction text generalizing offset with
  | nil => rfl
  | cons c rest ih =>
    have hrest : startsAfter (offset + c.utf8Size) rest =
        ((Text.newlinePlaces rest).map Nat.succ).map fun place => offset + Text.endOf (c :: rest) place := by
      rw [ih, List.map_map]
      apply List.map_congr_left
      intro place _
      simp only [Function.comp_apply, Nat.succ_eq_add_one, Text.endOf_succ]
      omega
    rw [startsAfter, Text.newlinePlaces_cons, List.map_append, hrest]
    by_cases hc : c = '\n'
    · simp [hc, Text.endOf_zero]
    · simp [hc]

theorem lt_and_le_of_mem_startsAfter {offset start : Nat} {text : List Char} (h : start ∈ startsAfter offset text) :
    offset < start ∧ start ≤ offset + String.utf8Len text := by
  rw [startsAfter_eq] at h
  obtain ⟨place, hplace, rfl⟩ := List.mem_map.mp h
  have hlt : place < text.length := List.mem_range.mp (List.mem_filter.mp hplace).1
  have hprefix : Text.endOf text place ≤ String.utf8Len text :=
    String.utf8Len_le_of_prefix (List.take_prefix (place + 1) text)
  have hlength : (text.take (place + 1)).length ≤ Text.endOf text place := Text.length_le_utf8Len _
  rw [List.length_take] at hlength
  omega

theorem pairwise_startsAfter (offset : Nat) (text : List Char) : (startsAfter offset text).Pairwise (· < ·) := by
  induction text generalizing offset with
  | nil => exact List.Pairwise.nil
  | cons c rest ih =>
    rw [startsAfter]
    by_cases hc : c = '\n'
    · rw [if_pos hc]
      exact List.pairwise_cons.mpr ⟨fun start hstart => (lt_and_le_of_mem_startsAfter hstart).1, ih _⟩
    · rw [if_neg hc]
      exact ih _

theorem length_startsAfter (offset : Nat) (text : List Char) :
    (startsAfter offset text).length = text.count '\n' := by
  induction text generalizing offset with
  | nil => rfl
  | cons c rest ih =>
    rw [startsAfter]
    by_cases hc : c = '\n'
    · rw [if_pos hc, List.length_cons, ih, hc, List.count_cons_self]
    · rw [if_neg hc, ih, List.count_cons_of_ne hc]

theorem pairwise_starts (text : String) : (ofText text).starts.Pairwise (· < ·) :=
  List.pairwise_cons.mpr
    ⟨fun _ hstart => (lt_and_le_of_mem_startsAfter hstart).1, pairwise_startsAfter 0 text.toList⟩

theorem start_le_utf8ByteSize {text : String} {start : Nat} (h : start ∈ (ofText text).starts) :
    start ≤ text.utf8ByteSize := by
  rcases List.mem_cons.mp h with rfl | hlater
  · exact Nat.zero_le _
  · have hle := (lt_and_le_of_mem_startsAfter hlater).2
    rw [String.utf8Len_toList] at hle
    omega

/-! Dividing the starts at an offset. -/

section Divide
variable {starts : List Nat} {offset : Nat}

theorem lt_of_mem_dropWhile (hstarts : starts.Pairwise (· < ·)) :
    ∀ start ∈ starts.dropWhile (· ≤ offset), offset < start := by
  induction starts with
  | nil => simp
  | cons first rest ih =>
    obtain ⟨hfirst, hrest⟩ := List.pairwise_cons.mp hstarts
    by_cases hle : first ≤ offset
    · rw [List.dropWhile_cons_of_pos (by simpa using hle)]
      exact ih hrest
    · -- the first start is past the offset, and so are those after it
      rw [List.dropWhile_cons_of_neg (by simpa using hle)]
      intro start hstart
      rcases List.mem_cons.mp hstart with rfl | hlater
      · omega
      · have hlt := hfirst start hlater
        omega

theorem le_of_mem_takeWhile : ∀ start ∈ starts.takeWhile (· ≤ offset), start ≤ offset :=
  fun _ hstart => by simpa using List.mem_takeWhile_imp hstart

/-- Increasing starts can be divided at one place only. -/
theorem dividesAt_iff (hstarts : starts.Pairwise (· < ·)) (count : Nat) :
    DividesAt starts offset count ↔ count = (starts.takeWhile (· ≤ offset)).length := by
  constructor
  · intro h
    obtain ⟨before, after, rfl, rfl, hbefore, hafter⟩ := h
    have hnone : after.takeWhile (· ≤ offset) = [] := by
      cases after with
      | nil => rfl
      | cons start rest =>
        have hpast := hafter start List.mem_cons_self
        exact List.takeWhile_cons_of_neg (by simpa using hpast)
    rw [List.takeWhile_append_of_pos (by simpa using hbefore), hnone, List.append_nil]
  · rintro rfl
    exact ⟨_, _, List.takeWhile_append_dropWhile.symm, rfl, le_of_mem_takeWhile, lt_of_mem_dropWhile hstarts⟩

theorem takeWhile_eq_filter (hstarts : starts.Pairwise (· < ·)) :
    starts.takeWhile (· ≤ offset) = starts.filter (· ≤ offset) := by
  have hkept : (starts.takeWhile (· ≤ offset)).filter (· ≤ offset) = starts.takeWhile (· ≤ offset) := by
    apply List.filter_eq_self.mpr
    intro start hstart
    simpa using le_of_mem_takeWhile start hstart
  have hdropped : (starts.dropWhile (· ≤ offset)).filter (· ≤ offset) = [] := by
    apply List.filter_eq_nil_iff.mpr
    intro start hstart
    simpa using lt_of_mem_dropWhile hstarts start hstart
  calc starts.takeWhile (· ≤ offset)
      = (starts.takeWhile (· ≤ offset) ++ starts.dropWhile (· ≤ offset)).filter (· ≤ offset) := by
        rw [List.filter_append, hkept, hdropped, List.append_nil]
    _ = starts.filter (· ≤ offset) := by rw [List.takeWhile_append_dropWhile]

end Divide

/-! The position of an offset. -/

theorem takeWhile_laterStarts (text : String) (offset : Nat) :
    (ofText text).laterStarts.takeWhile (· ≤ offset) =
      (Text.newlinesBefore text.toList offset).map (Text.endOf text.toList) := by
  have hlater : (ofText text).laterStarts = (Text.newlinePlaces text.toList).map (Text.endOf text.toList) := by
    simp only [ofText, startsAfter_eq, Nat.zero_add]
  have hincreasing : (ofText text).laterStarts.Pairwise (· < ·) := pairwise_startsAfter 0 text.toList
  rw [takeWhile_eq_filter hincreasing, hlater, List.filter_map]
  rfl

theorem getLastD_takeWhile_laterStarts (text : String) (offset : Nat) :
    ((ofText text).laterStarts.takeWhile (· ≤ offset)).getLastD 0 = Text.lineStart text.toList offset := by
  rw [takeWhile_laterStarts, List.getLastD_eq_getLast?, List.getLast?_map]
  rfl

theorem getElem?_starts (table : LineTable) (offset : Nat) :
    table.starts[(table.laterStarts.takeWhile (· ≤ offset)).length]? =
      some ((table.laterStarts.takeWhile (· ≤ offset)).getLastD 0) := by
  have hsplit : table.starts =
      (0 :: table.laterStarts.takeWhile (· ≤ offset)) ++ table.laterStarts.dropWhile (· ≤ offset) := by
    rw [List.cons_append, List.takeWhile_append_dropWhile]
    rfl
  rw [hsplit, List.getElem?_append_left (by simp), List.getLastD_eq_getLast?, ← List.getLast?_cons,
    List.getLast?_eq_getElem?]
  rfl

theorem position?_of_le {table : LineTable} {offset : Nat} (h : offset ≤ table.byteSize) :
    table.position? offset =
      some ⟨(table.laterStarts.takeWhile (· ≤ offset)).length,
        offset - (table.laterStarts.takeWhile (· ≤ offset)).getLastD 0⟩ :=
  if_pos h

theorem selects_start_of_position? {text : String} {offset : Nat} {position : Position}
    (h : (ofText text).position? offset = some position) :
    (∃ start, (ofText text).starts[position.line]? = some start ∧ start ≤ offset ∧
      position.column = offset - start) ∧
    ∀ count, DividesAt (ofText text).starts offset count ↔ count = position.line + 1 := by
  have hoffset : offset ≤ (ofText text).byteSize := by
    apply Nat.le_of_not_lt
    intro hpast
    rw [(position?_eq_none_iff _ _).mpr hpast] at h
    cases h
  have hmem : ((ofText text).laterStarts.takeWhile (· ≤ offset)).getLastD 0 ∈
      0 :: (ofText text).laterStarts.takeWhile (· ≤ offset) := List.getLastD_mem_cons
  rw [position?_of_le hoffset] at h
  cases h
  refine ⟨⟨_, getElem?_starts (ofText text) offset, ?_, rfl⟩, fun count => ?_⟩
  · rcases List.mem_cons.mp hmem with hzero | htaken
    · rw [hzero]
      exact Nat.zero_le offset
    · exact le_of_mem_takeWhile _ htaken
  · rw [dividesAt_iff (pairwise_starts text), starts, List.takeWhile_cons_of_pos (by simp), List.length_cons]

/-- An offset has no position exactly if it is past the end of the text. The line of any other offset is
    the number of newlines that lie before it, and its column counts from the end of the last of them. The
    starts of the lines increase from zero and do not go past the end of the text, so the line number selects
    one of them, which is not past the offset; there are as many as there are newlines, and one more. -/
theorem position?_counts_newlines (text : String) (offset : Nat) :
    ((ofText text).position? offset = none ↔ text.utf8ByteSize < offset) ∧
    (offset ≤ text.utf8ByteSize → (ofText text).position? offset =
      some ⟨(Text.newlinesBefore text.toList offset).length, offset - Text.lineStart text.toList offset⟩) ∧
    ((ofText text).starts.head? = some 0 ∧ (ofText text).starts.Pairwise (· < ·) ∧
      ∀ start ∈ (ofText text).starts, start ≤ text.utf8ByteSize) ∧
    (∀ position, (ofText text).position? offset = some position →
      (∃ start, (ofText text).starts[position.line]? = some start ∧ start ≤ offset ∧
        position.column = offset - start) ∧
      ∀ count, DividesAt (ofText text).starts offset count ↔ count = position.line + 1) ∧
    (ofText text).lineCount = (ofText text).starts.length ∧
    (ofText text).lineCount = text.toList.count '\n' + 1 ∧
    (ofText text).lineCount ≤ text.utf8ByteSize + 1 := by
  have hcount : (ofText text).lineCount = text.toList.count '\n' + 1 :=
    congrArg (· + 1) (length_startsAfter 0 text.toList)
  refine ⟨position?_eq_none_iff _ _, fun hoffset => ?_, ⟨rfl, pairwise_starts text, ?_⟩, ?_, rfl, hcount, ?_⟩
  · have hsize : offset ≤ (ofText text).byteSize := hoffset
    rw [position?_of_le hsize, getLastD_takeWhile_laterStarts, takeWhile_laterStarts, List.length_map]
  · exact fun start hstart => start_le_utf8ByteSize hstart
  · exact fun position hposition => selects_start_of_position? hposition
  · have hle : text.toList.count '\n' ≤ text.toList.length := List.count_le_length
    have hbytes := Text.length_le_utf8Len text.toList
    rw [String.utf8Len_toList] at hbytes
    omega

theorem position?_twoLines :
    (ofText "a\né\n").position? 1 = some ⟨0, 1⟩ ∧ (ofText "a\né\n").position? 3 = some ⟨1, 1⟩ ∧
    (ofText "a\né\n").position? 5 = some ⟨2, 0⟩ ∧ (ofText "a\né\n").position? 6 = none ∧
    DividesAt (ofText "a\né\n").starts 3 2 := by
  obtain ⟨_, hfirst, _⟩ := position?_counts_newlines "a\né\n" 1
  obtain ⟨_, hwithin, _, hselects, _⟩ := position?_counts_newlines "a\né\n" 3
  obtain ⟨_, hlast, _⟩ := position?_counts_newlines "a\né\n" 5
  obtain ⟨hnone, _⟩ := position?_counts_newlines "a\né\n" 6
  refine ⟨hfirst (by decide), hwithin (by decide), hlast (by decide), hnone.mpr (by decide), ?_⟩
  exact ((hselects _ (hwithin (by decide))).2 2).mpr (by decide)

end LineTable

end ProgramIndex
