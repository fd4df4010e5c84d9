/- White space: the characters of the Unicode property White_Space, and trimming them off a text.
   Trimming keeps a text that has no blank at either end (`trim_of_ends`), and takes blanks around any
   text off (`trim_append`, `exists_append_trim`). -/
namespace ProgramIndex.Text

/-- The code points with the property White_Space. -/
def blanks : List Nat :=
  [0x9, 0xA, 0xB, 0xC, 0xD, 0x20, 0x85, 0xA0, 0x1680, 0x2000, 0x2001, 0x2002, 0x2003, 0x2004,
   0x2005, 0x2006, 0x2007, 0x2008, 0x2009, 0x200A, 0x2028, 0x2029, 0x202F, 0x205F, 0x3000]

def isBlank (c : Char) : Bool := blanks.contains c.toNat

/-- The text without the blanks at its end. -/
def trimEnd (cs : List Char) : List Char := (cs.reverse.dropWhile isBlank).reverse

/-- The text without the blanks at either end. -/
def trim (cs : List Char) : List Char := trimEnd (cs.dropWhile isBlank)

/-- A text that starts and ends with a character other than a blank is left as it is. -/
theorem trim_of_ends (a b : Char) (mid : List Char) (ha : isBlank a = false) (hb : isBlank b = false) :
    trim (a :: mid ++ [b]) = a :: mid ++ [b] := by
  simp [trim, trimEnd, ha, hb]

theorem trimEnd_append {after : List Char} (h : ∀ c ∈ after, isBlank c = true) (cs : List Char) :
    trimEnd (cs ++ after) = trimEnd cs := by
  have hreverse : ∀ c ∈ after.reverse, isBlank c = true := by simpa using h
  rw [trimEnd, List.reverse_append, List.dropWhile_append_of_pos hreverse, trimEnd]

/-- Blanks around a text make no difference to what is left of it. -/
theorem trim_append {before after : List Char} (hbefore : ∀ c ∈ before, isBlank c = true)
    (hafter : ∀ c ∈ after, isBlank c = true) (core : List Char) : trim (before ++ core ++ after) = trim core := by
  rw [trim, List.append_assoc, List.dropWhile_append_of_pos hbefore, List.dropWhile_append, trim]
  split
  · next hblank =>
    -- the text is blank throughout
    have hnone : (after ++ []).dropWhile isBlank = [] := List.dropWhile_append_of_pos hafter
    rw [List.append_nil] at hnone
    rw [List.isEmpty_iff.mp hblank, hnone]
  · exact trimEnd_append hafter _

theorem exists_append_trimEnd (cs : List Char) :
    ∃ after, cs = trimEnd cs ++ after ∧ ∀ c ∈ after, isBlank c = true := by
  refine ⟨(cs.reverse.takeWhile isBlank).reverse, ?_, fun c hc => ?_⟩
  · rw [trimEnd, ← List.reverse_append, List.takeWhile_append_dropWhile, List.reverse_reverse]
  · exact List.all_eq_true.mp List.all_takeWhile c (List.mem_reverse.mp hc)

/-- Only blanks are taken off. -/
theorem exists_append_trim (cs : List Char) : ∃ before after, cs = before ++ trim cs ++ after ∧
    (∀ c ∈ before, isBlank c = true) ∧ ∀ c ∈ after, isBlank c = true := by
  obtain ⟨after, hafter, hblank⟩ := exists_append_trimEnd (cs.dropWhile isBlank)
  refine ⟨cs.takeWhile isBlank, after, ?_, List.all_eq_true.mp List.all_takeWhile, hblank⟩
  calc cs = cs.takeWhile isBlank ++ cs.dropWhile isBlank := List.takeWhile_append_dropWhile.symm
    _ = cs.takeWhile isBlank ++ (trim cs ++ after) := by rw [trim, ← hafter]
    _ = cs.takeWhile isBlank ++ trim cs ++ after := (List.append_assoc ..).symm

end ProgramIndex.Text
