/- Qualified names: a package path, a dot, and a name. A path may have dots of its own, so a
   qualified name is divided at its last dot. `split?_eq_some_iff` says that dividing undoes
   joining with a name that has no dot, and divides nothing else. -/
namespace ProgramIndex.QualifiedName

def join (path name : String) : String := path ++ "." ++ name

/-- The text before and after the last dot. -/
def splitChars? (text : List Char) : Option (List Char × List Char) :=
  match text.reverse.dropWhile (· ≠ '.') with
  | [] => none
  | _ :: before => some (before.reverse, (text.reverse.takeWhile (· ≠ '.')).reverse)

def split? (qualified : String) : Option (String × String) :=
  (splitChars? qualified.toList).map fun (path, name) => (String.ofList path, String.ofList name)

theorem splitChars?_append {path name : List Char} (h : '.' ∉ name) :
    splitChars? (path ++ '.' :: name) = some (path, name) := by
  have hall : ∀ c ∈ name.reverse, (fun c => decide (c ≠ '.')) c = true := by
    intro c hc
    have hne : c ≠ '.' := fun heq => h (heq ▸ List.mem_reverse.1 hc)
    simpa using hne
  have hrev : (path ++ '.' :: name).reverse = name.reverse ++ '.' :: path.reverse := by simp
  unfold splitChars?
  rw [hrev, List.dropWhile_append_of_pos hall, List.takeWhile_append_of_pos hall]
  simp

theorem eq_append_of_splitChars? {text path name : List Char} (h : splitChars? text = some (path, name)) :
    text = path ++ '.' :: name ∧ '.' ∉ name := by
  unfold splitChars? at h
  split at h
  · cases h
  · next dot before hdrop =>
    obtain ⟨rfl, rfl⟩ := Prod.mk.inj (Option.some.inj h)
    have hdot : dot = '.' := by
      have := List.head?_dropWhile_not (fun c : Char => decide (c ≠ '.')) text.reverse
      rw [hdrop] at this
      simpa using this
    have hsplit := @List.takeWhile_append_dropWhile Char (fun c => decide (c ≠ '.')) text.reverse
    rw [hdrop, hdot] at hsplit
    constructor
    · have hrev := congrArg List.reverse hsplit
      rw [List.reverse_reverse] at hrev
      exact hrev.symm.trans (by simp)
    · intro hmem
      have := List.all_eq_true.1 (@List.all_takeWhile Char (fun c => decide (c ≠ '.')) text.reverse) '.'
        (List.mem_reverse.1 hmem)
      simp at this

/-- A qualified name is divided into a path and a name exactly if it joins them and the name has
    no dot. -/
theorem split?_eq_some_iff (qualified path name : String) :
    split? qualified = some (path, name) ↔ qualified = join path name ∧ '.' ∉ name.toList := by
  constructor
  · intro h
    obtain ⟨⟨p, n⟩, hchars, heq⟩ := Option.map_eq_some_iff.1 h
    obtain ⟨rfl, rfl⟩ := Prod.mk.inj heq
    obtain ⟨htext, hdot⟩ := eq_append_of_splitChars? hchars
    refine ⟨?_, by simpa using hdot⟩
    rw [← String.toList_inj]
    simp [join, htext]
  · rintro ⟨rfl, hdot⟩
    have := @splitChars?_append path.toList name.toList hdot
    simp [split?, join, this]

/-- A text is not divided exactly if it has no dot. -/
theorem split?_eq_none_iff (qualified : String) : split? qualified = none ↔ '.' ∉ qualified.toList := by
  simp only [split?, Option.map_eq_none_iff]
  constructor
  · intro h hmem
    obtain ⟨front, back, hsplit, hback⟩ :
        ∃ front back, qualified.toList = front ++ '.' :: back ∧ '.' ∉ back := by
      obtain ⟨back, front, hrev, hback⟩ := List.eq_append_cons_of_mem (List.mem_reverse.2 hmem)
      refine ⟨front.reverse, back.reverse, ?_, by simpa using hback⟩
      rw [← List.reverse_reverse qualified.toList, hrev]
      simp
    rw [hsplit, splitChars?_append hback] at h
    cases h
  · intro h
    cases hs : splitChars? qualified.toList with
    | none => rfl
    | some parts =>
      have := (eq_append_of_splitChars? hs).1
      exact absurd (by rw [this]; simp) h

end ProgramIndex.QualifiedName
