/- Parts of a text: whether one text stands somewhere within another. -/
namespace ProgramIndex.Text

def hasPart (part : List Char) : List Char → Bool
  | [] => part.isEmpty
  | c :: rest => part.isPrefixOf (c :: rest) || hasPart part rest

theorem hasPart_eq_true_iff (part text : List Char) : hasPart part text = true ↔ part <:+: text := by
  induction text with
  | nil => simp [hasPart]
  | cons c rest ih => rw [hasPart, Bool.or_eq_true, ih, List.isPrefixOf_iff_prefix, List.infix_cons_iff]

end ProgramIndex.Text
