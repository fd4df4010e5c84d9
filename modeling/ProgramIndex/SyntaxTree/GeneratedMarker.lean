import ProgramIndex.SyntaxTree
import ProgramIndex.Text.Lines
import ProgramIndex.Text.Part

/- Marks of generated files. A file is generated if a line of a comment above its package clause
   is a marker, which names the generator between a fixed opening and a fixed closing. Comments
   are read in order up to the first one past the package clause, and the first marker counts. -/
namespace ProgramIndex

namespace GeneratedMarker

def opening : List Char := "// Code generated ".toList

def closing : List Char := " DO NOT EDIT.".toList

/-- The marker line that names a generator. -/
def line (generator : List Char) : List Char := opening ++ generator ++ closing

/-- The generator that a line names, if the line is a marker. -/
def generator? (text : List Char) : Option (List Char) :=
  let rest := text.drop opening.length
  if opening <+: text ∧ closing <:+ rest then some (rest.take (rest.length - closing.length)) else none

theorem generator?_eq_some_iff (text generator : List Char) :
    generator? text = some generator ↔ text = line generator := by
  simp only [generator?, line]
  constructor
  · intro h
    split at h
    · next hm =>
      obtain ⟨⟨rest, rfl⟩, hclose⟩ := hm
      simp only [List.drop_left] at h hclose
      obtain ⟨g, rfl⟩ := hclose
      simp at h
      simp [h]
    · simp at h
  · rintro rfl
    simp

end GeneratedMarker

/-- The first generator that the comment's lines name. The lines of a comment in which no marker opens
    are not looked at. -/
def Comment.generator? (c : Comment) : Option (List Char) :=
  if Text.hasPart GeneratedMarker.opening c.text.toList then
    (Text.lines c.text.toList).findSome? GeneratedMarker.generator?
  else
    none

namespace SyntaxTree

/-- The comments before the first one that stands past the package clause. -/
def leadingComments (tree : SyntaxTree) : List Comment :=
  tree.comments.flatten.takeWhile (·.offset ≤ tree.packageOffset)

/-- The generator that the file's marker names; absent for a hand-written file. -/
def generator? (tree : SyntaxTree) : Option String :=
  (tree.leadingComments.findSome? Comment.generator?).map String.ofList

def isGenerated (tree : SyntaxTree) : Bool := tree.generator?.isSome

end SyntaxTree

end ProgramIndex
