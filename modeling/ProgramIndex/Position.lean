/- Places in a source text. A place is given as an offset in bytes of the text's UTF-8 form; a
   line table turns it into a line and a column, both counted from zero and shown from one.
   `LineTable.position?_eq_none_iff` says which offsets have no position. -/
namespace ProgramIndex

/-- A line and a column in bytes, both counted from zero. -/
structure Position where
  line : Nat
  column : Nat
deriving DecidableEq

/-- Positions are shown as line and column, both counted from one. -/
def Position.label (p : Position) : String :=
  toString (p.line + 1) ++ ":" ++ toString (p.column + 1)

/-- Where the lines of a text start. The first line starts at zero and is not listed. -/
structure LineTable where
  laterStarts : List Nat
  byteSize : Nat
deriving DecidableEq

namespace LineTable

/-- The offsets just past each newline of a text that itself starts at `offset`. -/
def startsAfter (offset : Nat) : List Char → List Nat
  | [] => []
  | c :: rest =>
    let next := offset + c.utf8Size
    if c = '\n' then next :: startsAfter next rest else startsAfter next rest

def ofText (text : String) : LineTable :=
  ⟨startsAfter 0 text.toList, text.utf8ByteSize⟩

def lineCount (table : LineTable) : Nat := table.laterStarts.length + 1

/-- The position of an offset that is not past the end of the text: the line is the number of
    later lines that start at or before it. -/
def position? (table : LineTable) (offset : Nat) : Option Position :=
  if offset ≤ table.byteSize then
    let starts := table.laterStarts.takeWhile (· ≤ offset)
    some ⟨starts.length, offset - starts.getLastD 0⟩
  else
    none

theorem position?_eq_none_iff (table : LineTable) (offset : Nat) :
    table.position? offset = none ↔ table.byteSize < offset := by
  simp only [position?]
  split <;> simp <;> omega

end LineTable

end ProgramIndex
