/- The lines of a text. A line ends at a newline, and one carriage return directly before that
   newline belongs to the line end. A last line without a newline is kept as it is, and there is
   no empty line after a final newline. -/
namespace ProgramIndex.Text

def lines : List Char → List (List Char)
  | [] => []
  | '\n' :: rest => [] :: lines rest
  | '\r' :: '\n' :: rest => [] :: lines rest
  | c :: rest =>
    match lines rest with
    | [] => [[c]]
    | line :: more => (c :: line) :: more

end ProgramIndex.Text
