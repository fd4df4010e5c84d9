/- Text in double quotes, as descriptions show it: quotes, backslashes, tabs and line ends are
   written with a backslash, the other control characters by their code point. -/
namespace ProgramIndex.Text

/-- A control character by its code point in hexadecimal. -/
def codePoint (c : Char) : String :=
  "\\u\x7b" ++ String.ofList (Nat.toDigits 16 c.toNat) ++ "\x7d"

def escape (c : Char) : String :=
  match c with
  | '"' => "\\\""
  | '\\' => "\\\\"
  | '\n' => "\\n"
  | '\r' => "\\r"
  | '\t' => "\\t"
  | '\x00' => "\\0"
  | c => if c.toNat < 0x20 ∨ c.toNat = 0x7F then codePoint c else String.singleton c

def quoted (text : String) : String :=
  "\"" ++ String.join (text.toList.map escape) ++ "\""

/-- A list in brackets, its items divided by commas. -/
def bracketed (items : List String) : String := "[" ++ String.intercalate ", " items ++ "]"

end ProgramIndex.Text
