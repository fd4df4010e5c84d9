import ProgramIndex.Text.Blank

/- Path literals, as an import names a path. After trimming, a literal is raw or interpreted.
   A raw literal stands between backquotes and denotes its body. An interpreted literal stands
   between double quotes and is a run of items: a character that denotes itself, or a backslash
   and an escape. `item?` reads one item and `items?` all of them; a reader of a whole literal
   is `decode?`. Every item takes at least one character (`item?_length_lt`). -/
namespace ProgramIndex.PathLiteral

def rawQuote : Char := '\x60'

/-- The text between two given quotes, if the literal starts and ends with them. -/
def enclosed? (quote : Char) : List Char → Option (List Char)
  | [] => none
  | c :: rest => if c = quote ∧ rest.getLast? = some quote then some rest.dropLast else none

/-! Escapes. -/

/-- The character of a one-letter escape. -/
def simpleEscape? : Char → Option Char
  | 'a' => some '\x07'
  | 'b' => some '\x08'
  | 'f' => some '\x0C'
  | 'n' => some '\n'
  | 'r' => some '\r'
  | 't' => some '\t'
  | 'v' => some '\x0B'
  | '\\' => some '\\'
  | '"' => some '"'
  | _ => none

/-- How many hexadecimal digits follow the letter of a numeric escape. -/
def digitCount? : Char → Option Nat
  | 'x' => some 2
  | 'u' => some 4
  | 'U' => some 8
  | _ => none

def hexDigit? (c : Char) : Option Nat :=
  if '0' ≤ c ∧ c ≤ '9' then some (c.toNat - '0'.toNat)
  else if 'a' ≤ c ∧ c ≤ 'f' then some (c.toNat - 'a'.toNat + 10)
  else if 'A' ≤ c ∧ c ≤ 'F' then some (c.toNat - 'A'.toNat + 10)
  else none

/-- The number that hexadecimal digits denote, most significant first, added to `value`. -/
def hexNumber? (value : Nat) : List Char → Option Nat
  | [] => some value
  | c :: rest => do
    let digit ← hexDigit? c
    hexNumber? (value * 16 + digit) rest

/-- The character with a given code point, if the number is a Unicode scalar value. -/
def scalar? (n : Nat) : Option Char :=
  if n < 0xD800 ∨ (0xDFFF < n ∧ n < 0x110000) then some (Char.ofNat n) else none

/-- The character of a numeric escape with `count` digits, and the text behind them. -/
def numericEscape? (count : Nat) (text : List Char) : Option (Char × List Char) :=
  if count ≤ text.length then do
    let number ← hexNumber? 0 (text.take count)
    let c ← scalar? number
    some (c, text.drop count)
  else
    none

/-- The character of the escape that follows a backslash, and the text behind it. -/
def escape? : List Char → Option (Char × List Char)
  | [] => none
  | letter :: rest =>
    match simpleEscape? letter with
    | some c => some (c, rest)
    | none => (digitCount? letter).bind fun count => numericEscape? count rest

/-! Items. -/

/-- The first item of a text: the character it denotes, and the text behind it. -/
def item? : List Char → Option (Char × List Char)
  | [] => none
  | c :: rest =>
    if c = '\\' then escape? rest
    else if c = '"' ∨ c = '\n' then none
    else some (c, rest)

theorem numericEscape?_length_le {count : Nat} {text rest : List Char} {c : Char}
    (h : numericEscape? count text = some (c, rest)) : rest.length ≤ text.length := by
  unfold numericEscape? at h
  split at h
  · simp only [Option.bind_eq_bind, Option.bind_eq_some_iff, Option.some.injEq, Prod.mk.injEq] at h
    obtain ⟨_, _, _, _, _, rfl⟩ := h
    simp
  · simp at h

theorem escape?_length_lt {text rest : List Char} {c : Char} (h : escape? text = some (c, rest)) :
    rest.length < text.length := by
  cases text with
  | nil => simp [escape?] at h
  | cons letter tail =>
    simp only [escape?] at h
    split at h
    · simp only [Option.some.injEq, Prod.mk.injEq] at h
      simp [h.2]
    · obtain ⟨count, _, hnum⟩ := Option.bind_eq_some_iff.1 h
      simpa using Nat.lt_succ_of_le (numericEscape?_length_le hnum)

theorem item?_length_lt {text rest : List Char} {c : Char} (h : item? text = some (c, rest)) :
    rest.length < text.length := by
  cases text with
  | nil => simp [item?] at h
  | cons a tail =>
    simp only [item?] at h
    split at h
    · exact Nat.lt_of_lt_of_le (escape?_length_lt h) (by simp)
    · split at h
      · simp at h
      · simp only [Option.some.injEq, Prod.mk.injEq] at h
        simp [h.2]

/-- The characters that a run of items denotes. -/
def items? (text : List Char) : Option (List Char) :=
  match text with
  | [] => some []
  | first :: more =>
    match _h : item? (first :: more) with
    | none => none
    | some (c, rest) => (items? rest).map (c :: ·)
termination_by text.length
decreasing_by exact item?_length_lt _h

/-! Literals. -/

/-- The path that a literal denotes. -/
def decode? (literal : List Char) : Option (List Char) :=
  let trimmed := Text.trim literal
  match enclosed? rawQuote trimmed with
  | some body => if rawQuote ∈ body then none else some body
  | none => (enclosed? '"' trimmed).bind items?

/-- The path that a literal denotes; absent for a malformed literal. -/
def path? (literal : String) : Option String := (decode? literal.toList).map String.ofList

/-- A path between double quotes, with nothing escaped. -/
def quote (path : String) : String := "\"" ++ path ++ "\""

end ProgramIndex.PathLiteral
