import Mathlib.Data.List.Forall2
import Mathlib.Data.Nat.Digits.Defs
import Mathlib.Tactic.Ring
import ProgramIndex.SyntaxTree

/- The grammar of path literals. `Item` says how one character is spelled within double quotes, `Items` how
   a run of them is, and `Denotes` which path a literal stands for. The readers accept exactly what the
   grammar spells (`item?_eq_some_iff`, `items?_eq_some_iff`), so an import has a path exactly if its
   literal, between blanks, is one of the grammar (`path?_accepts_grammar`). The digits of an escape are
   read one by one into a number, which stays within 32 bits (`hexNumber?_step_lt`). -/
namespace ProgramIndex

namespace PathLiteral

/-! The grammar. -/

/-- The letters that follow a backslash, with the characters they stand for. -/
def simpleEscapes : List (Char × Char) :=
  [('a', '\x07'), ('b', '\x08'), ('f', '\x0C'), ('n', '\n'), ('r', '\r'), ('t', '\t'), ('v', '\x0B'),
   ('\\', '\\'), ('"', '"')]

/-- The letters of the numeric escapes, with the numbers of digits that follow them. -/
def numericEscapes : List (Char × Nat) := [('x', 2), ('u', 4), ('U', 8)]

/-- A hexadecimal digit in lower or upper case, and its value. -/
def HexDigit (c : Char) (value : Nat) : Prop :=
  value < 16 ∧ (c = Nat.digitChar value ∨ c = (Nat.digitChar value).toUpper)

/-- How a character is spelled within double quotes. -/
inductive Item : List Char → Char → Prop
  | plain {c : Char} (hquote : c ≠ '"') (hescape : c ≠ '\\') (hline : c ≠ '\n') : Item [c] c
  | simple {letter c : Char} (h : (letter, c) ∈ simpleEscapes) : Item ['\\', letter] c
  | numeric {letter c : Char} {digits : List Char} {values : List Nat}
      (hcount : (letter, digits.length) ∈ numericEscapes) (hdigits : List.Forall₂ HexDigit digits values)
      (hvalue : c.toNat = Nat.ofDigits 16 values.reverse) : Item ('\\' :: letter :: digits) c

/-- How a text is spelled within double quotes. -/
inductive Items : List Char → List Char → Prop
  | nil : Items [] []
  | cons {spelling rest : List Char} {c : Char} {text : List Char} (first : Item spelling c)
      (more : Items rest text) : Items (spelling ++ rest) (c :: text)

/-- The path that a literal without blanks around it stands for. -/
inductive Denotes : List Char → List Char → Prop
  | raw {body : List Char} (h : rawQuote ∉ body) : Denotes (rawQuote :: body ++ [rawQuote]) body
  | interpreted {spelling path : List Char} (h : Items spelling path) : Denotes ('"' :: spelling ++ ['"']) path

/-! Escapes. -/

theorem simpleEscape?_eq_some_iff (letter c : Char) :
    simpleEscape? letter = some c ↔ (letter, c) ∈ simpleEscapes := by
  unfold simpleEscape? simpleEscapes
  split <;> simp_all [eq_comm]

theorem digitCount?_eq_some_iff (letter : Char) (count : Nat) :
    digitCount? letter = some count ↔ (letter, count) ∈ numericEscapes := by
  unfold digitCount? numericEscapes
  split <;> simp_all [eq_comm]

theorem simpleEscape?_of_numeric {letter : Char} {count : Nat} (h : (letter, count) ∈ numericEscapes) :
    simpleEscape? letter = none := by
  simp only [numericEscapes, List.mem_cons, Prod.mk.injEq, List.not_mem_nil, or_false] at h
  rcases h with ⟨rfl, _⟩ | ⟨rfl, _⟩ | ⟨rfl, _⟩ <;> rfl

theorem toNat_digitChar_of_ten_le {value : Nat} (hten : 10 ≤ value) (h : value < 16) :
    (Nat.digitChar value).toNat = 87 + value ∧ (Nat.digitChar value).toUpper.toNat = 55 + value := by
  have hall : ∀ letter < 6, (Nat.digitChar (10 + letter)).toNat = 87 + (10 + letter) ∧
      (Nat.digitChar (10 + letter)).toUpper.toNat = 55 + (10 + letter) := by decide
  obtain ⟨letter, rfl⟩ := Nat.exists_eq_add_of_le hten
  exact hall letter (by omega)

theorem hexDigit?_of_hexDigit {c : Char} {value : Nat} (h : HexDigit c value) : hexDigit? c = some value := by
  have hall : ∀ value < 16, hexDigit? (Nat.digitChar value) = some value ∧
      hexDigit? (Nat.digitChar value).toUpper = some value := by decide
  obtain ⟨hlt, rfl | rfl⟩ := h
  · exact (hall value hlt).1
  · exact (hall value hlt).2

theorem hexDigit_of_hexDigit? {c : Char} {value : Nat} (h : hexDigit? c = some value) : HexDigit c value := by
  unfold hexDigit? at h
  split at h
  · next hc =>
    have hrange : 48 ≤ c.toNat ∧ c.toNat ≤ 57 := hc
    obtain rfl : c.toNat - 48 = value := Option.some.inj h
    have hdigit := Nat.toNat_digitChar_of_lt_ten (show c.toNat - 48 < 10 by omega)
    exact ⟨by omega, Or.inl (Char.toNat_inj.mp (by omega))⟩
  · split at h
    · next hc =>
      have hrange : 97 ≤ c.toNat ∧ c.toNat ≤ 102 := hc
      obtain rfl : c.toNat - 97 + 10 = value := Option.some.inj h
      have hletter := toNat_digitChar_of_ten_le (show 10 ≤ c.toNat - 97 + 10 by omega) (by omega)
      exact ⟨by omega, Or.inl (Char.toNat_inj.mp (by omega))⟩
    · split at h
      · next hc =>
        have hrange : 65 ≤ c.toNat ∧ c.toNat ≤ 70 := hc
        obtain rfl : c.toNat - 65 + 10 = value := Option.some.inj h
        have hletter := toNat_digitChar_of_ten_le (show 10 ≤ c.toNat - 65 + 10 by omega) (by omega)
        exact ⟨by omega, Or.inr (Char.toNat_inj.mp (by omega))⟩
      · simp at h

theorem hexDigit?_eq_some_iff (c : Char) (value : Nat) : hexDigit? c = some value ↔ HexDigit c value :=
  ⟨hexDigit_of_hexDigit?, hexDigit?_of_hexDigit⟩

/-- Digits that follow a number that was read. -/
theorem hexNumber?_eq_some_iff (digits : List Char) (start number : Nat) :
    hexNumber? start digits = some number ↔ ∃ values, List.Forall₂ HexDigit digits values ∧
      number = start * 16 ^ digits.length + Nat.ofDigits 16 values.reverse := by
  induction digits generalizing start with
  | nil => simp [hexNumber?, eq_comm]
  | cons c rest ih =>
    simp only [hexNumber?, Option.bind_eq_bind, Option.bind_eq_some_iff, hexDigit?_eq_some_iff, ih,
      List.forall₂_cons_left_iff, List.length_cons]
    have hvalue : ∀ {values : List Nat}, List.Forall₂ HexDigit rest values → ∀ digit,
        start * 16 ^ (rest.length + 1) + Nat.ofDigits 16 (digit :: values).reverse =
          (start * 16 + digit) * 16 ^ rest.length + Nat.ofDigits 16 values.reverse := by
      intro values hvalues digit
      rw [Nat.ofDigits_reverse_cons, ← hvalues.length_eq]
      ring
    constructor
    · intro h
      obtain ⟨digit, hdigit, values, hvalues, rfl⟩ := h
      exact ⟨digit :: values, ⟨digit, values, hdigit, hvalues, rfl⟩, (hvalue hvalues digit).symm⟩
    · intro h
      obtain ⟨_, ⟨digit, values, hdigit, hvalues, rfl⟩, rfl⟩ := h
      exact ⟨digit, hdigit, values, hvalues, hvalue hvalues digit⟩

theorem hexNumber?_lt {digits : List Char} {start number : Nat} (h : hexNumber? start digits = some number) :
    number < (start + 1) * 16 ^ digits.length := by
  induction digits generalizing start with
  | nil =>
    obtain rfl : start = number := Option.some.inj h
    simp
  | cons c rest ih =>
    obtain ⟨digit, hdigit, hrest⟩ := Option.bind_eq_some_iff.mp h
    have hlt : digit < 16 := ((hexDigit?_eq_some_iff c digit).mp hdigit).1
    calc number < (start * 16 + digit + 1) * 16 ^ rest.length := ih hrest
      _ ≤ ((start + 1) * 16) * 16 ^ rest.length := Nat.mul_le_mul_right _ (by omega)
      _ = (start + 1) * 16 ^ (c :: rest).length := by rw [Nat.mul_assoc, ← Nat.pow_succ']; rfl

/-- While the digits of an escape are read, the number of those that were read can take one more digit
    within 32 bits. -/
theorem hexNumber?_step_lt {letter : Char} {count : Nat} (hcount : digitCount? letter = some count)
    {text : List Char} {read number : Nat} (hread : read < count)
    (hnumber : hexNumber? 0 (text.take read) = some number) {digit : Nat} (hdigit : digit < 16) :
    number * 16 + digit < 2 ^ 32 := by
  have hle : count ≤ 8 := by
    rw [digitCount?_eq_some_iff] at hcount
    simp only [numericEscapes, List.mem_cons, Prod.mk.injEq, List.not_mem_nil, or_false] at hcount
    omega
  have hshort : (text.take read).length ≤ 7 := by
    rw [List.length_take]
    omega
  have hsmall : number < 16 ^ 7 := by
    calc number < (0 + 1) * 16 ^ (text.take read).length := hexNumber?_lt hnumber
      _ ≤ (0 + 1) * 16 ^ 7 := Nat.mul_le_mul_left _ (Nat.pow_le_pow_right (by decide) hshort)
      _ = 16 ^ 7 := Nat.one_mul _
  omega

theorem scalar?_eq_some_iff (number : Nat) (c : Char) : scalar? number = some c ↔ c.toNat = number := by
  unfold scalar?
  constructor
  · intro h
    split at h
    · next hvalid =>
      obtain rfl := Option.some.inj h
      rw [Char.ofNat, dif_pos hvalid]
      rfl
    · simp at h
  · intro hnumber
    subst hnumber
    rw [if_pos (show c.toNat < 0xD800 ∨ 0xDFFF < c.toNat ∧ c.toNat < 0x110000 from c.valid), Char.ofNat_toNat]

theorem numericEscape?_eq_some_iff (count : Nat) (text : List Char) (c : Char) (rest : List Char) :
    numericEscape? count text = some (c, rest) ↔ ∃ digits values, text = digits ++ rest ∧
      digits.length = count ∧ List.Forall₂ HexDigit digits values ∧
      c.toNat = Nat.ofDigits 16 values.reverse := by
  unfold numericEscape?
  constructor
  · intro h
    split at h
    · next hlength =>
      simp only [Option.bind_eq_bind, Option.bind_eq_some_iff, scalar?_eq_some_iff, hexNumber?_eq_some_iff,
        Option.some.injEq, Prod.mk.injEq] at h
      obtain ⟨number, ⟨values, hvalues, hnumber⟩, _, hscalar, rfl, rfl⟩ := h
      refine ⟨text.take count, values, (List.take_append_drop count text).symm, ?_, hvalues, ?_⟩
      · rw [List.length_take, Nat.min_eq_left hlength]
      · rw [hscalar, hnumber, Nat.zero_mul, Nat.zero_add]
    · simp at h
  · intro h
    obtain ⟨digits, values, rfl, rfl, hvalues, hscalar⟩ := h
    have hnumber : hexNumber? 0 digits = some c.toNat :=
      (hexNumber?_eq_some_iff digits 0 c.toNat).mpr ⟨values, hvalues, by rw [hscalar, Nat.zero_mul, Nat.zero_add]⟩
    rw [if_pos (by simp)]
    simp [hnumber, (scalar?_eq_some_iff c.toNat c).mpr rfl]

/-! Items. -/

theorem escape?_eq_some_iff (text : List Char) (c : Char) (rest : List Char) :
    escape? text = some (c, rest) ↔ ∃ spelling, Item ('\\' :: spelling) c ∧ text = spelling ++ rest := by
  constructor
  · intro h
    cases text with
    | nil => simp [escape?] at h
    | cons letter more =>
      simp only [escape?] at h
      split at h
      · next denoted hsimple =>
        obtain ⟨rfl, rfl⟩ := Prod.mk.inj (Option.some.inj h)
        exact ⟨[letter], .simple ((simpleEscape?_eq_some_iff _ _).mp hsimple), rfl⟩
      · obtain ⟨count, hcount, hnumeric⟩ := Option.bind_eq_some_iff.mp h
        obtain ⟨digits, values, rfl, rfl, hvalues, hscalar⟩ := (numericEscape?_eq_some_iff _ _ _ _).mp hnumeric
        exact ⟨letter :: digits, .numeric ((digitCount?_eq_some_iff _ _).mp hcount) hvalues hscalar, rfl⟩
  · intro h
    obtain ⟨spelling, hitem, rfl⟩ := h
    cases hitem with
    | plain _ hescape _ => exact absurd rfl hescape
    | simple h => simp [escape?, (simpleEscape?_eq_some_iff _ _).mpr h]
    | @numeric letter _ digits values hcount hdigits hvalue =>
      have hnumeric : numericEscape? digits.length (digits ++ rest) = some (c, rest) :=
        (numericEscape?_eq_some_iff _ _ _ _).mpr ⟨digits, values, rfl, rfl, hdigits, hvalue⟩
      simp [escape?, simpleEscape?_of_numeric hcount, (digitCount?_eq_some_iff _ _).mpr hcount, hnumeric]

/-- The reader of one item takes what the item spells. -/
theorem item?_eq_some_iff (text : List Char) (c : Char) (rest : List Char) :
    item? text = some (c, rest) ↔ ∃ spelling, Item spelling c ∧ text = spelling ++ rest := by
  constructor
  · intro h
    cases text with
    | nil => simp [item?] at h
    | cons first more =>
      simp only [item?] at h
      split at h
      · next hescape =>
        obtain ⟨spelling, hitem, rfl⟩ := (escape?_eq_some_iff _ _ _).mp h
        exact ⟨'\\' :: spelling, hitem, by rw [hescape]; rfl⟩
      · next hescape =>
        split at h
        · simp at h
        · next hplain =>
          obtain ⟨rfl, rfl⟩ := Prod.mk.inj (Option.some.inj h)
          rw [not_or] at hplain
          exact ⟨[first], .plain hplain.1 hescape hplain.2, rfl⟩
  · intro h
    obtain ⟨spelling, hitem, rfl⟩ := h
    cases hitem with
    | plain hquote hescape hline => simp [item?, hquote, hescape, hline]
    | simple h => simpa [item?] using (escape?_eq_some_iff _ _ _).mpr ⟨_, .simple h, rfl⟩
    | numeric hcount hdigits hvalue =>
      simpa [item?] using (escape?_eq_some_iff _ _ _).mpr ⟨_, .numeric hcount hdigits hvalue, rfl⟩

theorem items?_of_item? {text rest : List Char} {c : Char} (h : item? text = some (c, rest)) :
    items? text = (items? rest).map (c :: ·) := by
  cases text with
  | nil => simp [item?] at h
  | cons first more =>
    rw [items?]
    split
    · next hnone => simp [h] at hnone
    · next hsome =>
      obtain ⟨rfl, rfl⟩ := Prod.mk.inj (Option.some.inj (h.symm.trans hsome))
      rfl

/-- A run of items is read as the text that it spells. -/
theorem items?_eq_some_iff (spelling text : List Char) : items? spelling = some text ↔ Items spelling text := by
  constructor
  · intro h
    fun_induction items? spelling generalizing text with
    | case1 =>
      obtain rfl := Option.some.inj h
      exact .nil
    | case2 => simp at h
    | case3 first more c rest hitem ih =>
      obtain ⟨denoted, hrest, rfl⟩ := Option.map_eq_some_iff.mp h
      obtain ⟨one, hone, hsplit⟩ := (item?_eq_some_iff _ _ _).mp hitem
      rw [hsplit]
      exact .cons hone (ih denoted hrest)
  · intro h
    induction h with
    | nil => rw [items?]
    | cons first more ih =>
      rw [items?_of_item? ((item?_eq_some_iff _ _ _).mpr ⟨_, first, rfl⟩), ih]
      rfl

/-! Literals. -/

theorem enclosed?_eq_some_iff (quote : Char) (text body : List Char) :
    enclosed? quote text = some body ↔ text = quote :: body ++ [quote] := by
  cases text with
  | nil => simp [enclosed?]
  | cons c rest =>
    simp only [enclosed?, Option.ite_none_right_eq_some, List.getLast?_eq_some_iff, Option.some.injEq,
      List.cons_append, List.cons.injEq]
    constructor
    · intro h
      obtain ⟨⟨rfl, body, rfl⟩, rfl⟩ := h
      simp
    · intro h
      obtain ⟨rfl, rfl⟩ := h
      simp

theorem enclosed?_rawQuote_quoted (body : List Char) : enclosed? rawQuote ('"' :: body ++ ['"']) = none := by
  simp [enclosed?, rawQuote]

theorem decode?_eq_some_iff (literal path : List Char) :
    decode? literal = some path ↔ Denotes (Text.trim literal) path := by
  unfold decode?
  generalize Text.trim literal = core
  dsimp only
  constructor
  · intro h
    split at h
    · next body hraw =>
      obtain rfl := (enclosed?_eq_some_iff _ _ _).mp hraw
      obtain ⟨hbody, hpath⟩ := Option.ite_none_left_eq_some.mp h
      obtain rfl := Option.some.inj hpath
      exact .raw hbody
    · obtain ⟨spelling, hquoted, hitems⟩ := Option.bind_eq_some_iff.mp h
      obtain rfl := (enclosed?_eq_some_iff _ _ _).mp hquoted
      exact .interpreted ((items?_eq_some_iff _ _).mp hitems)
  · intro h
    cases h with
    | raw hbody =>
      rw [(enclosed?_eq_some_iff rawQuote _ path).mpr rfl]
      exact if_neg hbody
    | @interpreted spelling _ hitems =>
      rw [enclosed?_rawQuote_quoted, (enclosed?_eq_some_iff '"' _ spelling).mpr rfl]
      exact (items?_eq_some_iff _ _).mpr hitems

theorem Denotes.trim_eq {core path : List Char} (h : Denotes core path) : Text.trim core = core := by
  cases h with
  | raw _ => exact Text.trim_of_ends _ _ _ (by decide) (by decide)
  | interpreted _ => exact Text.trim_of_ends _ _ _ (by decide) (by decide)

end PathLiteral

/-- An import has a path exactly if its literal is, between blanks, one that denotes the path: a body
    without backquotes between backquotes, or a run of items between double quotes. While the digits of a
    numeric escape are read, the number stays within 32 bits at every digit. -/
theorem Import.path?_accepts_grammar (i : Import) :
    (∀ path : String, i.path? = some path ↔ ∃ before core after : List Char,
      i.literal.toList = before ++ core ++ after ∧ (∀ c ∈ before, Text.isBlank c = true) ∧
      (∀ c ∈ after, Text.isBlank c = true) ∧ PathLiteral.Denotes core path.toList) ∧
    ∀ (letter : Char) (count : Nat), PathLiteral.digitCount? letter = some count →
      ∀ (text : List Char) (read number digit : Nat), read < count →
        PathLiteral.hexNumber? 0 (text.take read) = some number → digit < 16 → number * 16 + digit < 2 ^ 32 := by
  refine ⟨fun path => ?_, fun letter count hcount text read number digit hread hnumber hdigit =>
    PathLiteral.hexNumber?_step_lt hcount hread hnumber hdigit⟩
  have hdecode : i.path? = some path ↔ PathLiteral.Denotes (Text.trim i.literal.toList) path.toList := by
    rw [Import.path?, PathLiteral.path?, Option.map_eq_some_iff, ← PathLiteral.decode?_eq_some_iff]
    constructor
    · intro h
      obtain ⟨denoted, hdenoted, rfl⟩ := h
      rw [String.toList_ofList]
      exact hdenoted
    · intro h
      exact ⟨path.toList, h, String.ofList_toList⟩
  rw [hdecode]
  constructor
  · intro h
    obtain ⟨before, after, hliteral, hbefore, hafter⟩ := Text.exists_append_trim i.literal.toList
    exact ⟨before, _, after, hliteral, hbefore, hafter, h⟩
  · intro h
    obtain ⟨before, core, after, hliteral, hbefore, hafter, hdenotes⟩ := h
    rw [hliteral, Text.trim_append hbefore hafter, hdenotes.trim_eq]
    exact hdenotes

/-- A slash that is spelled by its number, and a literal with blanks around it. -/
def slashImport : Import := ⟨none, "\t\"a\\x2Fb\" ", 0⟩

theorem Import.path?_accepts_slashImport :
    slashImport.path? = some "a/b" ∧
    PathLiteral.hexNumber? 0 ("ffffffff".toList.take 7) = some 268435455 ∧ 268435455 * 16 + 15 < 2 ^ 32 := by
  have hslash : PathLiteral.Item ['\\', 'x', '2', 'F'] '/' :=
    @PathLiteral.Item.numeric 'x' '/' ['2', 'F'] [2, 15] (by decide)
      (.cons ⟨by decide, Or.inl (by decide)⟩ (.cons ⟨by decide, Or.inr (by decide)⟩ .nil)) (by decide)
  have hitems : PathLiteral.Items ['a', '\\', 'x', '2', 'F', 'b'] ['a', '/', 'b'] :=
    .cons (.plain (by decide) (by decide) (by decide)) (.cons hslash
      (.cons (.plain (by decide) (by decide) (by decide)) .nil))
  have hnumber : PathLiteral.hexNumber? 0 ("ffffffff".toList.take 7) = some 268435455 := by decide
  obtain ⟨hgrammar, hroom⟩ := Import.path?_accepts_grammar slashImport
  refine ⟨(hgrammar "a/b").mpr ⟨['\t'], _, [' '], ?_, ?_, ?_, .interpreted hitems⟩, hnumber,
    hroom 'U' 8 rfl _ 7 _ 15 (by decide) hnumber (by decide)⟩
  · decide
  · exact List.forall_mem_singleton.mpr (by decide)
  · exact List.forall_mem_singleton.mpr (by decide)

end ProgramIndex
