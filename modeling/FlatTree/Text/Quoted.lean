import FlatTree.Text.Printable

/-!
Quoted texts, as they stand in messages and printed forms. A text is set in single quotes, or in
double quotes when it holds a single quote and no double one. The chosen quote and the backslash
are escaped, line feed, carriage return and tab have escapes of their own, and every other
character that is not printable is written by its code point.
-/

namespace FlatTree.Text

/-- The single quote. -/
def singleQuote : Char := Char.ofNat 39

/-- The double quote. -/
def doubleQuote : Char := Char.ofNat 34

/-- The quote a text is set in. -/
def quoteFor (text : List Char) : Char :=
  if singleQuote ∈ text ∧ doubleQuote ∉ text then doubleQuote else singleQuote

/-- A code point in lower case hexadecimal, filled up with zeros to `width` digits. -/
def hexadecimal (width code : Nat) : List Char :=
  let digits := Nat.toDigits 16 code
  List.replicate (width - digits.length) '0' ++ digits

/-- A character by its code point, with two, four or eight digits as it needs. -/
def escapeCode (c : Char) : List Char :=
  if c.toNat < 0x100 then '\\' :: 'x' :: hexadecimal 2 c.toNat
  else if c.toNat < 0x10000 then '\\' :: 'u' :: hexadecimal 4 c.toNat
  else '\\' :: 'U' :: hexadecimal 8 c.toNat

/-- How one character stands between two quotes. -/
def escape (quote c : Char) : List Char :=
  if c = quote ∨ c = '\\' then ['\\', c]
  else if c = '\n' then ['\\', 'n']
  else if c = '\r' then ['\\', 'r']
  else if c = '\t' then ['\\', 't']
  else if isPrintable c then [c]
  else escapeCode c

/-- A text between quotes. -/
def quoted (text : List Char) : List Char :=
  let quote := quoteFor text
  quote :: (text.flatMap (escape quote) ++ [quote])

/-- Quoted texts between brackets, parted by a comma and a space. -/
def quotedList (texts : List (List Char)) : List Char :=
  '[' :: ([',', ' '].intercalate (texts.map quoted) ++ [']'])

end FlatTree.Text
