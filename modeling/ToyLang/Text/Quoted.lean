import ToyLang.Text.Hex

/-!
# Quoted display of a text

A text is displayed between apostrophes; between double quotes if it holds an apostrophe and no
double quote. The backslash and the enclosing quote are escaped by a backslash. Line feed,
carriage return and tab have short escapes, every other hidden character a numeric one of two,
four or eight hexadecimal digits.
-/

set_option autoImplicit false

namespace ToyLang.Text

/-- Ranges of hidden code points: controls, blanks other than the space, format characters,
private use and code points that are never assigned. -/
def hiddenRanges : List (Nat × Nat) :=
  [(0x00, 0x1f), (0x7f, 0xa0), (0xad, 0xad), (0x600, 0x605), (0x61c, 0x61c), (0x6dd, 0x6dd),
   (0x70f, 0x70f), (0x890, 0x891), (0x8e2, 0x8e2), (0x1680, 0x1680), (0x180e, 0x180e),
   (0x2000, 0x200f), (0x2028, 0x202f), (0x205f, 0x206f), (0x3000, 0x3000), (0xe000, 0xf8ff),
   (0xfdd0, 0xfdef), (0xfeff, 0xfeff), (0xfff0, 0xfffb), (0xfffe, 0xffff), (0x110bd, 0x110bd),
   (0x110cd, 0x110cd), (0x13430, 0x13438), (0x1bca0, 0x1bca3), (0x1d173, 0x1d17a),
   (0x1fffe, 0x1ffff), (0x2fffe, 0x2ffff), (0x3fffe, 0xe00ff), (0xe01f0, 0x10ffff)]

/-- Whether `c` is displayed by its number. -/
def isHidden (c : Char) : Bool :=
  hiddenRanges.any fun r => r.1 ≤ c.toNat && c.toNat ≤ r.2

/-- A character by its number, in the shortest of the three numeric escapes. -/
def numericEscape (n : Nat) : String :=
  if n < 0x100 then "\\x" ++ hex 2 n
  else if n < 0x10000 then "\\u" ++ hex 4 n
  else "\\U" ++ hex 8 n

/-- One character of a text displayed between two `quote`s. -/
def displayChar (quote c : Char) : String :=
  if c = quote ∨ c = '\\' then String.ofList ['\\', c]
  else if c = '\n' then "\\n"
  else if c = '\r' then "\\r"
  else if c = '\t' then "\\t"
  else if isHidden c then numericEscape c.toNat
  else String.singleton c

/-- The quote around the display of a text. -/
def quoteFor (cs : List Char) : Char :=
  if '\x27' ∈ cs ∧ '\x22' ∉ cs then '\x22' else '\x27'

/-- The quoted display of a text. -/
def quoted (s : String) : String :=
  let quote := quoteFor s.toList
  String.singleton quote ++ String.join (s.toList.map (displayChar quote)) ++
    String.singleton quote

/-- Displays in brackets, separated by commas. -/
def bracketed (displays : List String) : String :=
  "[" ++ ", ".intercalate displays ++ "]"

end ToyLang.Text
