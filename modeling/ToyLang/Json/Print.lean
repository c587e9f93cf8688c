import ToyLang.Json.Basic
import ToyLang.Text.Hex

/-!
# JSON text

One element or field a line, indented by two spaces a level; empty arrays and objects stay on one
line. Texts are visible ASCII and spaces: control characters and everything from U+007F on are
escaped, above U+FFFF as two halves.
-/

set_option autoImplicit false

namespace ToyLang.Json

/-! ## Texts -/

/-- A sixteen-bit unit by its number. -/
def unitEscape (n : Nat) : String := "\\u" ++ Text.hex 4 n

/-- One character of a text. -/
def escapeChar (c : Char) : String :=
  if c = '\x22' then "\\\x22"
  else if c = '\\' then "\\\\"
  else if c = '\n' then "\\n"
  else if c = '\r' then "\\r"
  else if c = '\t' then "\\t"
  else if c = '\x08' then "\\b"
  else if c = '\x0c' then "\\f"
  else if 0x20 ≤ c.toNat ∧ c.toNat < 0x7f then String.singleton c
  else if c.toNat < 0x10000 then unitEscape c.toNat
  else
    unitEscape (0xd800 + (c.toNat - 0x10000) / 0x400) ++
      unitEscape (0xdc00 + (c.toNat - 0x10000) % 0x400)

/-- A text between double quotes. -/
def printText (s : String) : String :=
  "\x22" ++ String.join (s.toList.map escapeChar) ++ "\x22"

/-! ## Values -/

/-- The start of a line at a depth. -/
def newLine (depth : Nat) : String := "\n" ++ String.ofList (List.replicate (2 * depth) ' ')

/-- Parts between brackets, one a line at `depth + 1`. -/
def enclose (left right : String) (depth : Nat) (parts : List String) : String :=
  if parts.isEmpty then left ++ right
  else
    left ++ newLine (depth + 1) ++ String.intercalate ("," ++ newLine (depth + 1)) parts ++
      newLine depth ++ right

mutual

/-- The text of a value at a depth. -/
def printAt (depth : Nat) : Json → String
  | null => "null"
  | bool true => "true"
  | bool false => "false"
  | int n => toString n
  | str s => printText s
  | arr elements => enclose "[" "]" depth (printElements (depth + 1) elements)
  | obj fields => enclose "\x7b" "\x7d" depth (printFields (depth + 1) fields)

/-- The texts of the elements of an array. -/
def printElements (depth : Nat) : List Json → List String
  | [] => []
  | j :: js => printAt depth j :: printElements depth js

/-- The texts of the fields of an object. -/
def printFields (depth : Nat) : List (String × Json) → List String
  | [] => []
  | (name, j) :: fields =>
    (printText name ++ ": " ++ printAt depth j) :: printFields depth fields

end

/-- The text of a value. -/
def print (j : Json) : String := j.printAt 0

end ToyLang.Json
