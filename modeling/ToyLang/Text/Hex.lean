/-!
# Hexadecimal numerals of a fixed width

Escapes and byte values are written with lower-case digits, padded with zeros on the left.
-/

set_option autoImplicit false

namespace ToyLang.Text

/-- The lower-case hexadecimal digits of `n`, padded with zeros to at least `width` places. -/
def hex (width n : Nat) : String :=
  let digits := Nat.toDigits 16 n
  String.ofList (List.replicate (width - digits.length) '0' ++ digits)

end ToyLang.Text
