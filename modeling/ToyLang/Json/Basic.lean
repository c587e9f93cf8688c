/-!
# JSON values

The values that dumps are made of: numbers are integers, and the fields of an object keep their
order.
-/

set_option autoImplicit false

namespace ToyLang

/-- A JSON value with integral numbers and ordered fields. -/
inductive Json where
  | null
  | bool (b : Bool)
  | int (n : Int)
  | str (s : String)
  | arr (elements : List Json)
  | obj (fields : List (String × Json))
deriving Inhabited

end ToyLang
