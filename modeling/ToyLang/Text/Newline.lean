/-!
# Line ends

A line ends with a line feed, a carriage return, or both in this order. `foldNewlines` writes every
line end as one line feed.
-/

set_option autoImplicit false

namespace ToyLang.Text

/-- The text with a line feed for every line end. -/
def foldNewlines : List Char → List Char
  | [] => []
  | '\r' :: '\n' :: cs => '\n' :: foldNewlines cs
  | c :: cs => (if c = '\r' then '\n' else c) :: foldNewlines cs

end ToyLang.Text
