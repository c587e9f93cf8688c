/-!
# Positions in a text

A position is a line and a column, both counted from one in a text that is read from its start.
A line feed moves to the first column of the next line, any other character one column on.
`Pos.after` is the position behind a stretch of text; it splits at every seam (`after_append`).
-/

set_option autoImplicit false

namespace ToyLang

/-- A place in a text. The numbers are unrestricted, since a reader may be started anywhere. -/
structure Pos where
  line : Int := 0
  col : Int := 0
deriving DecidableEq, Repr, Inhabited

namespace Pos

/-- Where a text begins. -/
def start : Pos := ⟨1, 1⟩

/-- The position behind one character. -/
def advance (p : Pos) (c : Char) : Pos :=
  if c = '\n' then ⟨p.line + 1, 1⟩ else ⟨p.line, p.col + 1⟩

/-- The position behind a stretch of text that starts at `p`. -/
def after (p : Pos) (text : List Char) : Pos := text.foldl advance p

@[simp] theorem after_nil (p : Pos) : p.after [] = p := rfl

@[simp] theorem after_cons (p : Pos) (c : Char) (cs : List Char) :
    p.after (c :: cs) = (p.advance c).after cs := rfl

theorem after_append (p : Pos) (a b : List Char) : p.after (a ++ b) = (p.after a).after b :=
  List.foldl_append

end Pos

end ToyLang
