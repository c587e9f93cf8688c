import ToyLang.Lexicon.Scalar

/-!
# Data types of declarations

A declaration carries a scalar type or no type. The absent type has a text and a name as well, so
that trees can be displayed and read back.
-/

set_option autoImplicit false

namespace ToyLang

/-- The type of a declaration. -/
inductive DataType where
  | void
  | scalar (s : Scalar)
deriving DecidableEq, Repr, Inhabited

namespace DataType

/-- Every data type, the absent one first. -/
def all : List DataType := .void :: Scalar.all.map .scalar

/-- How the type is written. -/
def text : DataType → String
  | void => "void"
  | scalar s => s.spelling

/-- The name of the type in displays. -/
def name : DataType → String
  | void => "VOID"
  | scalar s => s.name

/-- The type with a given text. -/
def ofText? (s : String) : Option DataType := Lexicon.find? all text s

/-- The type with a given name. -/
def ofName? (s : String) : Option DataType := Lexicon.find? all name s

theorem ofText?_text (t : DataType) : ofText? t.text = some t := by
  rcases t with _ | s
  · decide
  · cases s <;> decide

theorem ofText?_eq_some_iff {s : String} {t : DataType} : ofText? s = some t ↔ t.text = s :=
  Lexicon.find?_eq_some_iff ofText?_text

theorem ofName?_name (t : DataType) : ofName? t.name = some t := by
  rcases t with _ | s
  · decide
  · cases s <;> decide

theorem ofName?_eq_some_iff {s : String} {t : DataType} : ofName? s = some t ↔ t.name = s :=
  Lexicon.find?_eq_some_iff ofName?_name

end DataType

end ToyLang
