import ToyLang.Text.Quoted
import ToyLang.Token.Basic

/-!
# Values of expression nodes

A node holds nothing, a truth value, a number or a text: the payload of a literal, or the name of an
identifier, a call or an access. A value has three texts: `text` as it is written out, `name` where
it serves as a name, and `display` in displays of trees.
-/

set_option autoImplicit false

namespace ToyLang

/-- What an expression node holds beside its operands. -/
inductive Value where
  | absent
  | bool (b : Bool)
  | int (n : Int)
  | text (s : String)
deriving DecidableEq, Inhabited

namespace Value

/-- The value of a token's payload. -/
def ofPayload : Payload → Value
  | .text s => text s
  | .int n => int n

/-- The value as text. -/
def toText : Value → String
  | absent => "None"
  | bool true => "True"
  | bool false => "False"
  | int n => toString n
  | text s => s

/-- The value as a name: an absent value is the empty one. -/
def name : Value → String
  | absent => ""
  | v => v.toText

/-- The value in displays: texts are quoted. -/
def display : Value → String
  | text s => Text.quoted s
  | v => v.toText

/-- Whether the value counts as true: anything but an absent value, `false`, zero and the empty
text. -/
def isTrue : Value → Bool
  | absent => false
  | bool b => b
  | int n => n ≠ 0
  | text s => s ≠ ""

/-- The value with truth values as the numbers one and zero. -/
def numeric : Value → Value
  | bool true => int 1
  | bool false => int 0
  | v => v

end Value

end ToyLang
