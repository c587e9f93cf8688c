import ToyLang.Pos
import ToyLang.Token.Kind

/-!
# Tokens

A token has a kind, a payload and the position of its first character. Kind and payload are
independent: tokens from outside may carry either payload whatever their kind says.
-/

set_option autoImplicit false

namespace ToyLang

/-- What a token carries: a number's value, or the text of anything else. -/
inductive Payload where
  | text (s : String)
  | int (n : Int)
deriving DecidableEq

namespace Payload

/-- The payload as text; a number in decimal. -/
def display : Payload → String
  | text s => s
  | int n => toString n

end Payload

/-- A token. -/
structure Token where
  kind : TokenKind
  value : Payload
  pos : Pos := ⟨0, 0⟩
deriving DecidableEq

namespace Token

/-- The end mark of a text that ends at `p`. -/
def endMark (p : Pos) : Token := ⟨.eof, .text "EOF", p⟩

/-- The token in messages. -/
def display (t : Token) : String := s!"Token({t.kind.name}, {t.value.display})"

end Token

end ToyLang
