import ToyLang.Token.Lexer

/-!
# Token streams

A stream delivers tokens one at a time, from a list or straight from a text, and has one place for
a token that is put back. The first end mark it delivers is delivered again ever after; where the
tokens run out without one, the end mark at no position is. After a lexical failure nothing is left
to deliver. `Stream.size` bounds the number of tokens before the end mark.
-/

set_option autoImplicit false

namespace ToyLang

/-- Where tokens come from. -/
inductive Feed where
  | listed (tokens : List Token)
  | text (cursor : Cursor)

namespace Feed

/-- The next token, if one is left. -/
def next : Feed → Except LexicalError (Option Token) × Feed
  | listed [] => (.ok none, listed [])
  | listed (t :: ts) => (.ok (some t), listed ts)
  | text c =>
    match c.next with
    | (.ok t, c) => (.ok (some t), text c)
    | (.error e, _) => (.error e, listed [])

/-- A bound on the number of tokens before the end mark. -/
def size : Feed → Nat
  | listed ts => ts.length
  | text c => c.rest.length

end Feed

/-- A token cannot be put back while another one holds the place. -/
structure Occupied where
  held : Token
  given : Token
deriving DecidableEq

/-- The error in words. -/
def Occupied.message (o : Occupied) : String :=
  s!"Pushback slot already holds {o.held.display}; cannot unget {o.given.display}"

/-- A source of tokens with a place for one that is put back, and the end mark once it is known. -/
structure Stream where
  feed : Feed
  held : Option Token := none
  ended : Option Token := none

namespace Stream

/-- The stream of the tokens of a text. -/
def ofText (s : String) : Stream := { feed := .text (.ofText s) }

/-- The stream of the tokens of a list. -/
def ofList (ts : List Token) : Stream := { feed := .listed ts }

/-- A bound on the number of tokens before the end mark. -/
def size (s : Stream) : Nat := s.feed.size + s.held.toList.length

/-- The stream behind a token that came from the feed. -/
def deliver (s : Stream) (t : Token) (feed : Feed) : Token × Stream :=
  (t, { s with feed, ended := if t.kind = .eof then some t else none })

/-- The next token. -/
def next (s : Stream) : Except LexicalError Token × Stream :=
  match s.held, s.ended with
  | some t, _ => (.ok t, { s with held := none })
  | none, some t => (.ok t, s)
  | none, none =>
    match s.feed.next with
    | (.ok t, feed) =>
      let d := s.deliver (t.getD (.endMark ⟨0, 0⟩)) feed
      (.ok d.1, d.2)
    | (.error e, feed) => (.error e, { s with feed })

/-- Puts a token back, where the place for it is free. -/
def putBack (s : Stream) (t : Token) : Except Occupied Stream :=
  match s.held with
  | none => .ok { s with held := some t }
  | some held => .error ⟨held, t⟩

end Stream

end ToyLang
