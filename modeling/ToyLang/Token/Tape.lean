import ToyLang.Token.Lexer

/-!
# Reading a text from any index

A tape is a whole text with an index and a position, both of which may start anywhere. Behind the
end nothing can be read. A negative index stands for the character that far from the end: it can be
read but not seen by `peek`, and reading it moves on towards index 0. Whatever skips or collects
characters therefore first reads up to index 0 (`settle`) and then works as a cursor does
(`onCursor`).
-/

set_option autoImplicit false

namespace ToyLang

/-- A text with the index of the next character and its position. -/
structure Tape where
  source : List Char
  index : Int := 0
  pos : Pos := .start

/-- Why a tape cannot be read. -/
inductive TapeError where
  | pastEnd (index line : Int)
  | outOfRange
  | lexical (e : LexicalError)
deriving DecidableEq

/-- The error in words. -/
def TapeError.message : TapeError → String
  | pastEnd index line =>
    s!"Attempted to read past end of source at position=<{index}>, line=<{line}>"
  | outOfRange => "string index out of range"
  | lexical e => e.message

namespace Tape

/-- Whether nothing is left to read. -/
def atEnd (t : Tape) : Bool := t.source.length ≤ t.index

/-- The character `offset` places from the index, if that is a place in the text. -/
def peek (t : Tape) (offset : Int) : Option Char :=
  let i := t.index + offset
  if 0 ≤ i then t.source[i.toNat]? else none

/-- The tape behind `text`. -/
def past (t : Tape) (text : List Char) : Tape :=
  { t with index := t.index + text.length, pos := t.pos.after text }

/-- Reads one character. -/
def next (t : Tape) : Except TapeError Char × Tape :=
  if t.atEnd then (.error (.pastEnd t.index t.pos.line), t)
  else
    let i := if 0 ≤ t.index then t.index else t.source.length + t.index
    match if 0 ≤ i then t.source[i.toNat]? else none with
    | some c => (.ok c, t.past [c])
    | none => (.error .outOfRange, t)

/-- Reads up to index 0; gives what was read. -/
def settle (t : Tape) : Except TapeError (List Char) × Tape :=
  if 0 ≤ t.index then (.ok [], t)
  else if t.index.natAbs ≤ t.source.length then
    let text := t.source.drop (t.source.length - t.index.natAbs)
    (.ok text, t.past text)
  else (.error .outOfRange, t)

/-- Works on the unread part of the text as a cursor. -/
def onCursor {α : Type} (t : Tape) (f : Cursor → α × Cursor) : α × Tape :=
  let unread := t.source.drop t.index.toNat
  let r := f ⟨unread, t.pos⟩
  (r.1, { t with index := t.index + (unread.length - r.2.rest.length : Nat), pos := r.2.pos })

/-- Reads up to index 0 and goes on as a cursor, which is given what was read. -/
def settled {α : Type} (t : Tape) (f : List Char → Cursor → Except TapeError α × Cursor) :
    Except TapeError α × Tape :=
  match t.settle with
  | (.ok text, t) => t.onCursor (f text)
  | (.error e, t) => (.error e, t)

/-- Skips blanks and comments. -/
def skipLayout (t : Tape) : Except TapeError Unit × Tape :=
  t.settled fun _ c => (.ok (), c.skipLayout)

/-- Skips to the next line feed. -/
def skipLine (t : Tape) : Except TapeError Unit × Tape :=
  t.settled fun _ c => (.ok (), c.skipLine)

/-- Reads the longest symbol at the index, if there is one. -/
def symbol? (t : Tape) : Option Token × Tape :=
  if t.index < 0 then (none, t)
  else t.onCursor fun c =>
    match Lexeme.symbol? c.rest with
    | some l => (some ⟨l.kind, l.value, c.pos⟩, c.past l.text l.rest)
    | none => (none, c)

/-- Reads up to and including the closing `quote` of a literal that starts at `start`; gives what
stands before it. A quote that is not one character closes nothing, except that the empty one
matches a character that cannot be seen. -/
def quoted (t : Tape) (quote : String) (start : Pos) : Except TapeError String × Tape :=
  if quote = "" ∧ t.index < 0 then
    match t.next with
    | (.ok _, t) => (.ok "", t)
    | (.error e, t) => (.error e, t)
  else t.settled fun seen c =>
    let close? := match quote.toList with
      | [q] =>
        let r := quotedBody q c.rest
        r.2.map fun rest => (r.1, q, rest)
      | _ => none
    match close? with
    | some (body, q, rest) => (.ok (String.ofList (seen ++ body)), c.past (body ++ [q]) rest)
    | none =>
      let literal := if quote.toList = [Literal.quote .string] then Literal.string else .character
      (.error (.lexical ⟨.unterminated literal, start⟩), c.past c.rest [])

/-- Reads one token. -/
def token (t : Tape) : Except TapeError Token × Tape :=
  t.settled fun _ c =>
    match c.next with
    | (.ok t, c) => (.ok t, c)
    | (.error e, c) => (.error (.lexical e), c)

end Tape

end ToyLang
