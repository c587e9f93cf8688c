import ToyLang.Token.Lexeme

/-!
# Reading tokens from a text

A cursor is the unread part of a text and its position. `Cursor.next` reads one token: it skips the
layout and cuts off one lexeme, or gives the end mark where nothing is left. It fails at what makes
no token: behind a literal without its end nothing is left, behind a number that cannot be converted
the text goes on. `Cursor.tokens` reads on to the end mark or to the first failure; it ends because
every other token leaves less text behind (`rest_length_lt_of_next`).
-/

set_option autoImplicit false

namespace ToyLang

/-- What makes no token, and where it starts. -/
structure LexicalError where
  flaw : Flaw
  pos : Pos
deriving DecidableEq

/-- The error in words. A number that cannot be converted is reported without its place. -/
def LexicalError.message (e : LexicalError) : String :=
  match e.flaw with
  | .unterminated l => s!"Unterminated {l.name} literal at line {e.pos.line}, col {e.pos.col}"
  | .tooLong digits =>
    s!"Exceeds the limit ({maxDigits} digits) for integer string conversion: " ++
      s!"value has {digits} digits; use sys.set_int_max_str_digits() to increase the limit"

/-- The unread part of a text, and where it starts. -/
structure Cursor where
  rest : List Char
  pos : Pos := .start
deriving DecidableEq

namespace Cursor

/-- The cursor at the start of a text. -/
def ofText (s : String) : Cursor := ⟨s.toList, .start⟩

/-- The cursor behind `text`, with `rest` unread. -/
def past (c : Cursor) (text rest : List Char) : Cursor := ⟨rest, c.pos.after text⟩

/-- The cursor behind the blanks and comments in front of it. -/
def skipLayout (c : Cursor) : Cursor :=
  c.past (layout false c.rest).1 (layout false c.rest).2

/-- The cursor before the next line feed. -/
def skipLine (c : Cursor) : Cursor :=
  c.past (c.rest.takeWhile (· ≠ '\n')) (c.rest.dropWhile (· ≠ '\n'))

/-- The lexeme at the cursor, which stands behind the layout. -/
def read (c : Cursor) : Except LexicalError Token × Cursor :=
  match c.rest with
  | [] => (.ok (.endMark c.pos), c)
  | ch :: cs =>
    match lexeme ch cs with
    | .ok l => (.ok ⟨l.kind, l.value, c.pos⟩, c.past l.text l.rest)
    | .error r => (.error ⟨r.flaw, c.pos⟩, c.past r.text r.rest)

/-- The next token, and the cursor behind it. -/
def next (c : Cursor) : Except LexicalError Token × Cursor := c.skipLayout.read

theorem skipLayout_rest_length_le (c : Cursor) : c.skipLayout.rest.length ≤ c.rest.length := by
  have := congrArg List.length (layout_append false c.rest)
  simp only [List.length_append] at this
  simp only [skipLayout, past]
  omega

/-- Every token but the end mark leaves less text unread. -/
theorem rest_length_lt_of_next {c c' : Cursor} {t : Token} (h : c.next = (.ok t, c'))
    (ht : t.kind ≠ .eof) : c'.rest.length < c.rest.length := by
  have hle := c.skipLayout_rest_length_le
  revert h
  simp only [next, read]
  split
  · rintro ⟨⟩
    exact absurd rfl ht
  · next ch cs hr =>
    split
    · next l hl =>
      rintro ⟨⟩
      have := rest_length_lt_of_lexeme hl
      rw [hr] at hle
      exact Nat.lt_of_lt_of_le this hle
    · rintro ⟨⟩

/-- The tokens up to and including the end mark, or those before the failure and the failure. -/
def tokens (c : Cursor) : List Token × Option LexicalError :=
  match _h : c.next with
  | (.ok t, c') =>
    if _ht : t.kind = .eof then ([t], none)
    else c'.tokens.map (t :: ·) id
  | (.error e, _) => ([], some e)
termination_by c.rest.length
decreasing_by exact rest_length_lt_of_next _h _ht

end Cursor

end ToyLang
