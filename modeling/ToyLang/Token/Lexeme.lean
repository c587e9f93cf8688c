import ToyLang.Token.Basic

/-!
# Layout and lexemes

A text is cut at its front. `layout` takes off blanks and comments, `lexeme` one lexeme from a text
that starts with neither; both keep the text they take beside the rest, so that nothing is lost
(`layout_append`, `lexeme_append`). A lexeme is never empty, which is what makes lexing end
(`rest_length_lt_of_lexeme`). Two things are cut off and make no token: a literal without its
closing quote, which takes the rest of the text with it, and a number of more digits than can be
converted, whatever its value (`scrap_append`).
-/

set_option autoImplicit false

namespace ToyLang

/-! ## Character classes -/

/-- The blanks between lexemes. -/
def isSpace (c : Char) : Bool := c = ' ' || c = '\t' || c = '\r' || c = '\n'

/-- The characters that start a word. -/
def isWordStart (c : Char) : Bool := c.isAlpha || c = '_'

/-- The characters that continue a word. -/
def isWordChar (c : Char) : Bool := c.isAlphanum || c = '_'

/-! ## Layout -/

/-- Splits off the blanks and comments at the front of a text. A comment runs from a number sign up
to the next line feed; the flag says that the text starts inside one. -/
def layout : Bool → List Char → List Char × List Char
  | _, [] => ([], [])
  | true, c :: cs => (layout (c ≠ '\n') cs).map (c :: ·) id
  | false, c :: cs =>
    if isSpace c then (layout false cs).map (c :: ·) id
    else if c = '#' then (layout true cs).map (c :: ·) id
    else ([], c :: cs)

theorem layout_append (inComment : Bool) (cs : List Char) :
    (layout inComment cs).1 ++ (layout inComment cs).2 = cs := by
  fun_induction layout inComment cs <;> simp_all

/-! ## Quoted literals -/

/-- The two kinds of quoted literal. -/
inductive Literal where
  | string | character
deriving DecidableEq, Repr

namespace Literal

/-- The word for the literal in messages. -/
def name : Literal → String
  | string => "string"
  | character => "character"

/-- The mark at both ends of the literal. -/
def quote : Literal → Char
  | string => '\x22'
  | character => '\x27'

end Literal

/-- The text up to the first `quote`, and what follows that quote, if there is one. -/
def quotedBody (quote : Char) (cs : List Char) : List Char × Option (List Char) :=
  (cs.takeWhile (· ≠ quote), (cs.dropWhile (· ≠ quote)).tail?)

/-! ## Lexemes -/

/-- A lexeme at the front of a text: what it makes, how it is written, and what follows it. -/
structure Lexeme where
  kind : TokenKind
  value : Payload
  text : List Char
  rest : List Char

/-- Why a stretch of text makes no token: a literal has no closing quote, or a number has more
digits than can be converted. -/
inductive Flaw where
  | unterminated (l : Literal)
  | tooLong (digits : Nat)
deriving DecidableEq, Repr

/-- A stretch at the front of a text that makes no token: why not, how it is written, and what
follows it. -/
structure Scrap where
  flaw : Flaw
  text : List Char
  rest : List Char

/-- The largest number that is a token: it fits into 64 bits. -/
def maxNumber : Nat := 18446744073709551615

/-- The most digits that can be converted to a number; zeros in front count. -/
def maxDigits : Nat := 4300

/-- The value of a row of decimal digits. -/
def decimal (digits : List Char) : Nat :=
  digits.foldl (fun n d => 10 * n + (d.toNat - '0'.toNat)) 0

namespace Lexeme

/-- The lexeme of a kind that carries its own text. -/
def verbatim (kind : TokenKind) (text rest : List Char) : Lexeme :=
  ⟨kind, .text (String.ofList text), text, rest⟩

/-- A word, whose kind the vocabulary decides. -/
def word (cs : List Char) : Lexeme :=
  verbatim (.ofWord (String.ofList (cs.takeWhile isWordChar))) (cs.takeWhile isWordChar)
    (cs.dropWhile isWordChar)

/-- A number with these digits, if they can be converted; one that is too large is an error and
keeps them. -/
def ofDigits (digits rest : List Char) : Except Scrap Lexeme :=
  if maxDigits < digits.length then .error ⟨.tooLong digits.length, digits, rest⟩
  else if decimal digits ≤ maxNumber then .ok ⟨.number, .int (decimal digits), digits, rest⟩
  else .ok (verbatim .error digits rest)

/-- The number at the front of a text. -/
def number (cs : List Char) : Except Scrap Lexeme :=
  ofDigits (cs.takeWhile Char.isDigit) (cs.dropWhile Char.isDigit)

/-- How a literal is written: its body between two quotes. -/
def literalText (l : Literal) (body : List Char) : List Char := l.quote :: (body ++ [l.quote])

/-- A literal; a character literal that does not hold one character is an error and keeps its
quotes. -/
def literal (l : Literal) (body rest : List Char) : Lexeme :=
  match l, body with
  | .string, _ => ⟨.string, .text (String.ofList body), literalText l body, rest⟩
  | .character, [_] => ⟨.char, .text (String.ofList body), literalText l body, rest⟩
  | .character, _ => verbatim .error (literalText l body) rest

/-- A symbol written exactly as `text`. -/
def exactSymbol? (text rest : List Char) : Option Lexeme :=
  (TokenKind.ofSymbol? (String.ofList text)).map fun k => verbatim k text rest

/-- The longest symbol at the front of a text. -/
def symbol? : List Char → Option Lexeme
  | a :: b :: cs => (exactSymbol? [a, b] cs).or (exactSymbol? [a] (b :: cs))
  | [a] => exactSymbol? [a] []
  | [] => none

end Lexeme

/-- The lexeme at the front of a text that starts with `c`, or the stretch there that makes no
token. A character that starts nothing is an error. -/
def lexeme (c : Char) (cs : List Char) : Except Scrap Lexeme :=
  if isWordStart c then .ok (.word (c :: cs))
  else if c.isDigit then Lexeme.number (c :: cs)
  else if c = Literal.quote .string then literal .string
  else if c = Literal.quote .character then literal .character
  else .ok ((Lexeme.symbol? (c :: cs)).getD (.verbatim .error [c] cs))
where
  /-- The literal whose opening quote is `c`. -/
  literal (l : Literal) : Except Scrap Lexeme :=
    match quotedBody l.quote cs with
    | (body, some rest) => .ok (.literal l body rest)
    | (_, none) => .error ⟨.unterminated l, l.quote :: cs, []⟩

/-! ## Nothing is lost -/

theorem eq_append_of_quotedBody {q : Char} {cs body rest : List Char}
    (h : quotedBody q cs = (body, some rest)) : cs = body ++ q :: rest := by
  simp only [quotedBody, Prod.mk.injEq] at h
  obtain ⟨rfl, h⟩ := h
  have split := List.takeWhile_append_dropWhile (p := (· ≠ q)) (l := cs)
  have head := List.head?_dropWhile_not (· ≠ q) cs
  revert split h head
  rcases cs.dropWhile (· ≠ q) with _ | ⟨a, r⟩
  · simp [List.tail?]
  · intro split h head
    simp_all [List.tail?]

theorem Lexeme.symbol?_append {cs : List Char} {l : Lexeme} (h : Lexeme.symbol? cs = some l) :
    l.text ++ l.rest = cs ∧ l.text ≠ [] := by
  have exact {text rest : List Char} (h : exactSymbol? text rest = some l) :
      l.text = text ∧ l.rest = rest := by
    simp only [exactSymbol?, Option.map_eq_some_iff] at h
    obtain ⟨k, _, rfl⟩ := h
    exact ⟨rfl, rfl⟩
  match cs, h with
  | [a], h => simp [exact h]
  | a :: b :: cs, h =>
    rcases Option.or_eq_some_iff.1 h with h | ⟨_, h⟩ <;> simp [exact h]

/-- Digits are kept as they are written, whether they can be converted or not. -/
theorem Lexeme.ofDigits_parts (digits rest : List Char) :
    match ofDigits digits rest with
    | .ok l => l.text = digits ∧ l.rest = rest
    | .error r => r.text = digits ∧ r.rest = rest := by
  by_cases long : maxDigits < digits.length
  · rw [ofDigits, if_pos long]
    exact ⟨rfl, rfl⟩
  rw [ofDigits, if_neg long]
  by_cases fits : decimal digits ≤ maxNumber
  · rw [if_pos fits]
    exact ⟨rfl, rfl⟩
  · rw [if_neg fits]
    exact ⟨rfl, rfl⟩

/-- A lexeme and what follows it make up the text it was cut from. -/
theorem lexeme_append {c : Char} {cs : List Char} {l : Lexeme} (h : lexeme c cs = .ok l) :
    l.text ++ l.rest = c :: cs ∧ l.text ≠ [] := by
  have ofLiteral {k : Literal} (hc : c = k.quote) (h : lexeme.literal cs k = .ok l) :
      l.text ++ l.rest = c :: cs ∧ l.text ≠ [] := by
    unfold lexeme.literal at h
    split at h
    · next body rest hb =>
      cases h
      have := eq_append_of_quotedBody hb
      unfold Lexeme.literal
      split <;> simp_all [Lexeme.verbatim, Lexeme.literalText]
    · cases h
  unfold lexeme at h
  split at h
  · next hs =>
    cases h
    have : isWordChar c = true := by
      simp only [isWordStart, isWordChar, Char.isAlphanum, Bool.or_eq_true] at hs ⊢
      exact hs.imp_left .inl
    simp [Lexeme.word, Lexeme.verbatim, this]
  split at h
  · next hd =>
    rw [Lexeme.number] at h
    have := Lexeme.ofDigits_parts ((c :: cs).takeWhile Char.isDigit)
      ((c :: cs).dropWhile Char.isDigit)
    rw [h] at this
    rw [this.1, this.2, List.takeWhile_append_dropWhile]
    exact ⟨rfl, by simp [hd]⟩
  split at h
  · next hc => exact ofLiteral hc h
  split at h
  · next hc => exact ofLiteral hc h
  cases hs : Lexeme.symbol? (c :: cs) with
  | some l' =>
    rw [hs] at h
    cases h
    exact Lexeme.symbol?_append hs
  | none =>
    rw [hs] at h
    cases h
    simp [Lexeme.verbatim]

/-- What makes no token and what follows it make up the text it was cut from. -/
theorem scrap_append {c : Char} {cs : List Char} {r : Scrap} (h : lexeme c cs = .error r) :
    r.text ++ r.rest = c :: cs := by
  have ofLiteral {k : Literal} (hc : c = k.quote) (h : lexeme.literal cs k = .error r) :
      r.text ++ r.rest = c :: cs := by
    unfold lexeme.literal at h
    split at h
    · cases h
    · cases h
      rw [List.append_nil, hc]
  unfold lexeme at h
  split at h
  · cases h
  split at h
  · rw [Lexeme.number] at h
    have := Lexeme.ofDigits_parts ((c :: cs).takeWhile Char.isDigit)
      ((c :: cs).dropWhile Char.isDigit)
    rw [h] at this
    rw [this.1, this.2, List.takeWhile_append_dropWhile]
  split at h
  · next hc => exact ofLiteral hc h
  split at h
  · next hc => exact ofLiteral hc h
  cases h

/-- What follows a lexeme is shorter than the text the lexeme was cut from. -/
theorem rest_length_lt_of_lexeme {c : Char} {cs : List Char} {l : Lexeme}
    (h : lexeme c cs = .ok l) : l.rest.length < (c :: cs).length := by
  obtain ⟨happ, hne⟩ := lexeme_append h
  rw [← happ, List.length_append]
  have := List.length_pos_iff.2 hne
  omega

end ToyLang
