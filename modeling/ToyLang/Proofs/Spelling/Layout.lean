import ToyLang.Proofs.Lexing.Text
import ToyLang.Proofs.Printing.Expression

/-!
# Tokens written with any layout

A token that the lexer can make has a text (`Spelled`); between two texts there is layout, blanks
and comments in any order (`Spacing`). A row of tokens with layout around and between them is a
`Writing`. No lexeme reads on into the layout behind it, since all layout starts with a boundary
(`Spacing.bounded_texts`), and no layout reads on into what follows, since a comment ends at its
line feed (`Lexes.comment`). So the text is read as these tokens, unless a number among them has too
many digits, even if these are zeros (`paddedZero_unread`): then it is read up to there
(`writing_lexed`).
-/

set_option autoImplicit false

namespace ToyLang

variable {cs body : List Char} {ts us : List Token} {f : Option Flaw}

/-! ## Layout -/

/-- A comment is skipped up to the line feed behind it, or to the end of the text. -/
theorem Lexes.comment (hbody : '\n' ∉ body) (hend : ∀ c ∈ cs.head?, c = '\n')
    (h : Lexes cs ts f) : Lexes ('#' :: (body ++ cs)) ts f := by
  intro pos
  have hn : (Cursor.mk ('#' :: (body ++ cs)) pos).next =
      (Cursor.mk cs (pos.after ('#' :: body))).next := by
    simp [Cursor.next, Cursor.skipLayout, Cursor.past, layout, isSpace, layout_comment hbody hend,
      ← Pos.after_append]
  rw [Cursor.tokens_congr hn]
  exact h _

/-- A piece of layout: a blank, or a comment with the line feed that ends it. -/
inductive Spacing where
  | blank (c : Char) (isBlank : c ∈ [' ', '\t', '\r', '\n'])
  | comment (body : List Char) (oneLine : '\n' ∉ body)

namespace Spacing

/-- How the piece is written. -/
def text : Spacing → List Char
  | blank c _ => [c]
  | comment body _ => '#' :: (body ++ ['\n'])

/-- How some pieces in a row are written. -/
def texts (gap : List Spacing) : List Char := gap.flatMap text

theorem closed_text (s : Spacing) : Closed s.text [] := by
  intro rest us f hrest
  cases s with
  | blank c isBlank => exact hrest.space (isSpace_iff.2 isBlank)
  | comment body oneLine =>
    have hline : Lexes ('\n' :: rest) us f := hrest.space rfl
    have := hline.comment oneLine (fun c hc => (by cases hc; rfl))
    simpa [text] using this

theorem closed_texts (gap : List Spacing) : Closed (texts gap) [] := by
  induction gap with
  | nil => exact closed_nil
  | cons s gap ih => exact s.closed_text.append ih

/-- What stands before layout ends there. -/
theorem bounded_texts {gap : List Spacing} (h : gap ≠ []) (rest : List Char) :
    Bounded (texts gap ++ rest) := by
  obtain ⟨s, gap, rfl⟩ := List.exists_cons_of_ne_nil h
  cases s with
  | blank c isBlank =>
    simp only [List.mem_cons, List.not_mem_nil, or_false] at isBlank
    rcases isBlank with rfl | rfl | rfl | rfl
    all_goals exact bounded_cons rfl
  | comment body oneLine => exact bounded_cons rfl

end Spacing

/-! ## Tokens -/

/-- A token together with the way it is written: an entry of the table of spellings, a name, a
number in any number of digits, a string or a character. -/
inductive Spelled where
  | entry (s : String) (k : TokenKind) (listed : (s, k) ∈ TokenKind.spellings)
  | name (s : String) (isName : IsName s)
  | number (n : Nat) (fits : n ≤ maxNumber) (digits : List Char) (nonempty : digits ≠ [])
      (allDigits : ∀ c ∈ digits, c.isDigit = true) (value : Nat.ofDigitChars 10 digits 0 = n)
  | string (s : String) (noQuote : '\x22' ∉ s.toList)
  | char (c : Char) (noQuote : c ≠ '\x27')

namespace Spelled

/-- The token, at no position. -/
def token : Spelled → Token
  | entry s k _ => ⟨k, .text s, ⟨0, 0⟩⟩
  | name s _ => ⟨.ident, .text s, ⟨0, 0⟩⟩
  | number n _ _ _ _ _ => ⟨.number, .int n, ⟨0, 0⟩⟩
  | string s _ => ⟨.string, .text s, ⟨0, 0⟩⟩
  | char c _ => ⟨.char, .text (String.ofList [c]), ⟨0, 0⟩⟩

/-- How the token is written. -/
def text : Spelled → List Char
  | entry s _ _ | name s _ => s.toList
  | number _ _ digits _ _ _ => digits
  | string s _ => '\x22' :: (s.toList ++ ['\x22'])
  | char c _ => ['\x27', c, '\x27']

/-- The entries of the table are read as what they stand for. -/
theorem spells_entry {s : String} {k : TokenKind} (listed : (s, k) ∈ TokenKind.spellings) :
    Spells s.toList [⟨k, .text s, ⟨0, 0⟩⟩] := by
  obtain ⟨l, -, hl⟩ := List.mem_filterMap.1 listed
  obtain ⟨s', hs, heq⟩ := Option.map_eq_some_iff.1 hl
  cases heq
  cases k with
  | keyword k =>
    cases hs
    exact spells_keyword k
  | type t =>
    cases hs
    have := spells_scalar t
    rwa [Token.ofWord_scalar] at this
  | punct p =>
    cases hs
    exact spells_punct p
  | operator o =>
    cases hs
    exact spells_operator o
  | _ => cases hs

/-- The token is no number, or one that is written with at most 4300 digits. -/
def Convertible : Spelled → Prop
  | number _ _ digits _ _ _ => digits.length ≤ 4300
  | _ => True

instance : DecidablePred Convertible
  | number _ _ digits _ _ _ => inferInstanceAs (Decidable (digits.length ≤ 4300))
  | entry .. | name .. | string .. | char .. => .isTrue trivial

/-- A token is read off its text where a boundary follows. -/
theorem spells {s : Spelled} (h : s.Convertible) : Spells s.text [s.token] := by
  cases s with
  | entry s k listed => exact spells_entry listed
  | name s isName =>
    have := spells_name isName
    rwa [isName.token] at this
  | number n fits digits nonempty allDigits value =>
    subst value
    exact spells_number nonempty allDigits h fits
  | string s noQuote =>
    have := (closed_string noQuote).spells
    rwa [String.ofList_toList] at this
  | char c noQuote => exact (closed_char noQuote).spells

/-- A number of more digits is not read where a boundary follows. -/
theorem breaksOff {s : Spelled} (h : ¬s.Convertible) (hbound : Bounded cs) :
    Lexes (s.text ++ cs) [] (some (.tooLong s.text.length)) := by
  cases s with
  | number n fits digits nonempty allDigits value =>
    have hscrap : IsScrap (.tooLong digits.length) digits cs :=
      .tooLong allDigits (fun d hd hdigit => absurd (isWordChar_of_isDigit hdigit)
        (Bool.eq_false_iff.1 (isWordChar_of_boundary (hbound d hd)))) (Nat.not_le.1 h)
    intro pos
    have htokens := tokens_of_scrap (.nil _) hscrap pos
    rw [List.nil_append] at htokens
    rw [text, htokens]
    exact ⟨rfl, rfl⟩
  | _ => exact absurd trivial h

end Spelled

/-! ## Rows of tokens -/

/-- Tokens written out: some layout, then each token with the layout behind it, and perhaps a
comment that the end of the text ends. Two tokens have layout between them. -/
structure Writing where
  lead : List Spacing := []
  row : List (Spelled × List Spacing)
  apart : ∀ p ∈ row.dropLast, p.2 ≠ []
  lastComment : Option { body : List Char // '\n' ∉ body } := none

namespace Writing

/-- The text of tokens with their layout. -/
def rowText (row : List (Spelled × List Spacing)) : List Char :=
  row.flatMap fun p => p.1.text ++ Spacing.texts p.2

/-- The text of the comment at the end. -/
def commentText (comment : Option { body : List Char // '\n' ∉ body }) : List Char :=
  comment.elim [] fun body => '#' :: body.val

/-- The whole text. -/
def text (w : Writing) : String :=
  String.ofList (Spacing.texts w.lead ++ (rowText w.row ++ commentText w.lastComment))

/-- The tokens, at no position. -/
def tokens (w : Writing) : List Token := w.row.map fun p => p.1.token

/-- A token alone, without layout. -/
def single (s : Spelled) : Writing where
  row := [(s, [])]
  apart := fun _ hp => absurd hp List.not_mem_nil

theorem text_single (s : Spelled) : (single s).text = String.ofList s.text := by
  simp [single, text, rowText, commentText, Spacing.texts]

/-- The comment at the end is a boundary and is read as nothing. -/
theorem commentText_ends (comment : Option { body : List Char // '\n' ∉ body }) :
    Bounded (commentText comment) ∧ Yields (commentText comment) [] := by
  cases comment with
  | none =>
    refine ⟨fun c hc => ?_, yields_nil⟩
    cases hc
  | some body =>
    refine ⟨bounded_cons rfl, ?_⟩
    have := yields_nil.comment body.property (fun c hc => (by cases hc))
    rwa [List.append_nil] at this

/-- Behind a token there is a boundary: layout, or the end of the row and what follows it. -/
theorem bounded_behind {p : Spelled × List Spacing} {row : List (Spelled × List Spacing)}
    (apart : ∀ q ∈ (p :: row).dropLast, q.2 ≠ []) {rest : List Char} (hbound : Bounded rest) :
    Bounded (Spacing.texts p.2 ++ (rowText row ++ rest)) := by
  cases row with
  | nil =>
    cases hgap : p.2 with
    | nil => exact hbound
    | cons s gap => exact Spacing.bounded_texts (List.cons_ne_nil s gap) _
  | cons q row => exact Spacing.bounded_texts (apart p List.mem_cons_self) _

theorem apart_tail {p : Spelled × List Spacing} {row : List (Spelled × List Spacing)}
    (apart : ∀ q ∈ (p :: row).dropLast, q.2 ≠ []) : ∀ q ∈ row.dropLast, q.2 ≠ [] := by
  cases row with
  | nil => exact fun q hq => absurd hq List.not_mem_nil
  | cons _ _ => exact fun q hq => apart q (List.mem_cons_of_mem p hq)

/-- What follows a token and its layout is read behind the token. -/
theorem lexes_cons {p : Spelled × List Spacing} {row : List (Spelled × List Spacing)}
    (apart : ∀ q ∈ (p :: row).dropLast, q.2 ≠ []) (hp : p.1.Convertible) {rest : List Char}
    (hbound : Bounded rest) (h : Lexes (rowText row ++ rest) ts f) :
    Lexes (rowText (p :: row) ++ rest) (p.1.token :: ts) f := by
  have := Spelled.spells hp _ _ _ (bounded_behind apart hbound) (Spacing.closed_texts p.2 _ _ _ h)
  simpa [rowText] using this

/-- The tokens are read off the row, one after the other. -/
theorem lexes_row {row : List (Spelled × List Spacing)} (apart : ∀ p ∈ row.dropLast, p.2 ≠ [])
    (hrow : ∀ p ∈ row, p.1.Convertible) {rest : List Char} (hbound : Bounded rest)
    (hrest : Lexes rest us f) :
    Lexes (rowText row ++ rest) ((row.map fun p => p.1.token) ++ us) f := by
  induction row with
  | nil => exact hrest
  | cons p row ih =>
    obtain ⟨hp, hrow⟩ := List.forall_mem_cons.1 hrow
    exact lexes_cons apart hp hbound (ih (apart_tail apart) hrow)

/-- They are read up to a number that has too many digits. -/
theorem lexes_row_up_to {before behind : List (Spelled × List Spacing)}
    {p : Spelled × List Spacing} (apart : ∀ q ∈ (before ++ p :: behind).dropLast, q.2 ≠ [])
    (hbefore : ∀ q ∈ before, q.1.Convertible) (hp : ¬p.1.Convertible) {rest : List Char}
    (hbound : Bounded rest) :
    Lexes (rowText (before ++ p :: behind) ++ rest) (before.map fun q => q.1.token)
      (some (.tooLong p.1.text.length)) := by
  induction before with
  | nil =>
    have := Spelled.breaksOff hp (bounded_behind apart hbound)
    simpa [rowText] using this
  | cons q before ih =>
    obtain ⟨hq, hbefore⟩ := List.forall_mem_cons.1 hbefore
    exact lexes_cons apart hq hbound (ih (apart_tail apart) hbefore)

end Writing

/-- **Tokens survive being written out with any layout** if no number among them is written with
more than 4300 digits: lexing the text does not break off, and it gives the tokens that were
written, kinds and payloads, and one end mark. Otherwise lexing breaks off at the first such number,
and it gives the tokens before it. -/
theorem writing_lexed (w : Writing) :
    ((∀ p ∈ w.row, p.1.Convertible) →
      ∃ ts, (Cursor.ofText w.text).tokens = (ts, none) ∧
        ts.map Token.bare = w.tokens ++ [.endMark ⟨0, 0⟩]) ∧
    ((∃ p ∈ w.row, ¬p.1.Convertible) →
      ∃ before p behind ts pos, w.row = before ++ p :: behind ∧
        (∀ q ∈ before, q.1.Convertible) ∧ ¬p.1.Convertible ∧
        (Cursor.ofText w.text).tokens = (ts, some ⟨.tooLong p.1.text.length, pos⟩) ∧
        ts.map Token.bare = before.map fun q => q.1.token) := by
  obtain ⟨hbound, hcomment⟩ := Writing.commentText_ends w.lastComment
  have htext {ts f} (h : Lexes (Writing.rowText w.row ++ Writing.commentText w.lastComment) ts f) :
      (Cursor.ofText w.text).tokens.1.map Token.bare = ts ∧
        (Cursor.ofText w.text).tokens.2.map LexicalError.flaw = f := by
    rw [Cursor.ofText, Writing.text, String.toList_ofList]
    exact Spacing.closed_texts w.lead _ _ _ h .start
  constructor
  · intro hrow
    obtain ⟨htokens, hend⟩ := htext (Writing.lexes_row w.apart hrow hbound hcomment)
    exact ⟨_, Prod.ext rfl (Option.map_eq_none_iff.1 hend), htokens⟩
  · rintro ⟨p, hmem, hp⟩
    -- the first of those that cannot be converted
    have hsome : (w.row.find? fun p => ¬p.1.Convertible).isSome :=
      List.find?_isSome.2 ⟨p, hmem, decide_eq_true hp⟩
    obtain ⟨p, hfind⟩ := Option.isSome_iff_exists.1 hsome
    obtain ⟨hp, before, behind, hsplit, hbefore⟩ := List.find?_eq_some_iff_append.1 hfind
    simp only [decide_eq_true_eq, Bool.not_eq_true', decide_eq_false_iff_not, not_not] at hp hbefore
    have apart := w.apart
    rw [hsplit] at htext apart
    obtain ⟨htokens, hend⟩ := htext (Writing.lexes_row_up_to apart hbefore hp hbound)
    obtain ⟨⟨flaw, pos⟩, he, rfl⟩ := Option.map_eq_some_iff.1 hend
    exact ⟨before, p, behind, _, pos, hsplit, hbefore, hp, Prod.ext rfl he, htokens⟩

/-- Zero is not read where it is written with 4301 digits and nothing else. -/
theorem paddedZero_unread :
    ∃ w : Writing, w.tokens = [⟨.number, .int 0, ⟨0, 0⟩⟩] ∧
      w.text = String.ofList (List.replicate 4301 '0') ∧
      (Cursor.ofText w.text).tokens = ([], some ⟨.tooLong 4301, ⟨1, 1⟩⟩) := by
  have digits : ∀ c ∈ List.replicate 4301 '0', c.isDigit = true := fun c hc => by
    rw [List.eq_of_mem_replicate hc]
    rfl
  have htokens := tokens_replicate (n := 4301) (c := '0') [] rfl (by decide) (by simp)
  have htext := Writing.text_single
    (.number 0 (by decide) (List.replicate 4301 '0') (List.cons_ne_nil _ _) digits
      (ofDigitChars_zeros 4301))
  rw [List.append_nil] at htokens
  refine ⟨_, rfl, htext, ?_⟩
  rw [htext]
  exact htokens

/-- A comment may stand between two tokens, and nothing need stand behind the last one. -/
example : (Writing.mk [] [(.name "a" (by decide), [.comment ['b'] (by decide)]),
    (.number 7 (by decide) ['0', '7'] (by simp) (by simp) (by decide), [])]
    (by decide) none).text = "a#b\n07" := rfl

end ToyLang
