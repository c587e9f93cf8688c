import Mathlib.Algebra.Group.Nat.Defs
import ToyLang.Proofs.Spelling.Text

/-!
# What layout and lexemes are

Relations between a stretch of text and what follows it, stated without the functions that cut texts
apart.

* `IsLayout w rest`: the stretch `w` is blanks and comments.
* `IsLexeme k v text rest`: the stretch `text` makes a token of kind `k` with the payload `v`, and
  is as long as it can be.
* `IsScrap f text rest`: the stretch `text` makes no token, for the reason `f`.

What is cut off a text is the one stretch in these relations: `IsLayout.layout_eq` and
`isLayout_layout` for layout, `IsLexeme.lexeme_eq`, `IsScrap.lexeme_eq` and `lexeme_cases` for all
else.
-/

set_option autoImplicit false

namespace ToyLang

variable {c : Char} {cs w text rest : List Char}

/-! ## Layout -/

/-- The stretch `w` is blanks and comments where `rest` follows. A comment runs from a number sign
up to the next line feed or to the end of the text. -/
inductive IsLayout : List Char → List Char → Prop
  | nil (rest : List Char) : IsLayout [] rest
  | blank {c : Char} {w rest : List Char} (hc : c ∈ [' ', '\t', '\r', '\n'])
      (hw : IsLayout w rest) : IsLayout (c :: w) rest
  | comment {body w rest : List Char} (hbody : '\n' ∉ body)
      (hend : ∀ c ∈ (w ++ rest).head?, c = '\n') (hw : IsLayout w rest) :
      IsLayout ('#' :: (body ++ w)) rest

/-- The text starts with neither a blank nor a comment. -/
def LayoutFree (cs : List Char) : Prop := ∀ c ∈ cs.head?, isSpace c = false ∧ c ≠ '#'

theorem isSpace_iff : isSpace c = true ↔ c ∈ [' ', '\t', '\r', '\n'] := by
  simp [isSpace, or_assoc]

theorem layout_of_free (h : LayoutFree cs) : layout false cs = ([], cs) := by
  cases cs with
  | nil => rfl
  | cons c cs =>
    obtain ⟨hspace, hcomment⟩ := h c rfl
    simp [layout, hspace, hcomment]

/-- A comment is taken off up to the line feed that ends it. -/
theorem layout_comment {body : List Char} (hbody : '\n' ∉ body)
    (hend : ∀ c ∈ cs.head?, c = '\n') :
    layout true (body ++ cs) = (layout false cs).map (body ++ ·) id := by
  induction body with
  | nil =>
    cases cs with
    | nil => rfl
    | cons c cs =>
      cases hend c rfl
      simp [layout, isSpace, Prod.map]
  | cons d body ih =>
    obtain ⟨hd, hbody⟩ := not_or.1 (mt List.mem_cons.2 hbody)
    have hd : d ≠ '\n' := fun h => hd h.symm
    simp [layout, hd, ih hbody, Prod.map]

/-- Layout is taken off before whatever is taken off behind it. -/
theorem IsLayout.layout_map (h : IsLayout w rest) :
    layout false (w ++ rest) = (layout false rest).map (w ++ ·) id := by
  induction h with
  | nil rest => rfl
  | blank hc _ ih => simp [layout, isSpace_iff.2 hc, ih, Prod.map]
  | comment hbody hend _ ih =>
    simp [layout, isSpace, List.append_assoc, layout_comment hbody hend, ih, Prod.map]

theorem IsLayout.layout_eq (h : IsLayout w rest) (hrest : LayoutFree rest) :
    layout false (w ++ rest) = (w, rest) := by
  rw [h.layout_map, layout_of_free hrest]
  exact Prod.ext (List.append_nil w) rfl

theorem layoutFree_layout (inComment : Bool) (cs : List Char) :
    LayoutFree (layout inComment cs).2 := by
  fun_induction layout inComment cs with
  | case1 => exact fun c hc => by cases hc
  | case2 c cs ih => exact ih
  | case3 c cs _ ih => exact ih
  | case4 cs _ ih => exact ih
  | case5 c cs hspace hcomment =>
    intro d hd
    cases hd
    exact ⟨Bool.eq_false_iff.2 hspace, hcomment⟩

/-- What is taken off is layout; inside a comment the rest of the comment comes first. -/
theorem isLayout_of_layout (cs : List Char) :
    IsLayout (layout false cs).1 (layout false cs).2 ∧
      ∃ body w, (layout true cs).1 = body ++ w ∧ '\n' ∉ body ∧
        (∀ c ∈ (w ++ (layout true cs).2).head?, c = '\n') ∧ IsLayout w (layout true cs).2 := by
  induction cs with
  | nil => exact ⟨.nil [], [], [], rfl, List.not_mem_nil, fun c hc => (by cases hc), .nil []⟩
  | cons c cs ih =>
    obtain ⟨out, body, w, hbody, hfree, hend, inside⟩ := ih
    constructor
    · rw [layout]
      split
      · next hc => exact .blank (isSpace_iff.1 hc) out
      split
      · next hc =>
        subst hc
        show IsLayout ('#' :: (layout true cs).1) (layout true cs).2
        rw [hbody]
        exact .comment hfree hend inside
      · exact .nil _
    · rw [layout]
      by_cases hc : c = '\n'
      · subst hc
        exact ⟨[], '\n' :: (layout false cs).1, rfl, List.not_mem_nil,
          fun c hc => (by cases hc; rfl), .blank (by decide) out⟩
      · rw [decide_eq_true hc]
        refine ⟨c :: body, w, ?_, ?_, hend, inside⟩
        · show c :: (layout true cs).1 = _
          rw [hbody, List.cons_append]
        · exact fun h => (List.mem_cons.1 h).elim (fun h => hc h.symm) hfree

theorem isLayout_layout (cs : List Char) : IsLayout (layout false cs).1 (layout false cs).2 :=
  (isLayout_of_layout cs).1

/-! ## Lexemes -/

/-- The kind of the word `w`: that of the keyword or of the type written so, or that of names. -/
def TokenKind.IsWordKind (k : TokenKind) (w : List Char) : Prop :=
  (∃ kw : Keyword, k = .keyword kw ∧ kw.spelling.toList = w) ∨
    (∃ s : Scalar, k = .type s ∧ s.spelling.toList = w) ∨
    k = .ident ∧ (∀ kw : Keyword, kw.spelling.toList ≠ w) ∧ ∀ s : Scalar, s.spelling.toList ≠ w

/-- The stretch `text` makes a token of kind `k` with the payload `v` where `rest` follows. -/
inductive IsLexeme : TokenKind → Payload → List Char → List Char → Prop
  /-- A word ends where no letter, digit or underscore follows. -/
  | word {k : TokenKind} {c : Char} {cs rest : List Char} (hk : k.IsWordKind (c :: cs))
      (start : c.isAlpha = true ∨ c = '_') (tail : ∀ d ∈ cs, d.isAlphanum = true ∨ d = '_')
      (maximal : ∀ d ∈ rest.head?, ¬(d.isAlphanum = true ∨ d = '_')) :
      IsLexeme k (.text (String.ofList (c :: cs))) (c :: cs) rest
  /-- A number ends where no digit follows, has at most 4300 digits and fits into 64 bits. -/
  | number {ds rest : List Char} (nonempty : ds ≠ []) (digits : ∀ d ∈ ds, d.isDigit = true)
      (maximal : ∀ d ∈ rest.head?, ¬d.isDigit = true) (short : ds.length ≤ 4300)
      (fits : Nat.ofDigitChars 10 ds 0 < 2 ^ 64) :
      IsLexeme .number (.int (Nat.ofDigitChars 10 ds 0)) ds rest
  /-- A number that does not fit is an error. -/
  | largeNumber {ds rest : List Char} (nonempty : ds ≠ []) (digits : ∀ d ∈ ds, d.isDigit = true)
      (maximal : ∀ d ∈ rest.head?, ¬d.isDigit = true) (short : ds.length ≤ 4300)
      (large : 2 ^ 64 ≤ Nat.ofDigitChars 10 ds 0) :
      IsLexeme .error (.text (String.ofList ds)) ds rest
  /-- A string is anything between two double quotes. -/
  | string {body rest : List Char} (hbody : '\x22' ∉ body) :
      IsLexeme .string (.text (String.ofList body)) ('\x22' :: (body ++ ['\x22'])) rest
  /-- A character stands between two single quotes. -/
  | char {c : Char} {rest : List Char} (hc : c ≠ '\x27') :
      IsLexeme .char (.text (String.ofList [c])) ['\x27', c, '\x27'] rest
  /-- Any other number of characters between single quotes is an error. -/
  | malformedChar {body rest : List Char} (hbody : '\x27' ∉ body) (length : body.length ≠ 1) :
      IsLexeme .error (.text (String.ofList ('\x27' :: (body ++ ['\x27']))))
        ('\x27' :: (body ++ ['\x27'])) rest
  /-- A symbol ends where the next character does not make a longer one. -/
  | symbol {k : TokenKind} {text rest : List Char} (hk : k.IsSymbol text)
      (maximal : ∀ c, text = [c] → ∀ d ∈ rest.head?, ∀ k, ¬TokenKind.IsSymbol k [c, d]) :
      IsLexeme k (.text (String.ofList text)) text rest
  /-- A character that starts nothing else is an error. -/
  | stray {c : Char} {rest : List Char} (layout : c ∉ [' ', '\t', '\r', '\n', '#'])
      (word : ¬(c.isAlphanum = true ∨ c = '_')) (quote : c ∉ ['\x22', '\x27'])
      (single : ∀ k, ¬TokenKind.IsSymbol k [c])
      (pair : ∀ d ∈ rest.head?, ∀ k, ¬TokenKind.IsSymbol k [c, d]) :
      IsLexeme .error (.text (String.ofList [c])) [c] rest

/-- The stretch `text` makes no token where `rest` follows. -/
inductive IsScrap : Flaw → List Char → List Char → Prop
  /-- A quote without a second one takes all that follows with it. -/
  | unterminated {l : Literal} {body : List Char} (hbody : l.quote ∉ body) :
      IsScrap (.unterminated l) (l.quote :: body) []
  /-- More than 4300 digits cannot be converted, whatever the number. -/
  | tooLong {ds rest : List Char} (digits : ∀ d ∈ ds, d.isDigit = true)
      (maximal : ∀ d ∈ rest.head?, ¬d.isDigit = true) (long : 4300 < ds.length) :
      IsScrap (.tooLong ds.length) ds rest

theorem isWordStart_iff : isWordStart c = true ↔ c.isAlpha = true ∨ c = '_' := by
  simp [isWordStart]

theorem isWordChar_iff : isWordChar c = true ↔ c.isAlphanum = true ∨ c = '_' := by
  simp [isWordChar]

theorem decimal_le_maxNumber_iff {ds : List Char} :
    decimal ds ≤ maxNumber ↔ Nat.ofDigitChars 10 ds 0 < 2 ^ 64 := by
  show Nat.ofDigitChars 10 ds 0 ≤ maxNumber ↔ _
  unfold maxNumber
  omega

/-- What becomes of digits depends on how many there are, and then on their number. -/
theorem ofDigits_of_length_le {ds : List Char} (h : ds.length ≤ 4300) (rest : List Char) :
    Lexeme.ofDigits ds rest =
      if decimal ds ≤ maxNumber then .ok ⟨.number, .int (decimal ds), ds, rest⟩
      else .ok (.verbatim .error ds rest) :=
  if_neg (Nat.not_lt.2 h)

theorem ofDigits_of_lt_length {ds : List Char} (h : 4300 < ds.length) (rest : List Char) :
    Lexeme.ofDigits ds rest = .error ⟨.tooLong ds.length, ds, rest⟩ :=
  if_pos h

theorem TokenKind.isWordKind_iff {k : TokenKind} :
    k.IsWordKind w ↔ TokenKind.ofWord (String.ofList w) = k := by
  have hlist (s : String) : s.toList = w ↔ s = String.ofList w := by
    rw [← String.toList_inj, String.toList_ofList]
  have hdisjoint (s : Scalar) : Keyword.ofSpelling? s.spelling = none := by cases s <;> decide
  simp only [IsWordKind, ne_eq, hlist]
  unfold ofWord
  constructor
  · rintro (⟨kw, rfl, h⟩ | ⟨s, rfl, h⟩ | ⟨rfl, hkw, hs⟩)
    · rw [← h, Keyword.ofSpelling?_spelling]
    · rw [← h, hdisjoint, Scalar.ofSpelling?_spelling]
    · split
      · next kw h => exact absurd (Keyword.ofSpelling?_eq_some_iff.1 h) (hkw kw)
      · next s _ h => exact absurd (Scalar.ofSpelling?_eq_some_iff.1 h) (hs s)
      · rfl
  · intro h
    split at h
    · next kw hkw => exact .inl ⟨kw, h.symm, Keyword.ofSpelling?_eq_some_iff.1 hkw⟩
    · next s _ hs => exact .inr (.inl ⟨s, h.symm, Scalar.ofSpelling?_eq_some_iff.1 hs⟩)
    · next hkw hs =>
      refine .inr (.inr ⟨h.symm, fun kw he => ?_, fun s he => ?_⟩)
      · rw [Keyword.ofSpelling?_eq_some_iff.2 he] at hkw
        cases hkw
      · rw [Scalar.ofSpelling?_eq_some_iff.2 he] at hs
        cases hs

/-- A character literal that does not hold one character is an error. -/
theorem Lexeme.literal_malformed {body : List Char} (h : body.length ≠ 1) :
    Lexeme.literal .character body rest = .verbatim .error (literalText .character body) rest := by
  unfold Lexeme.literal
  split
  · next heq => cases heq
  · exact absurd rfl h
  · rfl

theorem layoutFree_iff : c ∉ [' ', '\t', '\r', '\n', '#'] ↔ isSpace c = false ∧ c ≠ '#' := by
  rw [Bool.eq_false_iff, ne_eq, isSpace_iff]
  simp [and_assoc]

/-- Where no other lexeme starts there is a symbol or an error. -/
theorem lexeme_other (word : ¬(c.isAlphanum = true ∨ c = '_')) (quote : c ∉ ['\x22', '\x27'])
    (cs : List Char) :
    lexeme c cs = .ok ((Lexeme.symbol? (c :: cs)).getD (.verbatim .error [c] cs)) := by
  have hstart : isWordStart c = false :=
    Bool.eq_false_iff.2 (mt isWordChar_of_start (mt isWordChar_iff.1 word))
  have hdigit : c.isDigit = false :=
    Bool.eq_false_iff.2 (mt isWordChar_of_isDigit (mt isWordChar_iff.1 word))
  simp only [List.mem_cons, List.not_mem_nil, or_false, not_or] at quote
  simp [lexeme, hstart, hdigit, Literal.quote, quote]

theorem exactSymbol?_eq_none_iff :
    Lexeme.exactSymbol? text rest = none ↔ ∀ k, ¬TokenKind.IsSymbol k text := by
  rw [Lexeme.exactSymbol?, Option.map_eq_none_iff, Option.eq_none_iff_forall_ne_some]
  simp only [ne_eq, TokenKind.IsSymbol.ofSymbol?_eq_some_iff]

theorem symbol?_eq_none_iff :
    Lexeme.symbol? (c :: rest) = none ↔
      (∀ k, ¬TokenKind.IsSymbol k [c]) ∧ ∀ d ∈ rest.head?, ∀ k, ¬TokenKind.IsSymbol k [c, d] := by
  cases rest with
  | nil => simp [Lexeme.symbol?, exactSymbol?_eq_none_iff]
  | cons d ds => simp [Lexeme.symbol?, exactSymbol?_eq_none_iff, and_comm]

namespace IsLexeme

variable {k : TokenKind} {v : Payload}

theorem kind_ne_eof (h : IsLexeme k v text rest) : k ≠ .eof := by
  cases h with
  | word hk => exact TokenKind.isWordKind_iff.1 hk ▸ kind_ofWord_ne_eof _
  | symbol hk => rcases hk with ⟨p, rfl, -⟩ | ⟨o, rfl, -⟩ <;> simp
  | _ => simp

/-- A lexeme starts no layout and is cut off the front of its text. -/
theorem lexeme_eq (h : IsLexeme k v text rest) :
    ∃ c cs, text ++ rest = c :: cs ∧ (isSpace c = false ∧ c ≠ '#') ∧
      lexeme c cs = .ok ⟨k, v, text, rest⟩ := by
  cases h with
  | @word _ c cs _ hk start tail maximal =>
    have hw : IsWord (c :: cs) := ⟨⟨c, cs, rfl, isWordStart_iff.2 start⟩,
      List.forall_mem_cons.2 ⟨isWordChar_of_start (isWordStart_iff.2 start),
        fun d hd => isWordChar_iff.2 (tail d hd)⟩⟩
    have hl := hw.lexeme fun d hd => Bool.eq_false_iff.2 (mt isWordChar_iff.1 (maximal d hd))
    rw [TokenKind.isWordKind_iff.1 hk] at hl
    exact ⟨c, _, rfl, layout_free_of_wordChar (isWordChar_of_start (isWordStart_iff.2 start)), hl⟩
  | number nonempty digits maximal short fits =>
    obtain ⟨c, cs, rfl⟩ := List.exists_cons_of_ne_nil nonempty
    have hl := lexeme_digits digits fun d hd => Bool.eq_false_iff.2 (maximal d hd)
    rw [ofDigits_of_length_le short, if_pos (decimal_le_maxNumber_iff.2 fits)] at hl
    exact ⟨c, _, rfl, layout_free_of_wordChar (isWordChar_of_isDigit (digits c (by simp))), hl⟩
  | largeNumber nonempty digits maximal short large =>
    obtain ⟨c, cs, rfl⟩ := List.exists_cons_of_ne_nil nonempty
    have hl := lexeme_digits digits fun d hd => Bool.eq_false_iff.2 (maximal d hd)
    rw [ofDigits_of_length_le short,
      if_neg (mt decimal_le_maxNumber_iff.1 (Nat.not_lt.2 large))] at hl
    exact ⟨c, _, rfl, layout_free_of_wordChar (isWordChar_of_isDigit (digits c (by simp))), hl⟩
  | string hbody =>
    have hl := lexeme_quote .string hbody rest
    exact ⟨_, _, by simp [Literal.quote], ⟨rfl, by decide⟩, hl⟩
  | @char c _ hc =>
    have hl := lexeme_quote .character (a := [c]) (by simpa [Literal.quote] using Ne.symm hc) rest
    exact ⟨_, _, rfl, ⟨rfl, by decide⟩, hl⟩
  | @malformedChar body _ hbody length =>
    have hl := lexeme_quote .character hbody rest
    rw [Lexeme.literal_malformed length] at hl
    exact ⟨_, _, by simp [Literal.quote], ⟨rfl, by decide⟩, hl⟩
  | symbol hk maximal =>
    obtain ⟨c, cs, rfl⟩ : ∃ c cs, text = c :: cs := by
      rcases hk.shape with ⟨c, rfl⟩ | ⟨c, d, rfl⟩ <;> exact ⟨_, _, rfl⟩
    obtain ⟨hlayout, hl⟩ := hk.lexeme (cs ++ rest)
    refine ⟨c, cs ++ rest, rfl, hlayout, ?_⟩
    have hsymbol : Lexeme.symbol? (c :: cs ++ rest) = some (.verbatim k (c :: cs) rest) :=
      hk.symbol? fun d e es htext hrest k hk => maximal d htext e (hrest ▸ rfl) k hk
    rw [List.cons_append] at hsymbol
    rw [hl, hsymbol]
    rfl
  | @stray c _ layout word quote single pair =>
    have hl := lexeme_other word quote rest
    rw [symbol?_eq_none_iff.2 ⟨single, pair⟩] at hl
    exact ⟨c, rest, rfl, layoutFree_iff.1 layout, hl⟩

end IsLexeme

/-! ## What is cut off -/

/-- What follows the longest run of a class starts with none of its characters. -/
theorem head_dropWhile {p : Char → Bool} (cs : List Char) :
    ∀ c ∈ (cs.dropWhile p).head?, ¬p c = true := by
  intro c hc
  have h := List.head?_dropWhile_not p cs
  rw [hc] at h
  simpa using h

theorem all_takeWhile {p : Char → Bool} (cs : List Char) : ∀ c ∈ cs.takeWhile p, p c = true :=
  List.all_eq_true.1 List.all_takeWhile

theorem isLexeme_word (hc : isWordStart c = true) (cs : List Char) :
    let l := Lexeme.word (c :: cs)
    IsLexeme l.kind l.value l.text l.rest := by
  have htake : (c :: cs).takeWhile isWordChar = c :: cs.takeWhile isWordChar :=
    List.takeWhile_cons_of_pos (isWordChar_of_start hc)
  simp only [Lexeme.word, Lexeme.verbatim, htake]
  exact .word (TokenKind.isWordKind_iff.2 rfl) (isWordStart_iff.1 hc)
    (fun d hd => isWordChar_iff.1 (all_takeWhile cs d hd))
    fun d hd => mt isWordChar_iff.2 (head_dropWhile _ d hd)

/-- Digits at the front of a text make a token, or there are too many of them. -/
theorem number_cases (hc : c.isDigit = true) (cs : List Char) :
    (∃ l, Lexeme.number (c :: cs) = .ok l ∧ IsLexeme l.kind l.value l.text l.rest) ∨
      ∃ r, Lexeme.number (c :: cs) = .error r ∧ IsScrap r.flaw r.text r.rest := by
  have nonempty : (c :: cs).takeWhile Char.isDigit ≠ [] := by
    rw [List.takeWhile_cons_of_pos hc]
    exact List.cons_ne_nil _ _
  have digits := all_takeWhile (p := Char.isDigit) (c :: cs)
  have maximal := head_dropWhile (p := Char.isDigit) (c :: cs)
  rw [Lexeme.number]
  rcases Nat.lt_or_ge 4300 ((c :: cs).takeWhile Char.isDigit).length with long | short
  · rw [ofDigits_of_lt_length long]
    exact .inr ⟨_, rfl, .tooLong digits maximal long⟩
  rw [ofDigits_of_length_le short]
  split
  · next fits =>
    exact .inl ⟨_, rfl, .number nonempty digits maximal short (decimal_le_maxNumber_iff.1 fits)⟩
  · next large =>
    exact .inl ⟨_, rfl, .largeNumber nonempty digits maximal short
      (Nat.not_lt.1 (mt decimal_le_maxNumber_iff.2 large))⟩

theorem isLexeme_literal (l : Literal) {body : List Char} (h : l.quote ∉ body)
    (rest : List Char) :
    IsLexeme (Lexeme.literal l body rest).kind (Lexeme.literal l body rest).value
      (Lexeme.literal l body rest).text (Lexeme.literal l body rest).rest := by
  cases l with
  | string => exact .string h
  | character =>
    match body, h with
    | [c], h => exact .char fun hc => h (by simp [hc, Literal.quote])
    | [], h => exact .malformedChar h (by simp)
    | _ :: _ :: _, h => exact .malformedChar h (by simp)

theorem isLexeme_of_symbol? {l : Lexeme} (h : Lexeme.symbol? cs = some l) :
    IsLexeme l.kind l.value l.text l.rest := by
  have exact {text rest : List Char} (h : Lexeme.exactSymbol? text rest = some l)
      (maximal : ∀ c, text = [c] → ∀ d ∈ rest.head?, ∀ k, ¬TokenKind.IsSymbol k [c, d]) :
      IsLexeme l.kind l.value l.text l.rest := by
    obtain ⟨k, hk, rfl⟩ := Option.map_eq_some_iff.1 h
    exact .symbol (TokenKind.IsSymbol.ofSymbol?_eq_some_iff.1 hk) maximal
  match cs, h with
  | [a], h => exact exact h fun c _ d hd => by cases hd
  | a :: b :: cs, h =>
    rcases Option.or_eq_some_iff.1 h with h | ⟨hpair, h⟩
    · exact exact h fun c hc => by cases hc
    · refine exact h fun c hc d hd k hk => ?_
      cases hc
      cases hd
      rw [hk.exactSymbol?] at hpair
      cases hpair

theorem lexeme_open {l : Literal} (h : l.quote ∉ cs) :
    lexeme l.quote cs = .error ⟨.unterminated l, l.quote :: cs, []⟩ := by
  have hbody : quotedBody l.quote cs = (cs, none) := by
    obtain ⟨htake, hdrop⟩ := takeWhile_append (p := (· ≠ l.quote)) (a := cs) []
      (fun d hd => by simpa using fun he : d = l.quote => h (he ▸ hd)) (fun d hd => by cases hd)
    rw [List.append_nil] at htake hdrop
    simp only [quotedBody, htake, hdrop, List.tail?]
  have hliteral : lexeme.literal cs l = .error ⟨.unterminated l, l.quote :: cs, []⟩ := by
    simp only [lexeme.literal, hbody]
  cases l <;> exact hliteral

/-- What makes no token starts no layout either, and is cut off the front of its text. -/
theorem IsScrap.lexeme_eq {f : Flaw} (h : IsScrap f text rest) :
    ∃ c cs, text ++ rest = c :: cs ∧ (isSpace c = false ∧ c ≠ '#') ∧
      lexeme c cs = .error ⟨f, text, rest⟩ := by
  cases h with
  | @unterminated l body hbody =>
    exact ⟨l.quote, body, List.append_nil _, by cases l <;> decide, lexeme_open hbody⟩
  | tooLong digits maximal long =>
    have nonempty : text ≠ [] := List.ne_nil_of_length_pos (Nat.lt_trans (by decide) long)
    obtain ⟨c, cs, rfl⟩ := List.exists_cons_of_ne_nil nonempty
    have hl := lexeme_digits digits fun d hd => Bool.eq_false_iff.2 (maximal d hd)
    rw [ofDigits_of_lt_length long] at hl
    exact ⟨c, _, rfl, layout_free_of_wordChar (isWordChar_of_isDigit (digits c (by simp))), hl⟩

/-- However many zeros there are, they are zero. -/
theorem ofDigitChars_zeros (n : Nat) : Nat.ofDigitChars 10 (List.replicate n '0') 0 = 0 := by
  induction n with
  | zero => rfl
  | succ n ih =>
    rw [List.replicate_succ, Nat.ofDigitChars_cons]
    exact ih

/-- **The front of a text that starts with neither a blank nor a comment**: a lexeme, or what makes
no token. -/
theorem lexeme_cases (hlayout : isSpace c = false ∧ c ≠ '#') (cs : List Char) :
    (∃ l, lexeme c cs = .ok l ∧ IsLexeme l.kind l.value l.text l.rest) ∨
      ∃ r, lexeme c cs = .error r ∧ IsScrap r.flaw r.text r.rest := by
  have literal (q : Literal) (hc : c = q.quote) :
      (∃ l, lexeme c cs = .ok l ∧ IsLexeme l.kind l.value l.text l.rest) ∨
        ∃ r, lexeme c cs = .error r ∧ IsScrap r.flaw r.text r.rest := by
    subst hc
    by_cases hclosed : q.quote ∈ cs
    · obtain ⟨body, rest, rfl, hbody⟩ := List.eq_append_cons_of_mem hclosed
      exact .inl ⟨_, lexeme_quote q hbody rest, isLexeme_literal q hbody rest⟩
    · exact .inr ⟨_, lexeme_open hclosed, .unterminated hclosed⟩
  by_cases hword : isWordStart c = true
  · exact .inl ⟨.word (c :: cs), if_pos hword, isLexeme_word hword cs⟩
  by_cases hdigit : c.isDigit = true
  · have hl : lexeme c cs = Lexeme.number (c :: cs) := by simp [lexeme, hword, hdigit]
    rw [hl]
    exact number_cases hdigit cs
  by_cases hstring : c = '\x22'
  · exact literal .string hstring
  by_cases hchar : c = '\x27'
  · exact literal .character hchar
  have hquote : c ∉ ['\x22', '\x27'] := by simp [hstring, hchar]
  have hrest : ¬(c.isAlphanum = true ∨ c = '_') := by
    simp only [isWordStart_iff, not_or] at hword
    simp [Char.isAlphanum, hword, hdigit]
  have hl := lexeme_other hrest hquote cs
  cases hsymbol : Lexeme.symbol? (c :: cs) with
  | some l =>
    rw [hsymbol] at hl
    exact .inl ⟨l, hl, isLexeme_of_symbol? hsymbol⟩
  | none =>
    rw [hsymbol] at hl
    obtain ⟨single, pair⟩ := symbol?_eq_none_iff.1 hsymbol
    exact .inl ⟨_, hl, .stray (layoutFree_iff.2 hlayout) hrest hquote single pair⟩

end ToyLang
