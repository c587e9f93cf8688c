import Mathlib.Data.Nat.Digits.Defs
import ToyLang.Proofs.Placement.Builder

/-!
# How tokens are written

`Lexes cs ts f`: the text `cs` is read as the tokens `ts`, up to positions, and lexing breaks off
behind them for the reason `f`, if there is one; with the end mark and without a reason the text
`Yields` its tokens. A piece of text spells tokens if they are read off its front whatever becomes
of what follows. Words, numbers and symbols may run on into the next piece, so there are two
strengths:

* `Spells text ts`: what follows starts with a boundary (`Bounded`), or nothing follows;
* `Closed text ts`: anything may follow.

Pieces are put together by `Closed.append`, `Closed.spells_append` and `Spells.append`.
-/

set_option autoImplicit false

namespace ToyLang

/-! ## Reading a text to its end -/

/-- The text is read as the tokens, which have no positions here, and what breaks lexing off behind
them is `f`. -/
def Lexes (cs : List Char) (ts : List Token) (f : Option Flaw) : Prop :=
  ∀ pos, (Cursor.mk cs pos).tokens.1.map Token.bare = ts ∧
    (Cursor.mk cs pos).tokens.2.map LexicalError.flaw = f

/-- The text is read as the tokens and the end mark. -/
def Yields (cs : List Char) (ts : List Token) : Prop := Lexes cs (ts ++ [.endMark ⟨0, 0⟩]) none

variable {cs : List Char} {ts us : List Token} {f : Option Flaw} {c : Char}

theorem Yields.tokens (h : Yields cs ts) (pos : Pos) :
    (Cursor.mk cs pos).tokens.1.map Token.bare = ts ++ [.endMark ⟨0, 0⟩] ∧
      (Cursor.mk cs pos).tokens.2 = none :=
  ⟨(h pos).1, Option.map_eq_none_iff.1 (h pos).2⟩

theorem Yields.unique (h : Yields cs ts) (h' : Yields cs us) : ts = us :=
  List.append_cancel_right ((h .start).1.symm.trans (h' .start).1)

theorem yields_nil : Yields [] [] := fun pos => by
  have hn : (Cursor.mk [] pos).next = (.ok (.endMark pos), ⟨[], pos⟩) := rfl
  rw [Cursor.tokens_of_next hn]
  exact ⟨rfl, rfl⟩

/-- The tokens depend on the next one and what is behind it. -/
theorem Cursor.tokens_congr {c c' : Cursor} (h : c.next = c'.next) : c.tokens = c'.tokens := by
  obtain ⟨r, d, hn⟩ : ∃ r d, c.next = (r, d) := ⟨_, _, rfl⟩
  cases r with
  | ok t => rw [tokens_of_next hn, tokens_of_next (h.symm.trans hn)]
  | error e => rw [tokens_of_failure hn, tokens_of_failure (h.symm.trans hn)]

theorem Lexes.space (hc : isSpace c = true) (h : Lexes cs ts f) : Lexes (c :: cs) ts f := by
  intro pos
  have hn : (Cursor.mk (c :: cs) pos).next = (Cursor.mk cs (pos.advance c)).next := by
    simp [Cursor.next, Cursor.skipLayout, Cursor.past, layout, hc]
  rw [Cursor.tokens_congr hn]
  exact h _

/-- A lexeme gives its token. -/
theorem Lexes.lexeme {l : Lexeme} (hc : isSpace c = false) (hcomment : c ≠ '#')
    (hl : ToyLang.lexeme c cs = .ok l) (hk : l.kind ≠ .eof) (h : Lexes l.rest ts f) :
    Lexes (c :: cs) (⟨l.kind, l.value, ⟨0, 0⟩⟩ :: ts) f := by
  intro pos
  have hn : (Cursor.mk (c :: cs) pos).next =
      (.ok ⟨l.kind, l.value, pos⟩, ⟨l.rest, pos.after l.text⟩) := by
    simp [Cursor.next, Cursor.skipLayout, Cursor.past, layout, hc, hcomment, Cursor.read, hl]
  rw [Cursor.tokens_of_next hn, if_neg hk]
  obtain ⟨htokens, hend⟩ := h (pos.after l.text)
  exact ⟨by simp only [List.map_cons, htokens]; rfl, hend⟩

/-! ## Pieces of text -/

/-- The characters that end whatever lexeme stands before them. -/
def isBoundary (c : Char) : Bool := !isWordChar c && !(['=', '>', '&', '|'].contains c)

/-- The text is empty or starts with a boundary. -/
def Bounded (cs : List Char) : Prop := ∀ c ∈ cs.head?, isBoundary c = true

/-- The text is read as the tokens where a boundary follows. -/
def Spells (text : List Char) (ts : List Token) : Prop :=
  ∀ rest us f, Bounded rest → Lexes rest us f → Lexes (text ++ rest) (ts ++ us) f

/-- The text is read as the tokens whatever follows. -/
def Closed (text : List Char) (ts : List Token) : Prop :=
  ∀ rest us f, Lexes rest us f → Lexes (text ++ rest) (ts ++ us) f

variable {a b : List Char}

theorem Bounded.append (h : Bounded a) (hb : Bounded b) : Bounded (a ++ b) := by
  cases a with
  | nil => exact hb
  | cons c cs => exact h

theorem bounded_cons (h : isBoundary c = true) : Bounded (c :: cs) := by
  intro d hd
  cases hd
  exact h

theorem Closed.spells (h : Closed a ts) : Spells a ts := fun rest us f _ hr => h rest us f hr

theorem closed_nil : Closed [] [] := fun _ _ _ h => h

theorem closed_space (hc : isSpace c = true) : Closed [c] [] := fun _ _ _ h => h.space hc

theorem Closed.append (ha : Closed a ts) (hb : Closed b us) : Closed (a ++ b) (ts ++ us) := by
  intro rest vs f hr
  rw [List.append_assoc, List.append_assoc]
  exact ha _ _ _ (hb _ _ _ hr)

theorem Closed.spells_append (ha : Closed a ts) (hb : Spells b us) :
    Spells (a ++ b) (ts ++ us) := by
  intro rest vs f hbound hr
  rw [List.append_assoc, List.append_assoc]
  exact ha _ _ _ (hb _ _ _ hbound hr)

theorem Spells.append (ha : Spells a ts) (hbound : Bounded b) (hb : Spells b us) :
    Spells (a ++ b) (ts ++ us) := by
  intro rest vs f hrest hr
  rw [List.append_assoc, List.append_assoc]
  exact ha _ _ _ (hbound.append hrest) (hb _ _ _ hrest hr)

theorem Spells.closed_append (ha : Spells a ts) (hc : isBoundary c = true)
    (hb : Closed (c :: cs) us) : Closed (a ++ c :: cs) (ts ++ us) := by
  intro rest vs f hr
  rw [List.append_assoc, List.append_assoc]
  exact ha _ _ _ (bounded_cons hc) (hb _ _ _ hr)

theorem Spells.yields (h : Spells a ts) : Yields a ts := by
  simpa [Yields] using h [] _ _ (fun _ hc => by cases hc) yields_nil

theorem closed_spaces (n : Nat) : Closed (List.replicate n ' ') [] := by
  induction n with
  | zero => exact closed_nil
  | succ n ih => exact (closed_space (c := ' ') rfl).append ih

/-! ## Words and numbers -/

theorem isWordChar_of_boundary (h : isBoundary c = true) : isWordChar c = false := by
  simp only [isBoundary, Bool.and_eq_true, Bool.not_eq_true'] at h
  exact h.1

/-- A run of characters of a class ends at what follows. -/
theorem takeWhile_append {p : Char → Bool} (rest : List Char) (ha : ∀ c ∈ a, p c = true)
    (hrest : ∀ c ∈ rest.head?, p c = false) :
    (a ++ rest).takeWhile p = a ∧ (a ++ rest).dropWhile p = rest := by
  induction a with
  | nil =>
    cases rest with
    | nil => simp
    | cons c cs => simp [hrest c rfl]
  | cons c cs ih =>
    have hc := ha c List.mem_cons_self
    have ih := ih fun d hd => ha d (List.mem_cons_of_mem c hd)
    simp [hc, ih]

theorem isWordChar_of_start (h : isWordStart c = true) : isWordChar c = true := by
  simp only [isWordStart, isWordChar, Char.isAlphanum, Bool.or_eq_true] at h ⊢
  exact h.imp_left .inl

theorem layout_free_of_wordChar (h : isWordChar c = true) : isSpace c = false ∧ c ≠ '#' := by
  refine ⟨?_, fun hc => by subst hc; revert h; decide⟩
  cases hs : isSpace c with
  | false => rfl
  | true =>
    simp only [isSpace, Bool.or_eq_true, decide_eq_true_eq] at hs
    rcases hs with ((rfl | rfl) | rfl) | rfl <;> revert h <;> decide

theorem isAlpha_eq (c : Char) : c.isAlpha =
    (decide (c.val ≥ 'A'.val ∧ c.val ≤ 'Z'.val) || c.val ≥ 'a'.val && c.val ≤ 'z'.val) := rfl

theorem not_isWordStart_of_isDigit (h : c.isDigit = true) : isWordStart c = false := by
  have hd : 48 ≤ c.val.toNat ∧ c.val.toNat ≤ 57 := by
    simpa [Char.isDigit, UInt32.le_iff_toNat_le] using h
  have hu : c ≠ '_' := fun hc => by
    subst hc
    revert h
    decide
  have hA : 'A'.val.toNat = 65 := rfl
  have ha : 'a'.val.toNat = 97 := rfl
  simp only [isWordStart, isAlpha_eq, hu, decide_false, Bool.or_false, Bool.or_eq_false_iff,
    Bool.and_eq_false_iff, decide_eq_false_iff_not, ge_iff_le, UInt32.le_iff_toNat_le]
  omega

/-- A word: a letter or an underscore, and then letters, digits and underscores. -/
def IsWord (w : List Char) : Prop :=
  (∃ c cs, w = c :: cs ∧ isWordStart c = true) ∧ ∀ c ∈ w, isWordChar c = true

instance (w : List Char) : Decidable (IsWord w) :=
  decidable_of_iff (w.head?.any isWordStart = true ∧ w.all isWordChar = true)
    (and_congr (by cases w <;> simp) List.all_eq_true)

theorem kind_ofWord_ne_eof (s : String) : TokenKind.ofWord s ≠ .eof := by
  unfold TokenKind.ofWord
  split <;> simp

theorem IsWord.lexeme (h : IsWord (c :: cs)) {rest : List Char}
    (hrest : ∀ d ∈ rest.head?, isWordChar d = false) :
    lexeme c (cs ++ rest) =
      .ok (.verbatim (.ofWord (String.ofList (c :: cs))) (c :: cs) rest) := by
  obtain ⟨⟨_, _, heq, hc⟩, hall⟩ := h
  cases heq
  obtain ⟨htake, hdrop⟩ := takeWhile_append (p := isWordChar) rest hall hrest
  rw [List.cons_append] at htake hdrop
  simp only [ToyLang.lexeme, hc, if_true, Lexeme.word, htake, hdrop]

theorem spells_word (h : IsWord a) :
    Spells a [⟨.ofWord (String.ofList a), .text (String.ofList a), ⟨0, 0⟩⟩] := by
  intro rest us f hbound hr
  obtain ⟨c, cs, rfl, hc⟩ := h.1
  obtain ⟨hspace, hcomment⟩ := layout_free_of_wordChar (isWordChar_of_start hc)
  have hl := h.lexeme fun d hd => isWordChar_of_boundary (hbound d hd)
  exact Lexes.lexeme hspace hcomment hl (kind_ofWord_ne_eof _) hr

theorem isWordChar_of_isDigit (h : c.isDigit = true) : isWordChar c = true := by
  simp [isWordChar, Char.isAlphanum, h]

theorem lexeme_digits {rest : List Char} (h : ∀ d ∈ c :: cs, d.isDigit = true)
    (hrest : ∀ d ∈ rest.head?, d.isDigit = false) :
    lexeme c (cs ++ rest) = Lexeme.ofDigits (c :: cs) rest := by
  have hc := h c List.mem_cons_self
  obtain ⟨htake, hdrop⟩ := takeWhile_append (p := Char.isDigit) rest h hrest
  rw [List.cons_append] at htake hdrop
  simp [lexeme, not_isWordStart_of_isDigit hc, hc, Lexeme.number, htake, hdrop]

theorem spells_number (hne : a ≠ []) (hdigits : ∀ c ∈ a, c.isDigit = true)
    (hlength : a.length ≤ maxDigits) (hmax : decimal a ≤ maxNumber) :
    Spells a [⟨.number, .int (decimal a), ⟨0, 0⟩⟩] := by
  intro rest us f hbound hr
  obtain ⟨c, cs, rfl⟩ := List.exists_cons_of_ne_nil hne
  obtain ⟨hspace, hcomment⟩ :=
    layout_free_of_wordChar (isWordChar_of_isDigit (hdigits c List.mem_cons_self))
  have hdigit : ∀ d ∈ rest.head?, d.isDigit = false := fun d hd => by
    have := isWordChar_of_boundary (hbound d hd)
    simp only [isWordChar, Char.isAlphanum, Bool.or_eq_false_iff] at this
    exact this.1.2
  have hl := lexeme_digits hdigits hdigit
  rw [Lexeme.ofDigits, if_neg (Nat.not_lt.2 hlength), if_pos hmax] at hl
  exact Lexes.lexeme hspace hcomment hl (by simp) hr

/-- The decimal text of a number that is a token can be converted. -/
theorem length_repr_le {n : Nat} (h : n ≤ maxNumber) : n.repr.toList.length ≤ maxDigits := by
  have hlt : n < 10 ^ 20 := by
    unfold maxNumber at h
    omega
  have hlength := Nat.toDigits_length 10 n 20 (by decide) hlt
  rw [Nat.toList_repr]
  unfold maxDigits
  omega

/-- A number is read back from its decimal text. -/
theorem spells_repr {n : Nat} (h : n ≤ maxNumber) :
    Spells n.repr.toList [⟨.number, .int n, ⟨0, 0⟩⟩] := by
  have hvalue : decimal n.repr.toList = n := by
    rw [Nat.toList_repr]
    exact Nat.ofDigitChars_ten_toDigits
  have hdigits : ∀ c ∈ n.repr.toList, c.isDigit = true := fun c hc =>
    Nat.isDigit_of_mem_toDigits (by decide) (by decide) (Nat.toList_repr ▸ hc)
  have hne : n.repr.toList ≠ [] := by
    rw [Nat.toList_repr]
    exact Nat.toDigits_ne_nil
  have := spells_number hne hdigits (length_repr_le h) (by rw [hvalue]; exact h)
  rwa [hvalue] at this

/-! ## Literals -/

theorem quotedBody_append {q : Char} {body rest : List Char} (h : q ∉ body) :
    quotedBody q (body ++ q :: rest) = (body, some rest) := by
  obtain ⟨htake, hdrop⟩ := takeWhile_append (p := (· ≠ q)) (a := body) (q :: rest)
    (fun c hc => by simpa using fun he : c = q => h (he ▸ hc)) (fun c hc => by cases hc; simp)
  simp only [quotedBody, htake, hdrop, List.tail?]

theorem lexeme_quote (l : Literal) (h : l.quote ∉ a) (rest : List Char) :
    lexeme l.quote (a ++ l.quote :: rest) = .ok (.literal l a rest) := by
  have hbody : lexeme.literal (a ++ l.quote :: rest) l = .ok (.literal l a rest) := by
    simp only [lexeme.literal, quotedBody_append h]
  cases l <;> exact hbody

theorem closed_string (h : '\x22' ∉ a) :
    Closed (Lexeme.literalText .string a) [⟨.string, .text (String.ofList a), ⟨0, 0⟩⟩] := by
  intro rest us f hr
  have hl := lexeme_quote .string h rest
  have := Lexes.lexeme rfl (by decide) hl (by simp [Lexeme.literal]) hr
  simpa [Lexeme.literalText, Lexeme.literal] using this

theorem closed_char (h : c ≠ '\x27') :
    Closed (Lexeme.literalText .character [c]) [⟨.char, .text (String.ofList [c]), ⟨0, 0⟩⟩] := by
  intro rest us f hr
  have hl := lexeme_quote .character (a := [c]) (by simpa [Literal.quote] using h.symm) rest
  have := Lexes.lexeme rfl (by decide) hl (by simp [Lexeme.literal]) hr
  simpa [Lexeme.literalText, Lexeme.literal] using this

/-! ## Symbols -/

/-- The kind is that of the symbol written `text`. -/
def TokenKind.IsSymbol (k : TokenKind) (text : List Char) : Prop :=
  (∃ p, k = .punct p ∧ p.spelling.toList = text) ∨
    ∃ o, k = .operator o ∧ o.spelling.toList = text

namespace TokenKind.IsSymbol

variable {k : TokenKind}

theorem ofSymbol?_eq_some_iff : ofSymbol? (String.ofList a) = some k ↔ k.IsSymbol a := by
  have hlist (s : String) : s = String.ofList a ↔ s.toList = a := by
    rw [← String.toList_inj, String.toList_ofList]
  have hdisjoint (o : Operator) : Punct.ofSpelling? o.spelling = none := by cases o <;> decide
  simp only [IsSymbol, ← hlist]
  unfold ofSymbol?
  constructor
  · intro h
    split at h
    · next p hp => cases h; exact .inl ⟨p, rfl, Punct.ofSpelling?_eq_some_iff.1 hp⟩
    · next o _ ho => cases h; exact .inr ⟨o, rfl, Operator.ofSpelling?_eq_some_iff.1 ho⟩
    · cases h
  · rintro (⟨p, rfl, hp⟩ | ⟨o, rfl, ho⟩)
    · rw [← hp, Punct.ofSpelling?_spelling]
    · rw [← ho, hdisjoint, Operator.ofSpelling?_spelling]

/-- A symbol has one character or two. -/
theorem shape (h : k.IsSymbol a) : (∃ c, a = [c]) ∨ ∃ c d, a = [c, d] := by
  rcases h with ⟨p, -, rfl⟩ | ⟨o, -, rfl⟩
  · cases p <;> simp [Punct.spelling]
  · cases o <;> simp [Operator.spelling]

/-- The symbols of two characters. -/
theorem pair {c d : Char} (h : k.IsSymbol [c, d]) :
    c ∈ ['-', ':', '!', '>', '<', '&', '|'] ∧ d ∈ ['=', '>', '&', '|'] := by
  rcases h with ⟨p, -, hp⟩ | ⟨o, -, ho⟩
  · cases p <;> simp [Punct.spelling] at hp
    simp [← hp]
  · cases o <;> simp [Operator.spelling] at ho <;> simp [← ho]

theorem head_mem (h : k.IsSymbol (c :: a)) : c ∈ "()[];:,.-+*/%&|^=!><".toList := by
  rcases h with ⟨p, -, hp⟩ | ⟨o, -, ho⟩
  · cases p <;> simp [Punct.spelling] at hp <;> simp [← hp]
  · cases o <;> simp [Operator.spelling] at ho <;> simp [← ho]

/-- No other lexeme starts like a symbol. -/
theorem lexeme (h : k.IsSymbol (c :: a)) (cs : List Char) :
    (isSpace c = false ∧ c ≠ '#') ∧
      ToyLang.lexeme c cs = .ok ((Lexeme.symbol? (c :: cs)).getD (.verbatim .error [c] cs)) := by
  have hplain : "()[];:,.-+*/%&|^=!><".toList.all (fun c => (isSpace c = false ∧ c ≠ '#') ∧
      isWordStart c = false ∧ c.isDigit = false ∧ c ≠ '\x22' ∧ c ≠ '\x27') = true := by decide
  obtain ⟨hlayout, hword, hdigit, hstring, hchar⟩ :=
    of_decide_eq_true (List.all_eq_true.1 hplain c h.head_mem)
  exact ⟨hlayout, by simp [ToyLang.lexeme, hword, hdigit, hstring, hchar, Literal.quote]⟩

theorem exactSymbol? (h : k.IsSymbol a) (rest : List Char) :
    Lexeme.exactSymbol? a rest = some (.verbatim k a rest) := by
  rw [Lexeme.exactSymbol?, ofSymbol?_eq_some_iff.2 h, Option.map_some]

/-- The symbol is the longest one where the next character does not add to it. -/
theorem symbol? (h : k.IsSymbol a) {rest : List Char}
    (hrest : ∀ c d cs, a = [c] → rest = d :: cs → ∀ k, ¬TokenKind.IsSymbol k [c, d]) :
    Lexeme.symbol? (a ++ rest) = some (.verbatim k a rest) := by
  rcases h.shape with ⟨c, rfl⟩ | ⟨c, d, rfl⟩
  · cases rest with
    | nil => exact h.exactSymbol? []
    | cons d cs =>
      have hpair : Lexeme.exactSymbol? [c, d] cs = none := by
        rw [Lexeme.exactSymbol?, Option.map_eq_none_iff, Option.eq_none_iff_forall_ne_some]
        exact fun k hk => hrest c d cs rfl rfl k (ofSymbol?_eq_some_iff.1 hk)
      show (Lexeme.exactSymbol? [c, d] cs).or (Lexeme.exactSymbol? [c] (d :: cs)) = _
      rw [hpair, h.exactSymbol?, Option.none_or]
  · show (Lexeme.exactSymbol? [c, d] rest).or _ = _
    rw [h.exactSymbol?, Option.some_or]

theorem lexes (h : k.IsSymbol a) {rest : List Char}
    (hrest : ∀ c d cs, a = [c] → rest = d :: cs → ∀ k, ¬TokenKind.IsSymbol k [c, d])
    (hr : Lexes rest us f) :
    Lexes (a ++ rest) (⟨k, .text (String.ofList a), ⟨0, 0⟩⟩ :: us) f := by
  have hsymbol := h.symbol? hrest
  have hk : k ≠ .eof := by
    rcases h with ⟨p, rfl, -⟩ | ⟨o, rfl, -⟩ <;> simp
  obtain ⟨c, cs, rfl⟩ : ∃ c cs, a = c :: cs := by
    rcases h.shape with ⟨c, rfl⟩ | ⟨c, d, rfl⟩ <;> exact ⟨_, _, rfl⟩
  obtain ⟨⟨hspace, hcomment⟩, hl⟩ := h.lexeme (cs ++ rest)
  rw [List.cons_append] at hsymbol
  rw [hsymbol, Option.getD_some] at hl
  exact Lexes.lexeme hspace hcomment hl hk hr

end TokenKind.IsSymbol

theorem spells_symbol {k : TokenKind} (h : k.IsSymbol a) :
    Spells a [⟨k, .text (String.ofList a), ⟨0, 0⟩⟩] := by
  intro rest us f hbound hr
  refine h.lexes (fun c d cs _ hrest k hk => ?_) hr
  have hd := hbound d (by rw [hrest]; rfl)
  simp only [isBoundary, Bool.and_eq_true, Bool.not_eq_true', List.contains_eq_mem,
    decide_eq_false_iff_not] at hd
  exact hd.2 hk.pair.2

/-- A symbol of one character that starts no longer one. -/
theorem closed_symbol {k : TokenKind} (h : k.IsSymbol [c])
    (hc : c ∉ ['-', ':', '!', '>', '<', '&', '|']) :
    Closed [c] [⟨k, .text (String.ofList [c]), ⟨0, 0⟩⟩] := by
  intro rest us f hr
  refine h.lexes (fun c' d cs heq _ k hk => ?_) hr
  cases heq
  exact hc hk.pair.1

/-! ## Streams -/

/-- Only the last token of a text is an end mark. -/
theorem Cursor.kind_of_mem_tokens (c : Cursor) : ∀ t ∈ c.tokens.1.dropLast, t.kind ≠ .eof := by
  generalize hn : c.rest.length = n
  induction n using Nat.strongRecOn generalizing c with
  | ind n ih =>
    obtain ⟨r, c', hc⟩ : ∃ r c', c.next = (r, c') := ⟨_, _, rfl⟩
    cases r with
    | error e =>
      rw [tokens_of_failure hc]
      simp
    | ok t =>
      rw [tokens_of_next hc]
      by_cases ht : t.kind = .eof
      · simp [ht]
      · have hlt := rest_length_lt_of_next hc ht
        have ih := ih c'.rest.length (by omega) c' rfl
        rw [if_neg ht]
        cases htokens : c'.tokens.1 with
        | nil => simp
        | cons u us =>
          rw [htokens] at ih
          rw [List.dropLast_cons_cons]
          exact List.forall_mem_cons.2 ⟨ht, ih⟩

/-- A stream delivers what its text is read as. -/
theorem Yields.view {source : String} (h : Yields source.toList ts) :
    ∃ mark, mark.Alike (.endMark ⟨0, 0⟩) ∧ (Stream.ofText source).view.close = .ok mark ∧
      (Stream.ofText source).view.ahead.map Token.bare = ts ∧
      ts.length ≤ (Stream.ofText source).size := by
  obtain ⟨htokens, hend⟩ := h.tokens .start
  obtain ⟨us, vs, hsplit, hus, hvs⟩ := List.map_eq_append_iff.1 htokens
  obtain ⟨mark, rfl, hmark⟩ := List.map_eq_singleton_iff.1 hvs
  have hkind : mark.kind = .eof := congrArg Token.kind hmark
  have hahead : ∀ t ∈ us, t.kind ≠ .eof := by
    have := Cursor.kind_of_mem_tokens (Cursor.mk source.toList .start)
    rwa [hsplit, List.dropLast_concat] at this
  have hview : (Stream.ofText source).view = { ahead := us, close := .ok mark } := by
    show View.upToMark _ (Cursor.mk source.toList .start).tokens.1 = _
    rw [hsplit, View.upToMark_append_mark hahead hkind]
  have hleft := (Stream.view_within (s := .ofText source) rfl rfl).left_le
  have hcount : (View.mk us (.ok mark) false).left = us.length :=
    List.countP_eq_length.2 fun t ht => by simpa using hahead t ht
  rw [hview, hcount] at hleft
  rw [hview]
  refine ⟨mark, hmark, rfl, hus, ?_⟩
  rw [← hus, List.length_map]
  exact hleft

end ToyLang
