import ToyLang.Proofs.Lexing.Lexeme

/-!
# A text is its lexemes

`Pieces p cs ts q rest`: the text `cs`, which starts at the position `p`, is layout and a lexeme in
turn, the lexemes make the tokens `ts`, and `rest` follows, at the position `q`. Such a
decomposition says what the tokens are (`Pieces.tokens`), and every text has one that ends in layout
or in layout before a stretch that makes no token (`exists_pieces`). The stream of the text delivers
the tokens of its pieces (`exists_view_ofText`).

`tokens_exact` says when lexing runs to the end and when it fails in either way. A number is among
what it fails at if it has too many digits, even if it is zero (`longZero_fails`).
-/

set_option autoImplicit false

namespace ToyLang

/-- Layout and a lexeme in turn make the tokens, and `rest` follows. -/
inductive Pieces : Pos → List Char → List Token → Pos → List Char → Prop
  | nil (p : Pos) (rest : List Char) : Pieces p rest [] p rest
  | cons {p q : Pos} {w text cs rest : List Char} {k : TokenKind} {v : Payload} {ts : List Token}
      (layout : IsLayout w (text ++ cs)) (lexeme : IsLexeme k v text cs)
      (pieces : Pieces (p.after (w ++ text)) cs ts q rest) :
      Pieces p (w ++ (text ++ cs)) (⟨k, v, p.after w⟩ :: ts) q rest

variable {p q : Pos} {w text cs rest : List Char} {ts : List Token}

/-- No lexeme makes an end mark. -/
theorem Pieces.kind_ne_eof (h : Pieces p cs ts q rest) : ∀ t ∈ ts, t.kind ≠ .eof := by
  induction h with
  | nil => exact fun t ht => absurd ht List.not_mem_nil
  | cons _ lexeme _ ih => exact List.forall_mem_cons.2 ⟨lexeme.kind_ne_eof, ih⟩

/-! ## One token -/

namespace Cursor

theorem next_of_layout (hw : IsLayout w rest) (hrest : LayoutFree rest) (p : Pos) :
    (Cursor.mk (w ++ rest) p).next = (Cursor.mk rest (p.after w)).read := by
  simp only [next, skipLayout, past, hw.layout_eq hrest]

theorem next_of_lexeme {k : TokenKind} {v : Payload} (hw : IsLayout w (text ++ cs))
    (hl : IsLexeme k v text cs) (p : Pos) :
    (Cursor.mk (w ++ (text ++ cs)) p).next =
      (.ok ⟨k, v, p.after w⟩, ⟨cs, p.after (w ++ text)⟩) := by
  obtain ⟨c, ds, happ, hfree, hlexeme⟩ := hl.lexeme_eq
  rw [next_of_layout hw (by rw [happ]; exact fun d hd => (by cases hd; exact hfree)), happ]
  simp only [read, hlexeme, past, Pos.after_append]

theorem next_of_end (hw : IsLayout w []) (p : Pos) :
    (Cursor.mk w p).next = (.ok (.endMark (p.after w)), ⟨[], p.after w⟩) := by
  have := next_of_layout hw (fun c hc => by cases hc) p
  rwa [List.append_nil] at this

theorem next_of_scrap {f : Flaw} (hw : IsLayout w (text ++ rest)) (h : IsScrap f text rest)
    (p : Pos) :
    (Cursor.mk (w ++ (text ++ rest)) p).next =
      (.error ⟨f, p.after w⟩, ⟨rest, (p.after w).after text⟩) := by
  obtain ⟨c, ds, happ, hfree, hlexeme⟩ := h.lexeme_eq
  rw [next_of_layout hw (by rw [happ]; exact fun d hd => (by cases hd; exact hfree)), happ]
  simp only [read, hlexeme, past]

end Cursor

/-! ## All tokens -/

/-- The tokens of a text are those of its pieces, and what is made of the rest. -/
theorem Pieces.tokens (h : Pieces p cs ts q rest) :
    (Cursor.mk cs p).tokens =
      (ts ++ (Cursor.mk rest q).tokens.1, (Cursor.mk rest q).tokens.2) := by
  induction h with
  | nil => rfl
  | cons hw hl _ ih =>
    rw [Cursor.tokens_of_next (Cursor.next_of_lexeme hw hl _), if_neg hl.kind_ne_eof, ih]
    rfl

theorem tokens_of_end (hw : IsLayout w []) (p : Pos) :
    (Cursor.mk w p).tokens = ([.endMark (p.after w)], none) := by
  rw [Cursor.tokens_of_next (Cursor.next_of_end hw p)]
  rfl

theorem tokens_of_scrap {f : Flaw} (hw : IsLayout w (text ++ rest)) (h : IsScrap f text rest)
    (p : Pos) : (Cursor.mk (w ++ (text ++ rest)) p).tokens = ([], some ⟨f, p.after w⟩) :=
  Cursor.tokens_of_failure (Cursor.next_of_scrap hw h p)

/-- The text is layout, or layout before a stretch that makes no token. -/
inductive IsEnding : List Char → Prop
  | layout {w : List Char} (hw : IsLayout w []) : IsEnding w
  | scrap {w text rest : List Char} {f : Flaw} (hw : IsLayout w (text ++ rest))
      (h : IsScrap f text rest) : IsEnding (w ++ (text ++ rest))

/-- Every text is pieces and an ending. -/
theorem exists_pieces (p : Pos) (cs : List Char) :
    ∃ ts q rest, Pieces p cs ts q rest ∧ IsEnding rest := by
  generalize hn : cs.length = n
  induction n using Nat.strongRecOn generalizing p cs with
  | ind n ih =>
    obtain ⟨w, rest, rfl, hw, hfree⟩ : ∃ w rest, cs = w ++ rest ∧ IsLayout w rest ∧
        LayoutFree rest :=
      ⟨_, _, (layout_append false cs).symm, isLayout_layout cs, layoutFree_layout false cs⟩
    cases rest with
    | nil =>
      rw [List.append_nil]
      exact ⟨[], p, w, .nil p w, .layout hw⟩
    | cons c ds =>
      rcases lexeme_cases (hfree c rfl) ds with ⟨l, hl, hlexeme⟩ | ⟨r, hr, hscrap⟩
      · have hlt := rest_length_lt_of_lexeme hl
        obtain ⟨htext, -⟩ := lexeme_append hl
        rw [← htext] at hw ⊢
        obtain ⟨ts, q, rest, hpieces, hending⟩ :=
          ih l.rest.length (by rw [← hn, List.length_append]; omega) (p.after (w ++ l.text))
            l.rest rfl
        exact ⟨_, q, rest, .cons hw hlexeme hpieces, hending⟩
      · rw [← scrap_append hr] at hw ⊢
        exact ⟨[], p, _, .nil p _, .scrap hw hscrap⟩

/-- What holds of the tokens of lexemes and of end marks holds of every token of a text. -/
theorem Cursor.forall_tokens {T : Token → Prop} (c : Cursor)
    (lexeme : ∀ k v text rest p, IsLexeme k v text rest → T ⟨k, v, p⟩)
    (mark : ∀ p, T (.endMark p)) : ∀ t ∈ c.tokens.1, T t := by
  have pieces {p q : Pos} {cs rest : List Char} {ts : List Token} (h : Pieces p cs ts q rest) :
      ∀ t ∈ ts, T t := by
    induction h with
    | nil => exact fun t ht => absurd ht List.not_mem_nil
    | cons _ hl _ ih => exact List.forall_mem_cons.2 ⟨lexeme _ _ _ _ _ hl, ih⟩
  obtain ⟨ts, q, rest, hpieces, hending⟩ := exists_pieces c.pos c.rest
  rw [hpieces.tokens]
  refine List.forall_mem_append.2 ⟨pieces hpieces, ?_⟩
  cases hending with
  | layout hw =>
    rw [tokens_of_end hw]
    exact List.forall_mem_singleton.2 (mark _)
  | scrap hw h =>
    rw [tokens_of_scrap hw h]
    exact fun t ht => absurd ht List.not_mem_nil

/-- **The tokens of a text, exactly.** Lexing runs to the end if and only if the text is pieces and
layout, and then gives the tokens of the pieces and one end mark. It fails at a literal if and only
if the text is pieces, layout and a quote without a second one, where the failure is. It fails at a
number if and only if more than 4300 digits follow pieces and layout, and no others behind them. -/
theorem tokens_exact (s : String) :
    (∀ ts, (Cursor.ofText s).tokens = (ts, none) ↔
      ∃ us q rest, Pieces .start s.toList us q rest ∧ IsLayout rest [] ∧
        (∀ t ∈ us, t.kind ≠ .eof) ∧ ts = us ++ [.endMark (q.after rest)]) ∧
    (∀ ts l p, (Cursor.ofText s).tokens = (ts, some ⟨.unterminated l, p⟩) ↔
      ∃ q w body, Pieces .start s.toList ts q (w ++ l.quote :: body) ∧
        IsLayout w (l.quote :: body) ∧ l.quote ∉ body ∧ p = q.after w) ∧
    ∀ ts n p, (Cursor.ofText s).tokens = (ts, some ⟨.tooLong n, p⟩) ↔
      ∃ q w ds rest, Pieces .start s.toList ts q (w ++ (ds ++ rest)) ∧ IsLayout w (ds ++ rest) ∧
        (∀ d ∈ ds, d.isDigit = true) ∧ (∀ d ∈ rest.head?, ¬d.isDigit = true) ∧
        4300 < ds.length ∧ n = ds.length ∧ p = q.after w := by
  have ends {us q rest} (h : Pieces .start s.toList us q rest) (hrest : IsLayout rest []) :
      (Cursor.ofText s).tokens = (us ++ [Token.endMark (q.after rest)], none) := by
    rw [Cursor.ofText, h.tokens, tokens_of_end hrest]
  have fails {us q w text rest f} (h : Pieces .start s.toList us q (w ++ (text ++ rest)))
      (hw : IsLayout w (text ++ rest)) (hscrap : IsScrap f text rest) :
      (Cursor.ofText s).tokens = (us, some ⟨f, q.after w⟩) := by
    rw [Cursor.ofText, h.tokens, tokens_of_scrap hw hscrap, List.append_nil]
  obtain ⟨us, q, rest, hpieces, hending⟩ := exists_pieces .start s.toList
  -- the ending that the text has says what the tokens are, and so which of the three cases it is
  refine ⟨fun ts => ⟨fun htokens => ?_, ?_⟩, fun ts l p => ⟨fun htokens => ?_, ?_⟩,
    fun ts n p => ⟨fun htokens => ?_, ?_⟩⟩
  · cases hending with
    | layout hrest =>
      rw [ends hpieces hrest] at htokens
      cases htokens
      exact ⟨us, q, rest, hpieces, hrest, hpieces.kind_ne_eof, rfl⟩
    | scrap hw hscrap =>
      rw [fails hpieces hw hscrap] at htokens
      cases htokens
  · rintro ⟨us, q, rest, h, hrest, -, rfl⟩
    exact ends h hrest
  · cases hending with
    | layout hrest =>
      rw [ends hpieces hrest] at htokens
      cases htokens
    | scrap hw hscrap =>
      rw [fails hpieces hw hscrap] at htokens
      cases htokens
      cases hscrap with
      | unterminated hbody =>
        rw [List.append_nil] at hpieces hw
        exact ⟨q, _, _, hpieces, hw, hbody, rfl⟩
  · rintro ⟨q, w, body, h, hw, hbody, rfl⟩
    rw [← List.append_nil (l.quote :: body)] at h hw
    exact fails h hw (.unterminated hbody)
  · cases hending with
    | layout hrest =>
      rw [ends hpieces hrest] at htokens
      cases htokens
    | scrap hw hscrap =>
      rw [fails hpieces hw hscrap] at htokens
      cases htokens
      cases hscrap with
      | tooLong digits maximal long =>
        exact ⟨q, _, _, _, hpieces, hw, digits, maximal, long, rfl, rfl⟩
  · rintro ⟨q, w, ds, rest, h, hw, digits, maximal, long, rfl, rfl⟩
    exact fails h hw (.tooLong digits maximal long)

/-- A text that begins with one digit, repeated too often, has no tokens. -/
theorem tokens_replicate {n : Nat} {c : Char} (rest : List Char) (hc : c.isDigit = true)
    (hn : 4300 < n) (maximal : ∀ d ∈ rest.head?, ¬d.isDigit = true) :
    (Cursor.ofText (String.ofList (List.replicate n c ++ rest))).tokens =
      ([], some ⟨.tooLong n, .start⟩) := by
  have digits : ∀ d ∈ List.replicate n c, d.isDigit = true := fun d hd => by
    rwa [List.eq_of_mem_replicate hd]
  have hscrap := IsScrap.tooLong digits maximal (by rwa [List.length_replicate])
  rw [List.length_replicate] at hscrap
  rw [Cursor.ofText, String.toList_ofList]
  exact tokens_of_scrap (.nil _) hscrap .start

/-- Zero written with 4301 digits fits into 64 bits and is not read, and so the quote behind it,
which has no second one, is not what lexing fails at. -/
theorem longZero_fails :
    let ds := List.replicate 4301 '0'
    (∀ d ∈ ds, d.isDigit = true) ∧ Nat.ofDigitChars 10 ds 0 < 2 ^ 64 ∧
      IsLayout [' '] ['\x22'] ∧
      (Cursor.ofText (String.ofList (ds ++ [' ', '\x22']))).tokens =
        ([], some ⟨.tooLong 4301, ⟨1, 1⟩⟩) := by
  intro ds
  refine ⟨fun d hd => ?_, ?_, .blank (by decide) (.nil _),
    tokens_replicate _ rfl (by decide) (by simp)⟩
  · rw [List.eq_of_mem_replicate hd]
    rfl
  · rw [ofDigitChars_zeros]
    decide

/-! ## The stream of a text -/

/-- The stream of a text delivers the tokens of its pieces. What closes them is the end mark behind
the layout at the end, or the failure at what makes no token there. -/
theorem exists_view_ofText (source : String) :
    ∃ us q rest, Pieces .start source.toList us q rest ∧
      (Stream.ofText source).view.ahead = us ∧
      (IsLayout rest [] ∧
          (Cursor.ofText source).tokens = (us ++ [Token.endMark (q.after rest)], none) ∧
          (Stream.ofText source).view.close = .ok (.endMark (q.after rest)) ∨
        ∃ e, (Cursor.ofText source).tokens = (us, some e) ∧
          (Stream.ofText source).view.close = .error e) := by
  obtain ⟨us, q, rest, hpieces, hending⟩ := exists_pieces .start source.toList
  have htokens : (Cursor.ofText source).tokens = _ := hpieces.tokens
  have hview : (Stream.ofText source).view =
      .upToMark ((Cursor.ofText source).tokens.2.elim (.ok (.endMark ⟨0, 0⟩)) .error)
        (Cursor.ofText source).tokens.1 := rfl
  refine ⟨us, q, rest, hpieces, ?_⟩
  cases hending with
  | layout hw =>
    rw [tokens_of_end hw] at htokens
    rw [htokens, View.upToMark_append_mark hpieces.kind_ne_eof rfl] at hview
    rw [hview]
    exact ⟨rfl, .inl ⟨hw, htokens, rfl⟩⟩
  | scrap hw h =>
    rw [tokens_of_scrap hw h, List.append_nil] at htokens
    rw [htokens, View.upToMark_of_ne_eof hpieces.kind_ne_eof] at hview
    rw [hview]
    exact ⟨rfl, .inr ⟨_, htokens, rfl⟩⟩

end ToyLang
