import ToyLang.Proofs.Lexing.Tracking

/-!
# Lexing is local to lines

No lexeme of a text that can be lexed runs on behind a line feed that is put at the end of the text,
and a comment ends there. So the text keeps its tokens whatever follows that line feed, and what
follows is read as it would be alone, some lines further down.

* `IsLayout.before_line`, `IsLexeme.before_line`, `Pieces.before_line`: a line feed and any text
  behind it change nothing of what stands before it.
* `Cursor.tokens_down`: a text that begins further down has its tokens further down.
* `lexing_line_local`: the tokens of two texts with a line feed between them.
-/

set_option autoImplicit false

namespace ToyLang

variable {c : Char} {cs w text rest : List Char} {p q : Pos} {ts : List Token}

/-! ## A line feed behind a text -/

/-- The text with a line feed and another text behind it begins as before, or with the line feed. -/
theorem forall_head_before_line {P : Char → Prop} (h : ∀ c ∈ rest.head?, P c) (hline : P '\n') :
    ∀ c ∈ (rest ++ '\n' :: cs).head?, P c := by
  cases rest with
  | nil =>
    intro c hc
    cases hc
    exact hline
  | cons c rest => exact h

theorem IsLayout.before_line (h : IsLayout w rest) (cs : List Char) :
    IsLayout w (rest ++ '\n' :: cs) := by
  induction h with
  | nil rest => exact .nil _
  | blank hc _ ih => exact .blank hc ih
  | comment hbody hend _ ih =>
    refine .comment hbody ?_ ih
    rw [← List.append_assoc]
    exact forall_head_before_line hend rfl

/-- No symbol has a line feed in the second place. -/
theorem TokenKind.not_isSymbol_line (k : TokenKind) : ¬k.IsSymbol [c, '\n'] :=
  fun h => absurd h.pair.2 (by decide)

theorem IsLexeme.before_line {k : TokenKind} {v : Payload} (h : IsLexeme k v text rest)
    (cs : List Char) : IsLexeme k v text (rest ++ '\n' :: cs) := by
  cases h with
  | word hk start tail maximal =>
    exact .word hk start tail (forall_head_before_line maximal (by decide))
  | number nonempty digits maximal short fits =>
    exact .number nonempty digits (forall_head_before_line maximal (by decide)) short fits
  | largeNumber nonempty digits maximal short large =>
    exact .largeNumber nonempty digits (forall_head_before_line maximal (by decide)) short large
  | string hbody => exact .string hbody
  | char hc => exact .char hc
  | malformedChar hbody length => exact .malformedChar hbody length
  | symbol hk maximal =>
    exact .symbol hk fun c hc =>
      forall_head_before_line (maximal c hc) fun k => k.not_isSymbol_line
  | stray layout word quote single pair =>
    exact .stray layout word quote single
      (forall_head_before_line pair fun k => k.not_isSymbol_line)

theorem Pieces.before_line (h : Pieces p cs ts q rest) (ds : List Char) :
    Pieces p (cs ++ '\n' :: ds) ts q (rest ++ '\n' :: ds) := by
  induction h with
  | nil p rest => exact .nil p _
  | cons layout lexeme _ ih =>
    rw [List.append_assoc, List.append_assoc]
    refine .cons ?_ (lexeme.before_line ds) ih
    rw [← List.append_assoc]
    exact layout.before_line ds

/-- What is behind layout is read from there. -/
theorem Cursor.next_behind_layout (hw : IsLayout w rest) (p : Pos) :
    (Cursor.mk (w ++ rest) p).next = (Cursor.mk rest (p.after w)).next := by
  simp only [next, skipLayout, past, hw.layout_map, Prod.map, id, Pos.after_append]

/-! ## Texts that begin further down -/

/-- The position some lines further down, in the same column. -/
def Pos.down (n : Int) (p : Pos) : Pos := ⟨p.line + n, p.col⟩

/-- The token some lines further down. -/
def Token.down (n : Int) (t : Token) : Token := { t with pos := t.pos.down n }

/-- The failure some lines further down. -/
def LexicalError.down (n : Int) (e : LexicalError) : LexicalError := { e with pos := e.pos.down n }

/-- The message names the place, unless it is about a number. -/
theorem LexicalError.message_down (n : Int) (e : LexicalError) :
    (e.down n).message = match e.flaw with
      | .unterminated l =>
        s!"Unterminated {l.name} literal at line {e.pos.line + n}, col {e.pos.col}"
      | .tooLong _ => e.message := by
  obtain ⟨_ | _, _⟩ := e <;> rfl

theorem Pos.after_down (n : Int) (p : Pos) (text : List Char) :
    (p.down n).after text = (p.after text).down n := by
  induction text generalizing p with
  | nil => rfl
  | cons c cs ih =>
    have hadvance : (p.down n).advance c = (p.advance c).down n := by
      unfold advance
      split
      · exact congrArg (Pos.mk · 1) (by simp only [down]; omega)
      · rfl
    rw [after_cons, after_cons, hadvance, ih]

theorem Pieces.down (n : Int) (h : Pieces p cs ts q rest) :
    Pieces (p.down n) cs (ts.map (Token.down n)) (q.down n) rest := by
  induction h with
  | nil p rest => exact .nil _ rest
  | @cons p q w text cs rest k v ts layout lexeme _ ih =>
    rw [← Pos.after_down] at ih
    have := Pieces.cons layout lexeme ih
    rw [Pos.after_down] at this
    exact this

/-- A text that begins further down has the same tokens and the same failure further down. -/
theorem Cursor.tokens_down (n : Int) (cs : List Char) (p : Pos) :
    (Cursor.mk cs (p.down n)).tokens =
      ((Cursor.mk cs p).tokens.1.map (Token.down n),
        (Cursor.mk cs p).tokens.2.map (LexicalError.down n)) := by
  obtain ⟨us, q, rest, hpieces, hending⟩ := exists_pieces p cs
  rw [hpieces.tokens, (hpieces.down n).tokens]
  cases hending with
  | layout hw =>
    rw [tokens_of_end hw, tokens_of_end hw, Pos.after_down, List.map_append]
    rfl
  | scrap hw h =>
    rw [tokens_of_scrap hw h, tokens_of_scrap hw h, Pos.after_down, List.map_append]
    rfl

/-! ## Two texts with a line feed between them -/

/-- Behind a text and a line feed a line begins, below all the lines of the text. -/
theorem Pos.start_after_line (text : List Char) :
    Pos.start.after (text ++ ['\n']) = Pos.start.down (1 + text.count '\n') := by
  rw [start_after]
  simp [counted, down, start, Int.add_comm]

/-- Behind pieces, layout and a line feed the text goes on as one that begins below. -/
theorem Pieces.tokens_before_line {text : List Char} (h : Pieces .start text ts q w)
    (hw : IsLayout w []) (cs : List Char) :
    (Cursor.mk (text ++ '\n' :: cs) .start).tokens =
      (ts ++ (Cursor.mk cs (Pos.start.down (1 + text.count '\n'))).tokens.1,
        (Cursor.mk cs (Pos.start.down (1 + text.count '\n'))).tokens.2) := by
  obtain ⟨read, htext, hq⟩ := h.reaches
  have hpos : (q.after w).after ['\n'] = Pos.start.down (1 + text.count '\n') := by
    have htext : text = read ++ w := htext
    rw [← Pos.start_after_line, htext, Pos.after_append, Pos.after_append, ← hq]
  -- what is behind the last piece is layout of `cs` now, with the line feed
  have hfirst : IsLayout w ('\n' :: cs) := hw.before_line cs
  have hline : IsLayout ['\n'] cs := .blank (by decide) (.nil cs)
  have hnext : (Cursor.mk (w ++ '\n' :: cs) q).next =
      (Cursor.mk cs (Pos.start.down (1 + text.count '\n'))).next := by
    rw [← hpos]
    exact (Cursor.next_behind_layout hfirst q).trans (Cursor.next_behind_layout hline _)
  rw [(h.before_line cs).tokens, Cursor.tokens_congr hnext]

/-- **Lexing is local to lines.** If a text can be lexed to its end, then with a line feed and any
other text behind it, it has its tokens but for the end mark, and then come those of the other text,
further down by its line feeds and one and in their columns. The whole fails if and only if the
other text does, with its failure further down by as many lines, which is what the message says. -/
theorem lexing_line_local (s₁ s₂ : String) (h : (Cursor.ofText s₁).tokens.2 = none) :
    let n : Int := 1 + s₁.toList.count '\n'
    let both := (Cursor.ofText (s₁ ++ "\n" ++ s₂)).tokens
    (∃ us mark, (Cursor.ofText s₁).tokens.1 = us ++ [mark] ∧ mark.kind = .eof ∧
      (∀ t ∈ us, t.kind ≠ .eof) ∧
      both = (us ++ (Cursor.ofText s₂).tokens.1.map (Token.down n),
        (Cursor.ofText s₂).tokens.2.map (LexicalError.down n))) ∧
    both.2.map LexicalError.message = (Cursor.ofText s₂).tokens.2.map fun e => match e.flaw with
      | .unterminated l =>
        s!"Unterminated {l.name} literal at line {e.pos.line + n}, col {e.pos.col}"
      | .tooLong _ => e.message := by
  intro n both
  obtain ⟨us, q, rest, hpieces, hending⟩ := exists_pieces .start s₁.toList
  have htokens : (Cursor.ofText s₁).tokens = _ := hpieces.tokens
  cases hending with
  | scrap hw hscrap =>
    rw [htokens, tokens_of_scrap hw hscrap] at h
    cases h
  | layout hw =>
    have hboth : both = (us ++ (Cursor.ofText s₂).tokens.1.map (Token.down n),
        (Cursor.ofText s₂).tokens.2.map (LexicalError.down n)) := by
      have htext : (s₁ ++ "\n" ++ s₂).toList = s₁.toList ++ '\n' :: s₂.toList := by simp
      have := hpieces.tokens_before_line hw s₂.toList
      rw [← htext, Cursor.tokens_down] at this
      exact this
    rw [tokens_of_end hw] at htokens
    refine ⟨⟨us, _, congrArg Prod.fst htokens, rfl, hpieces.kind_ne_eof, hboth⟩, ?_⟩
    rw [hboth, Option.map_map]
    exact congrArg (Option.map · _) (funext (LexicalError.message_down n))

/-- At the line feed the comment ends and the colon does not run on into the equals sign, and the
quote in the comment closes nothing. -/
theorem seam_lexed :
    (Cursor.ofText "a :# \x22b").tokens.2 = none ∧
      (Cursor.ofText ("a :# \x22b" ++ "\n" ++ "= \x22c")).tokens =
        ([⟨.ident, .text "a", ⟨1, 1⟩⟩, ⟨.punct .colon, .text ":", ⟨1, 3⟩⟩,
          ⟨.operator .eq, .text "=", ⟨2, 1⟩⟩], some ⟨.unterminated .string, ⟨2, 3⟩⟩) := by
  have hlexed : (Cursor.ofText "a :# \x22b").tokens =
      ([⟨.ident, .text "a", ⟨1, 1⟩⟩, ⟨.punct .colon, .text ":", ⟨1, 3⟩⟩] ++ [Token.endMark ⟨1, 8⟩],
        none) := by
    decide +kernel
  refine ⟨congrArg Prod.snd hlexed, ?_⟩
  obtain ⟨⟨us, mark, htokens, -, -, hboth⟩, -⟩ :=
    lexing_line_local "a :# \x22b" "= \x22c" (congrArg Prod.snd hlexed)
  rw [hlexed] at htokens
  obtain ⟨rfl, -⟩ := List.append_inj' htokens rfl
  rw [hboth]
  decide +kernel

end ToyLang
