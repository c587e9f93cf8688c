import ToyLang.Proofs.Printing.Page

/-!
# Printed statements

A regular statement writes lines that spell its tokens (`Stmt.Regular.writes`). A line is read from
the left: behind a closed piece anything may stand, behind another one only what starts with a
boundary.
-/

set_option autoImplicit false

namespace ToyLang

variable {definite : Prop} {ts us : List Token} {name : String} {pos : Pos}

/-! ## Lines -/

section

variable {s t : String}

theorem Closed.then_spells (hs : Closed s.toList ts) (ht : Spells t.toList us) :
    Spells (s ++ t).toList (ts ++ us) := by
  rw [String.toList_append]
  exact hs.spells_append ht

theorem Spells.then_spells (hs : Spells s.toList ts) (hbound : Bounded t.toList)
    (ht : Spells t.toList us) : Spells (s ++ t).toList (ts ++ us) := by
  rw [String.toList_append]
  exact hs.append hbound ht

theorem Spells.then_closed (hs : Spells s.toList ts) (hbound : Bounded t.toList)
    (hne : t.toList ≠ []) (ht : Closed t.toList us) : Closed (s ++ t).toList (ts ++ us) := by
  rw [String.toList_append]
  obtain ⟨c, cs, hcons⟩ := List.exists_cons_of_ne_nil hne
  rw [hcons] at hbound ht ⊢
  exact hs.closed_append (hbound c rfl) ht

theorem Spells.semicolon (hs : Spells s.toList ts) :
    Spells (s ++ ";").toList (ts ++ [Token.ofPunct .semicolon]) :=
  hs.then_spells (bounded_cons rfl) (spells_punct .semicolon)

theorem Spells.colon (hs : Spells s.toList ts) :
    Closed (s ++ " : ").toList (ts ++ [Token.ofPunct .colon]) :=
  hs.then_closed (bounded_cons rfl) (by decide)
    ((closed_space rfl).append (spells_punct .colon).space)

theorem closed_assign : Closed " := ".toList [.ofOperator .assign] :=
  (closed_space rfl).append (spells_operator .assign).space

theorem Spells.assign (hs : Spells s.toList ts) (ht : Spells t.toList us) :
    Spells (s ++ " := " ++ t).toList (ts ++ .ofOperator .assign :: us) := by
  have := (hs.then_closed (t := " := ") (bounded_cons rfl) (by decide) closed_assign).then_spells ht
  rwa [List.append_assoc] at this

end

/-- A keyword with a blank behind it. -/
theorem closed_keyword {s : String} (k : Keyword) (hs : s.toList = k.spelling.toList ++ [' ']) :
    Closed s.toList [.ofKeyword k] := by
  rw [hs]
  exact (spells_keyword k).space

/-- A keyword with a blank in front of it. -/
theorem Spells.then_keyword {s t : String} (hs : Spells s.toList ts) (k : Keyword)
    (ht : t.toList = ' ' :: k.spelling.toList) :
    Spells (s ++ t).toList (ts ++ [Token.ofKeyword k]) := by
  refine hs.then_spells ?_ ?_
  · rw [ht]
    exact bounded_cons rfl
  · rw [ht]
    exact (closed_space rfl).spells_append (spells_keyword k)

/-- A name with its type behind a closed piece. -/
theorem Closed.typed {s : String} (hs : Closed s.toList ts) (h : IsName name) (type : Scalar) :
    Spells (s ++ name ++ " : " ++ type.spelling).toList
      (ts ++ typedTokens name (.scalar type)) := by
  have := (hs.then_spells (spells_name h)).colon.then_spells (spells_scalar type)
  simpa [typedTokens, DataType.text] using this

theorem Expr.Initializes.printed {e : Expr} (h : e.Initializes definite name) :
    ∃ text, e.printInitializer = .ok text ∧ Bounded text.toList ∧
      Spells text.toList e.initializerTokens := by
  cases h with
  | absent pos => exact ⟨"", rfl, fun _ hc => by simp at hc, closed_nil.spells⟩
  | assign v pos tpos hv =>
    obtain ⟨text, htext, hspells, -⟩ := hv.regular.printed
    refine ⟨" := " ++ text, ?_, ?_, ?_⟩
    · show (do return " := " ++ (← v.print) : Except PrintError String) = _
      rw [htext]
      rfl
    · rw [String.toList_append]
      exact bounded_cons rfl
    · exact closed_assign.then_spells hspells

theorem spells_const {value : String} (h : IsName name) (s : Scalar)
    (hv : Spells value.toList ts) :
    Spells (constText name (.scalar s) value).toList (constTokens name (.scalar s) ts) := by
  have htyped := (closed_keyword (s := "const ") .const_ rfl).typed h s
  exact (htyped.assign hv).semicolon

/-! ## Statements -/

namespace Stmt

/-- The statement writes its tokens. -/
def Written (s : Stmt) : Prop := Writes s.print s.tokens

theorem written_varDec {s : Scalar} {e : Expr} (h : IsName name)
    (he : e.Initializes definite name) :
    Written { kind := .varDec, name, dataType := .scalar s, expr := e, pos } := by
  obtain ⟨text, htext, hbounded, hspells⟩ := he.printed
  refine Writes.of_ok htext (writes_line ?_)
  have htyped := (closed_keyword (s := "var ") .var_ rfl).typed h s
  exact (htyped.then_spells hbounded hspells).semicolon

theorem written_arrayDec {s : Scalar} {e : Expr} (h : IsName name) (he : e.Regular definite) :
    Written { kind := .arrayDec, name, dataType := .scalar s, expr := e, pos } := by
  obtain ⟨text, htext, hspells, -⟩ := he.printed
  refine Writes.of_ok htext (writes_line ?_)
  have htyped := (closed_keyword (s := "var ") .var_ rfl).typed h s
  have hopen := htyped.then_closed (t := "[") (bounded_cons rfl) (by decide)
    (closed_punct .lbracket (by decide))
  have hend := (closed_punct .rbracket (by decide)).spells_append (spells_punct .semicolon)
  have := (hopen.then_spells hspells).then_spells (t := "];") (bounded_cons rfl) hend
  rw [List.append_assoc _ [Token.ofPunct .lbracket]] at this
  exact this

theorem written_structDec {type : String} {tpos : Pos} (h : IsName name) (htype : IsName type) :
    Written { kind := .structDec, name, expr := .identifier (.text type) tpos, pos } :=
  have hname := (closed_keyword (s := "struct ") .struct_ rfl).then_spells (spells_name h)
  writes_line (hname.colon.then_spells (spells_name htype)).semicolon

theorem written_exprStmt {e v : Expr} {apos : Pos} (he : e.Regular definite)
    (hv : v.Regular definite) :
    Written { kind := .exprStmt, expr := .operation .assign e v apos, pos } := by
  obtain ⟨target, htarget, hspells, -⟩ := he.printed
  obtain ⟨value, hvalue, hspells', -⟩ := hv.printed
  refine Writes.of_ok (x := pure e) rfl (Writes.of_ok htarget (Writes.of_ok (x := pure v) rfl
    (Writes.of_ok hvalue (writes_line ?_))))
  exact (hspells.assign hspells').semicolon

theorem written_callStmt {e : Expr} (h : IsName name) (he : e.Regular definite) :
    Written { kind := .callStmt, name, expr := e, pos } := by
  obtain ⟨text, htext, hspells, -⟩ := he.printed
  refine Writes.of_ok htext (writes_line ?_)
  have hopen := (spells_name h).then_closed (t := "(") (bounded_cons rfl) (by decide)
    (closed_punct .lparen (by decide))
  have hend := (closed_punct .rparen (by decide)).spells_append (spells_punct .semicolon)
  have := (hopen.then_spells hspells).then_spells (t := ");") (bounded_cons rfl) hend
  have htokens : tokens { kind := .callStmt, name, expr := e, pos } =
      [Token.ofWord name] ++ [Token.ofPunct .lparen] ++ e.tokens ++
        ([Token.ofPunct .rparen] ++ [Token.ofPunct .semicolon]) := by
    simp [tokens, inParentheses]
  rw [htokens]
  exact this

theorem written_return {e : Expr} (he : e.Regular definite) :
    Written { kind := .return_, expr := e, pos } := by
  unfold Written print
  dsimp only
  split
  · next hnone =>
    have htokens : tokens { kind := .return_, expr := e, pos } =
        [Token.ofKeyword .return_] ++ [Token.ofPunct .semicolon] := by
      simp [tokens, he.tokens_of_isNone hnone]
    rw [htokens]
    exact writes_line ((spells_keyword .return_).semicolon)
  · obtain ⟨text, htext, hspells, -⟩ := he.printed
    refine Writes.of_ok htext (writes_line ?_)
    exact ((closed_keyword (s := "return ") .return_ rfl).then_spells hspells).semicolon

theorem writes_all {ss : List Stmt} (h : ∀ s ∈ ss, Written s) :
    Writes (printAll ss) (tokensAll ss) := by
  induction ss with
  | nil => exact writes_pure
  | cons s ss ih =>
    exact (h s List.mem_cons_self).then (ih fun t ht => h t (List.mem_cons_of_mem s ht))

theorem writes_body {ss : List Stmt} (pos : Pos) (h : ∀ s ∈ ss, Written s) :
    Writes (printBody (bodyOf ss pos)) (tokensAll ss) := writes_nested (writes_all h)

theorem writes_end : Writes (Printing.line "end") [.ofKeyword .end_] :=
  writes_line (spells_keyword .end_)

theorem written_while {e : Expr} {ss : List Stmt} {bpos : Pos} (he : e.Regular definite)
    (hs : ∀ s ∈ ss, Written s) :
    Written { kind := .while_, expr := e, statements := bodyOf ss bpos, pos } := by
  obtain ⟨text, htext, hspells, -⟩ := he.printed
  have hline := ((closed_keyword (s := "while ") .while_ rfl).then_spells hspells).then_keyword
    (t := " do") .do_ rfl
  have := (writes_line hline).then ((writes_body bpos hs).then writes_end)
  have htokens : tokens { kind := .while_, expr := e, statements := bodyOf ss bpos, pos } =
      [Token.ofKeyword .while_] ++ e.tokens ++ [Token.ofKeyword .do_] ++
        (tokensAll ss ++ [Token.ofKeyword .end_]) := by
    simp [tokens, tokensBody, bodyOf, block]
  rw [Written, htokens]
  exact Writes.of_ok htext this

theorem written_elif {e : Expr} {ss : List Stmt} {bpos : Pos} (he : e.Regular definite)
    (hs : ∀ s ∈ ss, Written s) :
    Written { kind := .elif_, expr := e, statements := bodyOf ss bpos, pos } := by
  obtain ⟨text, htext, hspells, -⟩ := he.printed
  have hline := ((closed_keyword (s := "elif ") .elif_ rfl).then_spells hspells).then_keyword
    (t := " then") .then_ rfl
  have := (writes_line hline).then (writes_body bpos hs)
  have htokens : tokens { kind := .elif_, expr := e, statements := bodyOf ss bpos, pos } =
      [Token.ofKeyword .elif_] ++ e.tokens ++ [Token.ofKeyword .then_] ++ tokensAll ss := by
    simp [tokens, tokensBody, bodyOf, block]
  rw [Written, htokens]
  exact Writes.of_ok htext this

theorem written_else {ss : List Stmt} {epos bpos : Pos} (hs : ∀ s ∈ ss, Written s) :
    Written { kind := .else_, expr := .none epos, statements := bodyOf ss bpos, pos } :=
  (writes_line (spells_keyword .else_)).then (writes_body bpos hs)

theorem written_clause {b : Stmt} {bs : List Stmt} (h : IsChain bs) (hb : b ∈ bs)
    (he : b.expr.Regular definite) (hs : ∀ s ∈ b.inner, Written s) : Written b := by
  obtain ⟨condition, ss, pos, bpos, rfl⟩ | ⟨ss, epos, pos, bpos, rfl⟩ := h.mem hb
  · rw [inner_body] at hs
    exact written_elif he hs
  · rw [inner_body] at hs
    exact written_else hs

theorem written_if {e : Expr} {ss bs : List Stmt} {bpos : Pos} (he : e.Regular definite)
    (hs : ∀ s ∈ ss, Written s) (hb : ∀ b ∈ bs, Written b) :
    Written { kind := .if_, expr := e, statements := bodyOf ss bpos, branches := bs, pos } := by
  obtain ⟨text, htext, hspells, -⟩ := he.printed
  have hline := ((closed_keyword (s := "if ") .if_ rfl).then_spells hspells).then_keyword
    (t := " then") .then_ rfl
  have := (writes_line hline).then ((writes_body bpos hs).then
    ((writes_all hb).then writes_end))
  have htokens :
      tokens { kind := .if_, expr := e, statements := bodyOf ss bpos, branches := bs, pos } =
        [Token.ofKeyword .if_] ++ e.tokens ++ [Token.ofKeyword .then_] ++
          (tokensAll ss ++ (tokensAll bs ++ [Token.ofKeyword .end_])) := by
    simp [tokens, tokensBody, bodyOf, block]
  rw [Written, htokens]
  exact Writes.of_ok htext this

/-- **A regular statement writes its tokens.** -/
theorem Regular.written {s : Stmt} (h : s.Regular definite) : Written s := by
  induction h with
  | varDec name s e pos h he => exact written_varDec h he
  | arrayDec name s e pos h he => exact written_arrayDec h he
  | structDec name type pos tpos h htype => exact written_structDec h htype
  | exprStmt target v pos apos htarget ht hv => exact written_exprStmt ht hv.regular
  | callStmt name e pos h he => exact written_callStmt h he
  | return_ e pos he => exact written_return he
  | break_ epos pos => exact writes_line (spells_keyword .break_).semicolon
  | continue_ epos pos => exact writes_line (spells_keyword .continue_).semicolon
  | while_ condition ss pos bpos hc _ ih => exact written_while hc ih
  | if_ condition ss branches pos bpos hc _ hchain hconditions _ ih ihb =>
    exact written_if hc ih fun b hb => written_clause hchain hb (hconditions b hb) (ihb b hb)

end Stmt

end ToyLang
