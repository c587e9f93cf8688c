import ToyLang.Proofs.Accept.Statement
import ToyLang.Proofs.Roundtrip.Declaration

/-!
# Statements are read as foreseen

The tokens of a regular statement are accepted where a block goes on (`Runs`), and those of a row of
statements up to the token that ends its block (`accept_row`). Chains of clauses are read clause by
clause, each block being ended by the first token of what follows (`accept_clauses`).
-/

set_option autoImplicit false

namespace ToyLang.Parser

open Builder

variable {mark t : Token} {n : Nat} {ts rest : List Token} {cs : List TypedName}
  {s : Stmt} {ss bs : List Stmt} {e : Expr} {name : String} {pos : Pos}

/-- The statement is accepted as foreseen in a block. -/
def Runs (s : Stmt) : Prop :=
  ∃ t body, s.tokens = t :: body ∧ IsStart t.kind ∧
    ∀ mark n rest cs, (body ++ rest).length ≤ n →
      (statement n t).accept mark (body ++ rest, cs) = s.reread.map fun s' => (some s', rest, cs)

/-! ## Declarations -/

theorem runs_varDec {sc : Scalar} (h : IsName name) (he : e.Initializes False name) :
    Runs { kind := .varDec, name, dataType := .scalar sc, expr := e, pos } := by
  refine ⟨.ofKeyword .var_, .ofWord name :: .ofPunct .colon :: .ofWord sc.spelling ::
    e.initializerTokens ++ [Token.ofPunct .semicolon], rfl, by simp [IsStart, Token.ofKeyword],
    fun mark n rest cs hn => ?_⟩
  simp only [List.cons_append, List.append_assoc, List.nil_append, List.length_cons] at hn ⊢
  have hread := accept_initializer (n := n) mark rest cs he
    (.ofWord name) (by omega)
  -- no bracket follows the type
  obtain ⟨u, us, hu, hne⟩ : ∃ u us, e.initializerTokens ++ Token.ofPunct .semicolon :: rest =
      u :: us ∧ u.kind ≠ .punct .lbracket := by
    cases he with
    | absent pos => exact ⟨_, _, rfl, by simp [Token.ofPunct]⟩
    | assign v pos tpos hv => exact ⟨_, _, rfl, by simp [Token.ofOperator]⟩
  rw [hu, h.token] at hread
  rw [hu, h.token]
  rw [statement_var n rfl, accept_bind_pure,
    accept_variableDec_of rfl rfl (kind_ofWord_scalar sc) hne (r := e.rereadInitializer) hread]
  unfold Stmt.reread
  cases e.rereadInitializer <;> rfl

theorem runs_arrayDec {sc : Scalar} (h : IsName name) (he : e.Regular False) :
    Runs { kind := .arrayDec, name, dataType := .scalar sc, expr := e, pos } := by
  refine ⟨.ofKeyword .var_, .ofWord name :: .ofPunct .colon :: .ofWord sc.spelling ::
    .ofPunct .lbracket :: e.tokens ++ [Token.ofPunct .rbracket, .ofPunct .semicolon], rfl,
    by simp [IsStart, Token.ofKeyword], fun mark n rest cs hn => ?_⟩
  simp only [List.cons_append, List.append_assoc, List.nil_append, List.length_cons] at hn ⊢
  have hread : (plainExpression n (.punct .rbracket)).accept mark
      (e.tokens ++ .ofPunct .rbracket :: .ofPunct .semicolon :: rest, cs) =
        e.reread.map fun e' => (e', .ofPunct .semicolon :: rest, cs) :=
    accept_plainExpression (t := .ofPunct .rbracket) mark cs he isStop_rbracket
      rfl (by omega)
  rw [h.token, statement_var n rfl, accept_bind_pure,
    accept_arrayDec_of rfl rfl (kind_ofWord_scalar sc) rfl rfl (r := e.reread) hread]
  unfold Stmt.reread
  cases e.reread <;> rfl

theorem runs_structDec {type : String} {tpos : Pos} (h : IsName name) (htype : IsName type) :
    Runs { kind := .structDec, name, expr := .identifier (.text type) tpos, pos } := by
  refine ⟨.ofKeyword .struct_, [.ofWord name, .ofPunct .colon, .ofWord type, .ofPunct .semicolon],
    rfl, by simp [IsStart, Token.ofKeyword], fun mark n rest cs hn => ?_⟩
  simp only [List.cons_append, List.nil_append] at hn ⊢
  rw [statement_struct n rfl, accept_bind_pure, h.token, htype.token,
    accept_structDec_of rfl rfl rfl rfl (by simp only [List.length_cons] at hn ⊢; omega)]
  rfl

/-! ## Assignments and calls -/

/-- A target in front of what it cannot contain. -/
theorem accept_target (h : e.Regular False) (ht : e.IsTarget) :
    ∃ name suffix, IsName name ∧ e.tokens = .ofWord name :: suffix ∧ ∀ mark n rest cs,
      Follows rest → (suffix ++ rest).length ≤ n →
        (target n (.ofWord name)).accept mark (suffix ++ rest, cs) =
          e.reread.map fun e' => (e', rest, cs) := by
  cases h with
  | identifier s pos h =>
    refine ⟨s, [], h, rfl, fun mark n rest cs hrest _ => ?_⟩
    obtain ⟨u, us, rfl, hu⟩ := hrest
    simp only [List.mem_cons, List.not_mem_nil, or_false, not_or] at hu
    rw [h.token, List.nil_append, accept_target_bare hu.2.1 hu.2.2]
    rfl
  | arrayAcc s arg pos h harg =>
    refine ⟨s, .ofPunct .lbracket :: arg.tokens ++ [Token.ofPunct .rbracket], h, rfl,
      fun mark n rest cs _ hn => ?_⟩
    simp only [List.cons_append, List.append_assoc, List.nil_append, List.length_cons] at hn ⊢
    have hread : (plainExpression n (.punct .rbracket)).accept mark
        (arg.tokens ++ .ofPunct .rbracket :: rest, cs) =
          arg.reread.map fun e' => (e', rest, cs) :=
      accept_plainExpression (t := .ofPunct .rbracket) mark cs harg isStop_rbracket rfl
        (by omega)
    rw [Expr.reread_access _ (.inr rfl), h.token, accept_target_element rfl hread, Option.map_map]
    rfl
  | structAcc s m pos mpos h hm =>
    refine ⟨s, [.ofPunct .dot, .ofWord m], h, rfl, fun mark n rest cs _ hn => ?_⟩
    rw [h.token, hm.token]
    exact accept_target_member rfl rfl
  | _ => rcases ht with ht | ht | ht <;> cases ht

theorem accept_identifier (h : IsName name) (s : List Token × List TypedName) :
    (statement n (.ofWord name)).accept mark s =
      ((identifierStatement n ⟨.ident, .text name, ⟨0, 0⟩⟩).accept mark s).map fun r =>
        (some r.1, r.2) := by
  rw [h.token, statement_name n rfl]
  exact accept_bind_pure ..

theorem runs_exprStmt {v : Expr} {apos : Pos} (ht : e.IsTarget) (he : e.Regular False)
    (hv : v.Regular False) :
    Runs { kind := .exprStmt, expr := .operation .assign e v apos, pos } := by
  obtain ⟨name, suffix, hname, htokens, htarget⟩ := accept_target he ht
  refine ⟨.ofWord name, suffix ++ .ofOperator .assign :: v.tokens ++ [Token.ofPunct .semicolon], ?_,
    by simp [IsStart, hname.token], fun mark n rest cs hn => ?_⟩
  · show (e.tokens ++ _) ++ _ = _
    rw [htokens]
    simp
  simp only [List.cons_append, List.append_assoc, List.nil_append] at hn ⊢
  have htarget := htarget mark n _ cs (follows_operator rfl) hn
  have hread : (expression n (.punct .semicolon)).accept mark
      (.ofOperator .assign :: (v.tokens ++ .ofPunct .semicolon :: rest), cs) =
        v.rereadAssigned.map fun v' => (.pending ⟨v', .ofOperator .assign⟩, rest, cs) :=
    accept_assigned (t := .ofPunct .semicolon) hv isStop_semicolon
      (by rw [List.length_append] at hn; omega)
  have hassign : Stmt.reread { kind := .exprStmt, expr := .operation .assign e v apos, pos } =
      (Expr.rereadAssignment e v).map fun expr => { kind := .exprStmt, expr } := by
    rw [Option.map_eq_bind]
    rfl
  rw [hname.token] at htarget
  rw [accept_identifier hname, identifierStatement, accept_bind, htarget, hassign,
    Expr.rereadAssignment]
  cases e.reread with
  | none => rfl
  | some e' =>
    rw [Option.map_some, Option.bind_some, accept_bind, hread]
    cases v.rereadAssigned <;> rfl

theorem runs_callStmt (h : IsName name) (he : e.Regular False) :
    Runs { kind := .callStmt, name, expr := e, pos } := by
  refine ⟨.ofWord name, inParentheses e.tokens ++ [Token.ofPunct .semicolon], rfl,
    by simp [IsStart, h.token], fun mark n rest cs hn => ?_⟩
  rw [List.append_assoc] at hn ⊢
  have hread : (expression n (.punct .semicolon)).accept mark
      (inParentheses e.tokens ++ .ofPunct .semicolon :: rest, cs) =
        e.reread.map fun e' => (.plain e', rest, cs) :=
    accept_grouped (t := .ofPunct .semicolon) he isStop_semicolon hn
  have htarget : (target n ⟨.ident, .text name, ⟨0, 0⟩⟩).accept mark
      (inParentheses e.tokens ++ .ofPunct .semicolon :: rest, cs) =
        some (.identifier (.text name) ⟨0, 0⟩,
          inParentheses e.tokens ++ .ofPunct .semicolon :: rest, cs) := rfl
  rw [accept_identifier h, identifierStatement, accept_bind]
  simp only [List.cons_append, List.nil_append]
  rw [htarget, Option.bind_some, accept_bind, hread]
  unfold Stmt.reread
  cases e.reread <;> rfl

/-! ## Keywords -/

theorem runs_return (he : e.Regular False) : Runs { kind := .return_, expr := e, pos } := by
  refine ⟨.ofKeyword .return_, e.tokens ++ [Token.ofPunct .semicolon], rfl,
    by simp [IsStart, Token.ofKeyword], fun mark n rest cs hn => ?_⟩
  simp only [List.append_assoc, List.cons_append, List.nil_append] at hn ⊢
  have hread : (plainExpression n (.punct .semicolon)).accept mark
      (e.tokens ++ .ofPunct .semicolon :: rest, cs) = e.reread.map fun e' => (e', rest, cs) :=
    accept_plainExpression (t := .ofPunct .semicolon) mark cs he isStop_semicolon rfl hn
  rw [statement_return n rfl, accept_bind_pure, hread]
  unfold Stmt.reread
  cases e.reread <;> rfl

theorem runs_break {epos : Pos} : Runs { kind := .break_, expr := .none epos, pos } :=
  ⟨.ofKeyword .break_, [.ofPunct .semicolon], rfl, by simp [IsStart, Token.ofKeyword],
    fun _ _ _ _ _ => rfl⟩

theorem runs_continue {epos : Pos} : Runs { kind := .continue_, expr := .none epos, pos } :=
  ⟨.ofKeyword .continue_, [.ofPunct .semicolon], rfl, by simp [IsStart, Token.ofKeyword],
    fun _ _ _ _ _ => rfl⟩

/-! ## Rows -/

variable {chained : Bool}

/-- **A row of statements** is accepted up to the token that ends its block. -/
theorem accept_row (hs : ∀ s ∈ ss, Runs s) (ht : IsEnd chained t.kind)
    (hn : (Stmt.tokensAll ss ++ t :: rest).length ≤ n) :
    (read >>= blockLoop n chained).accept mark (Stmt.tokensAll ss ++ t :: rest, cs) =
      (Stmt.rereadAll ss).map fun ss' => ((ss', t), rest, cs) := by
  induction ss generalizing n with
  | nil =>
    obtain ⟨n, rfl, -⟩ := bound_cons hn
    exact accept_blockLoop_end ht
  | cons s ss ih =>
    obtain ⟨u, body, htokens, hstart, hrun⟩ := hs s List.mem_cons_self
    have hcons : Stmt.tokensAll (s :: ss) ++ t :: rest =
        u :: (body ++ (Stmt.tokensAll ss ++ t :: rest)) := by
      rw [Stmt.tokensAll, htokens, List.append_assoc, List.cons_append]
    rw [hcons] at hn
    obtain ⟨n, rfl, hlen⟩ := bound_cons hn
    rw [hcons, accept_blockLoop_start hstart, hrun mark n _ cs hlen, Stmt.rereadAll]
    have ih := ih (n := n) (fun s' hs' => hs s' (List.mem_cons_of_mem s hs'))
      (by rw [List.length_append] at hlen; omega)
    cases s.reread with
    | none => rfl
    | some s' =>
      simp only [Option.map_some, Option.bind_some, ih]
      cases Stmt.rereadAll ss <;> rfl

/-- A block with the token that ends it. -/
theorem accept_block (mark : Token) (rest : List Token) (cs : List TypedName)
    (hs : ∀ s ∈ ss, Runs s) (ht : IsEnd chained t.kind)
    (hn : (Stmt.tokensAll ss ++ t :: rest).length ≤ n) :
    (block n chained).accept mark (Stmt.tokensAll ss ++ t :: rest, cs) =
      (Stmt.rereadAll ss).map fun ss' => ((.block ss', t), rest, cs) :=
  accept_block_of_loop ht (accept_row hs ht hn)

/-! ## Control flow -/

theorem tokensBody_bodyOf : Stmt.tokensBody (Stmt.bodyOf ss pos) = Stmt.tokensAll ss := rfl

theorem reread_block :
    Stmt.reread { Stmt.block ss with pos } = (Stmt.rereadAll ss).map Stmt.block := by
  simp only [Stmt.block, Stmt.reread]
  cases Stmt.rereadAll ss <;> rfl

theorem rereadAll_bodyOf :
    Stmt.rereadAll (Stmt.bodyOf ss pos) = (Stmt.rereadAll ss).map fun ss' => [.block ss'] := by
  rw [Stmt.bodyOf, Stmt.rereadAll, reread_block]
  cases Stmt.rereadAll ss <;> rfl

/-- What a statement with a condition is read as. -/
theorem reread_clause {kind : StmtKind} {condition : Expr} {bpos : Pos}
    (hk : kind ∈ [.while_, .if_, .elif_]) :
    Stmt.reread
        { kind, expr := condition, statements := Stmt.bodyOf ss bpos, branches := bs, pos } =
      condition.reread.bind fun c' => (Stmt.rereadAll ss).bind fun ss' =>
        (Stmt.rereadAll bs).map fun bs' =>
          { clause kind c' (.block ss') ⟨0, 0⟩ with branches := bs' } := by
  have hread : Stmt.reread
      { kind, expr := condition, statements := Stmt.bodyOf ss bpos, branches := bs, pos } =
        condition.reread.bind fun c' => (Stmt.rereadAll (Stmt.bodyOf ss bpos)).bind fun ss' =>
          (Stmt.rereadAll bs).bind fun bs' =>
            some { kind, expr := c', statements := ss', branches := bs' } := by
    simp only [List.mem_cons, List.not_mem_nil, or_false] at hk
    rcases hk with rfl | rfl | rfl <;> rfl
  rw [hread, rereadAll_bodyOf]
  cases condition.reread <;> cases Stmt.rereadAll ss <;> cases Stmt.rereadAll bs <;> rfl

theorem runs_while {condition : Expr} {bpos : Pos} (hc : condition.Regular False)
    (hs : ∀ s ∈ ss, Runs s) :
    Runs { kind := .while_, expr := condition, statements := Stmt.bodyOf ss bpos, pos } := by
  refine ⟨.ofKeyword .while_, condition.tokens ++ .ofKeyword .do_ :: Stmt.tokensAll ss ++
    [Token.ofKeyword .end_], rfl, by simp [IsStart, Token.ofKeyword], fun mark n rest cs hn => ?_⟩
  simp only [List.append_assoc, List.cons_append, List.nil_append] at hn ⊢
  have hread := accept_plainExpression (t := .ofKeyword .do_) mark cs hc isStop_do rfl hn
  have hbody := accept_block (t := .ofKeyword .end_) (n := n) mark rest cs hs
    (show IsEnd false _ from .inl rfl) (by rw [List.length_append, List.length_cons] at hn; omega)
  rw [statement_while n rfl, accept_bind]
  refine (congrArg (Option.bind · _) hread).trans ?_
  rw [reread_clause (by simp)]
  cases condition.reread with
  | none => rfl
  | some c' =>
    refine (accept_bind mark (block n false) _ _).trans ?_
    rw [hbody]
    cases Stmt.rereadAll ss <;> rfl

/-- A chain starts with a token that ends blocks in it. -/
theorem isEnd_chain (h : Stmt.IsChain bs) (rest : List Token) :
    ∃ u us, Stmt.tokensAll bs ++ .ofKeyword .end_ :: rest = u :: us ∧ IsEnd true u.kind := by
  cases h with
  | nil => exact ⟨_, _, rfl, .inl rfl⟩
  | elif condition ss pos bpos bs _ => exact ⟨_, _, rfl, .inr ⟨rfl, .inl rfl⟩⟩
  | else_ ss epos pos bpos => exact ⟨_, _, rfl, .inr ⟨rfl, .inr rfl⟩⟩

/-- The body of a clause and the chain behind it, whose first token ends the body. -/
theorem accept_body {α : Type} (mark : Token) (rest : List Token) (cs : List TypedName)
    (closed : Bool) (f : Stmt → List Stmt → α) (hs : ∀ s ∈ ss, Runs s) (h : Stmt.IsChain bs)
    (hn : (Stmt.tokensAll ss ++ (Stmt.tokensAll bs ++ .ofKeyword .end_ :: rest)).length ≤ n) :
    (block n true >>= fun r => clauses n closed r.2 >>= fun q => pure (f r.1 q)).accept mark
        (Stmt.tokensAll ss ++ (Stmt.tokensAll bs ++ .ofKeyword .end_ :: rest), cs) =
      (Stmt.rereadAll ss).bind fun ss' =>
        ((read >>= clauses n closed).accept mark
          (Stmt.tokensAll bs ++ .ofKeyword .end_ :: rest, cs)).map fun q =>
            (f (.block ss') q.1, q.2) := by
  obtain ⟨u, us, hu, hend⟩ := isEnd_chain h rest
  rw [hu] at hn ⊢
  rw [accept_bind, accept_block mark us cs hs hend hn]
  cases Stmt.rereadAll ss with
  | none => rfl
  | some ss' => exact accept_bind_pure mark (clauses n closed u) (f (.block ss')) (us, cs)

/-- **The clauses of a chain** are accepted up to its end. -/
theorem accept_clauses (mark : Token) (rest : List Token) (cs : List TypedName)
    (h : Stmt.IsChain bs) (hc : ∀ b ∈ bs, b.expr.Regular False)
    (hs : ∀ b ∈ bs, ∀ s ∈ b.inner, Runs s)
    (hn : (Stmt.tokensAll bs ++ .ofKeyword .end_ :: rest).length ≤ n) :
    (read >>= clauses n false).accept mark (Stmt.tokensAll bs ++ .ofKeyword .end_ :: rest, cs) =
      (Stmt.rereadAll bs).map fun bs' => (bs', rest, cs) := by
  induction h generalizing n with
  | nil =>
    obtain ⟨n, rfl, -⟩ := bound_cons hn
    rfl
  | elif condition ss pos bpos bs hchain ih =>
    have htokens (b : Stmt) (hb : b = { kind := .elif_, expr := condition,
                                        statements := Stmt.bodyOf ss bpos, pos }) :
        Stmt.tokensAll (b :: bs) ++ .ofKeyword .end_ :: rest =
          .ofKeyword .elif_ :: (condition.tokens ++ .ofKeyword .then_ ::
            (Stmt.tokensAll ss ++ (Stmt.tokensAll bs ++ .ofKeyword .end_ :: rest))) := by
      simp [hb, Stmt.tokensAll, Stmt.tokens, tokensBody_bodyOf]
    rw [htokens _ rfl] at hn ⊢
    obtain ⟨n, rfl, hlen⟩ := bound_cons hn
    have hread := accept_plainExpression (t := .ofKeyword .then_) mark cs
      (hc _ List.mem_cons_self) isStop_then rfl hlen
    have hss := hs _ List.mem_cons_self
    rw [Stmt.inner_body] at hss
    simp only [List.length_append, List.length_cons] at hlen
    have hbody (c' : Expr) := accept_body (n := n) mark rest cs false
      (fun b q => clause .elif_ c' b ⟨0, 0⟩ :: q) hss hchain
      (by simp only [List.length_append, List.length_cons]; omega)
    have ih := ih (n := n) (fun b hb => hc b (List.mem_cons_of_mem _ hb))
      (fun b hb => hs b (List.mem_cons_of_mem _ hb))
      (by simp only [List.length_append, List.length_cons]; omega)
    simp only [ih] at hbody
    rw [accept_read_bind, clauses_elif n rfl, accept_bind]
    refine (congrArg (Option.bind · _) hread).trans ?_
    rw [Stmt.rereadAll, reread_clause (by simp)]
    cases condition.reread with
    | none => rfl
    | some c' =>
      refine (hbody c').trans ?_
      cases Stmt.rereadAll ss <;> cases Stmt.rereadAll bs <;> rfl
  | else_ ss epos pos bpos =>
    have htokens (b : Stmt) (hb : b = { kind := .else_, expr := .none epos,
                                        statements := Stmt.bodyOf ss bpos, pos }) :
        Stmt.tokensAll [b] ++ .ofKeyword .end_ :: rest =
          .ofKeyword .else_ :: (Stmt.tokensAll ss ++
            (Stmt.tokensAll [] ++ .ofKeyword .end_ :: rest)) := by
      simp [hb, Stmt.tokensAll, Stmt.tokens, tokensBody_bodyOf]
    rw [htokens _ rfl] at hn ⊢
    obtain ⟨n, rfl, hlen⟩ := bound_cons hn
    obtain ⟨n, rfl⟩ : ∃ m, n = m + 1 := ⟨n - 1, by simp [Stmt.tokensAll] at hlen; omega⟩
    have hss := hs _ List.mem_cons_self
    rw [Stmt.inner_body] at hss
    rw [accept_read_bind, clauses_else (n + 1) rfl]
    refine (accept_body mark rest cs true (fun b q => clause .else_ .none b ⟨0, 0⟩ :: q) hss .nil
      hlen).trans ?_
    simp only [Stmt.rereadAll, Stmt.reread, rereadAll_bodyOf]
    cases Stmt.rereadAll ss <;> rfl

theorem runs_if {condition : Expr} {bpos : Pos} (hc : condition.Regular False)
    (hs : ∀ s ∈ ss, Runs s) (h : Stmt.IsChain bs) (hconditions : ∀ b ∈ bs, b.expr.Regular False)
    (hbodies : ∀ b ∈ bs, ∀ s ∈ b.inner, Runs s) :
    Runs
      { kind := .if_, expr := condition, statements := Stmt.bodyOf ss bpos, branches := bs,
        pos } := by
  refine ⟨.ofKeyword .if_, condition.tokens ++ .ofKeyword .then_ :: Stmt.tokensAll ss ++
    Stmt.tokensAll bs ++ [Token.ofKeyword .end_], rfl, by simp [IsStart, Token.ofKeyword],
    fun mark n rest cs hn => ?_⟩
  simp only [List.append_assoc, List.cons_append, List.nil_append] at hn ⊢
  have hread := accept_plainExpression (t := .ofKeyword .then_) mark cs hc isStop_then rfl hn
  simp only [List.length_append, List.length_cons] at hn
  have hbody (c' : Expr) := accept_body (n := n) mark rest cs false
    (fun b q => some { clause .if_ c' b ⟨0, 0⟩ with branches := q }) hs h
    (by simp only [List.length_append, List.length_cons]; omega)
  have hchain := accept_clauses (n := n) mark rest cs h hconditions hbodies
    (by simp only [List.length_append, List.length_cons]; omega)
  simp only [hchain] at hbody
  rw [statement_if n rfl, accept_bind]
  refine (congrArg (Option.bind · _) hread).trans ?_
  rw [reread_clause (by simp)]
  cases condition.reread with
  | none => rfl
  | some c' =>
    refine (hbody c').trans ?_
    cases Stmt.rereadAll ss <;> cases Stmt.rereadAll bs <;> rfl

/-- **Regular statements are accepted as foreseen.** -/
theorem runs (h : s.Regular False) : Runs s := by
  induction h with
  | varDec name sc e pos h he => exact runs_varDec h he
  | arrayDec name sc e pos h he => exact runs_arrayDec h he
  | structDec name type pos tpos h htype => exact runs_structDec h htype
  | exprStmt target v pos apos htarget ht hv => exact runs_exprStmt htarget ht hv.regular
  | callStmt name e pos h he => exact runs_callStmt h he
  | return_ e pos he => exact runs_return he
  | break_ epos pos => exact runs_break
  | continue_ epos pos => exact runs_continue
  | while_ condition ss pos bpos hc _ ih => exact runs_while hc ih
  | if_ condition ss branches pos bpos hc _ hchain hconditions _ ih ihb =>
    exact runs_if hc ih hchain hconditions ihb

end ToyLang.Parser
