import ToyLang.Proofs.Accept.Statement
import ToyLang.Proofs.Grammar.Expression

/-!
# Derived statements are accepted

The parser accepts the tokens of a derived statement where a block goes on, builds its tree and
declares its constants (`Statement.Runs`); it accepts those of a row of statements up to the token
that ends the block (`Body.Runs`), and those of a chain of clauses from its first token on, which
ends the block in front of it (`Clauses.Runs`). The three are shown together, derivation by
derivation.
-/

set_option autoImplicit false

namespace ToyLang.Grammar

open Builder ToyLang.Parser

/-! ## What is to be shown -/

/-- A statement is accepted in a block. -/
def Statement.Runs (s : Statement) : Prop :=
  ∃ t body, s.tokens = t :: body ∧ IsStart t.kind ∧
    ∀ mark n rest cs, (body ++ rest).length ≤ n →
      (statement n t).accept mark (body ++ rest, cs) = some (s.tree, rest, cs ++ s.consts)

/-- A row of statements is accepted up to a token that ends its block. -/
def Body.Runs (b : Body) : Prop :=
  ∀ mark t n chained rest cs, IsEnd chained t.kind → (b.tokens ++ t :: rest).length ≤ n →
    (read >>= blockLoop n chained).accept mark (b.tokens ++ t :: rest, cs) =
      some ((b.trees, t), rest, cs ++ b.consts)

/-- A chain of clauses is accepted behind its first token, which ends the block before it. -/
def Clauses.Runs (c : Clauses) : Prop :=
  ∃ t ts, c.tokens = t :: ts ∧ IsEnd true t.kind ∧
    ∀ mark n rest cs, (t :: (ts ++ rest)).length ≤ n →
      (clauses n false t).accept mark (ts ++ rest, cs) = some (c.trees, rest, cs ++ c.consts)

variable {mark t : Token} {n : Nat} {rest : List Token} {cs : List TypedName}

/-- A statement that declares no constants is accepted if it leaves those declared so far alone. -/
theorem runs_of_accept {s : Statement} {body : List Token} (htokens : s.tokens = t :: body)
    (hstart : IsStart t.kind) (hconsts : s.consts = [])
    (h : ∀ mark n rest cs, (body ++ rest).length ≤ n →
      (statement n t).accept mark (body ++ rest, cs) = some (s.tree, rest, cs)) : s.Runs := by
  refine ⟨t, body, htokens, hstart, fun mark n rest cs hn => ?_⟩
  rw [hconsts, List.append_nil]
  exact h mark n rest cs hn

/-! ## Declarations -/

/-- An initial value is accepted up to its semicolon. -/
theorem Initializer.accept (i : Initializer) (target : Expr) (name mark : Token)
    (rest : List Token) (cs : List TypedName) (ht : t.kind = .punct .semicolon)
    (hn : (i.tokens ++ t :: rest).length ≤ n) :
    (expression n (.punct .semicolon) >>= fun o => initializer o target name).accept mark
        (i.tokens ++ t :: rest, cs) =
      some (i.tree target t.pos, rest, cs) := by
  cases i with
  | absent =>
    rw [accept_bind]
    exact congrArg (Option.bind · _) (reads_empty mark t n _ rest cs ht isStop_semicolon hn)
  | assign op value =>
    rw [accept_bind]
    exact congrArg (Option.bind · _) (value.accept_assigned op mark rest cs ht isStop_semicolon hn)

/-- No bracket starts what follows the type of a variable. -/
theorem Initializer.exists_tokens (i : Initializer) (ht : t.kind = .punct .semicolon)
    (rest : List Token) :
    ∃ u us, i.tokens ++ t :: rest = u :: us ∧ u.kind ≠ .punct .lbracket := by
  cases i with
  | absent => exact ⟨t, rest, rfl, by simp [ht]⟩
  | assign op value => exact ⟨op.toToken, value.tokens ++ t :: rest, rfl, by simp⟩

/-- A constant is accepted behind its keyword. -/
theorem Constant.accept (c : Constant) (mark : Token) (rest : List Token) (cs : List TypedName)
    (hn : (c.tokens ++ rest).length ≤ n + 1) :
    ∃ body, c.tokens ++ rest = c.keyword.toToken :: body ∧
      (constant n).accept mark (body, cs) = some (c.tree, rest, cs) := by
  have htokens : c.tokens ++ rest = c.keyword.toToken :: c.head.name.toToken ::
      c.head.colon.toToken :: c.head.type.toToken :: c.op.toToken ::
        (c.value.tokens ++ c.semicolon.toToken :: rest) := by
    simp [Constant.tokens, Typed.tokens]
  refine ⟨_, htokens, ?_⟩
  rw [htokens] at hn
  exact accept_constant_of (r := some _) c.head.name.kind_eq c.head.colon.kind_eq
    c.head.type.kind_eq c.op.kind_eq
    (c.value.accept_plain mark rest cs c.semicolon.kind_eq isStop_semicolon
      (by simp only [List.length_cons] at hn; omega))

theorem runs_variable (keyword : Word .var_) (head : Typed) (init : Initializer)
    (semicolon : Mark .semicolon) : (Statement.variable_ keyword head init semicolon).Runs := by
  refine runs_of_accept rfl (by simp [IsStart]) rfl fun mark n rest cs hn => ?_
  simp only [Typed.tokens, List.cons_append, List.append_assoc, List.nil_append,
    List.length_cons] at hn ⊢
  have hread := init.accept (n := n) (.identifier (.text head.text) head.name.pos)
    head.name.toToken mark rest cs semicolon.kind_eq (by omega)
  obtain ⟨u, us, hu, hne⟩ := init.exists_tokens semicolon.kind_eq rest
  rw [hu] at hread ⊢
  rw [statement_var n keyword.kind_eq, accept_bind_pure, accept_variableDec_of (r := some _)
    head.name.kind_eq head.colon.kind_eq head.type.kind_eq hne hread]
  rfl

theorem runs_array (keyword : Word .var_) (head : Typed) (opening : Mark .lbracket)
    (size : Contents) (closing : Mark .rbracket) (semicolon : Mark .semicolon) :
    (Statement.array keyword head opening size closing semicolon).Runs := by
  refine runs_of_accept rfl (by simp [IsStart]) rfl fun mark n rest cs hn => ?_
  simp only [Typed.tokens, List.cons_append, List.append_assoc, List.nil_append,
    List.length_cons] at hn ⊢
  have hread := size.accept_plain (n := n) mark (semicolon.toToken :: rest) cs closing.kind_eq
    isStop_rbracket (by omega)
  rw [statement_var n keyword.kind_eq, accept_bind_pure, accept_arrayDec_of (r := some _)
    head.name.kind_eq head.colon.kind_eq head.type.kind_eq opening.kind_eq semicolon.kind_eq hread]
  rfl

theorem runs_constant (c : Constant) : (Statement.constant c).Runs := by
  refine ⟨_, _, rfl, by simp [IsStart], fun mark n rest cs hn => ?_⟩
  obtain ⟨body, hbody, hread⟩ := c.accept (n := n) mark rest cs
    (by simpa [Constant.tokens] using hn)
  have hts := (List.cons.inj hbody).2
  rw [List.append_eq] at hts
  rw [hts, statement_const n c.keyword.kind_eq, accept_bind, hread]
  rfl

theorem runs_struct (keyword : Word .struct_) (name : Name) (colon : Mark .colon) (type : Name)
    (semicolon : Mark .semicolon) : (Statement.struct keyword name colon type semicolon).Runs := by
  refine runs_of_accept rfl (by simp [IsStart]) rfl fun mark n rest cs hn => ?_
  simp only [List.cons_append, List.nil_append] at hn ⊢
  rw [statement_struct n keyword.kind_eq, accept_bind_pure, accept_structDec_of name.kind_eq
    colon.kind_eq type.kind_eq semicolon.kind_eq (by simp only [List.length_cons] at hn ⊢; omega)]
  rfl

/-! ## Assignments and calls -/

/-- A target is accepted in front of the symbol of an assignment. -/
theorem Target.accept (target : Target) (op : Assign) (mark : Token) (rest : List Token)
    (cs : List TypedName) (hn : (target.suffix ++ op.toToken :: rest).length ≤ n) :
    (Parser.target n target.head.toToken).accept mark (target.suffix ++ op.toToken :: rest, cs) =
      some (target.tree, op.toToken :: rest, cs) := by
  cases target with
  | name t => exact accept_target_bare (by simp) (by simp)
  | element a opening index closing =>
    simp only [Target.suffix, List.cons_append, List.append_assoc, List.nil_append,
      List.length_cons] at hn ⊢
    exact accept_target_element (r := some _) opening.kind_eq
      (index.accept_plain mark _ cs closing.kind_eq isStop_rbracket (by omega))
  | member s dot m => exact accept_target_member dot.kind_eq m.kind_eq

theorem runs_assignment (target : Target) (op : Assign) (value : Operation)
    (semicolon : Mark .semicolon) : (Statement.assignment target op value semicolon).Runs := by
  refine runs_of_accept rfl (by simp [IsStart]) rfl fun mark n rest cs hn => ?_
  simp only [List.cons_append, List.append_assoc, List.nil_append] at hn ⊢
  have htarget := target.accept op mark (value.tokens ++ semicolon.toToken :: rest) cs hn
  have hvalue := value.accept_assigned (n := n) op mark rest cs semicolon.kind_eq
    isStop_semicolon (by rw [List.length_append] at hn; omega)
  rw [statement_name n target.head.kind_eq, accept_bind_pure, identifierStatement, accept_bind,
    htarget, Option.bind_some, accept_bind, hvalue]
  rfl

theorem runs_call (name : Name) (opening : Mark .lparen) (args : Contents)
    (closing : Mark .rparen) (semicolon : Mark .semicolon) :
    (Statement.call name opening args closing semicolon).Runs := by
  refine runs_of_accept rfl (by simp [IsStart]) rfl fun mark n rest cs hn => ?_
  simp only [List.cons_append, List.append_assoc, List.nil_append] at hn ⊢
  have htarget : (target n name.toToken).accept mark
      (opening.toToken :: (args.tokens ++ closing.toToken :: semicolon.toToken :: rest), cs) =
        some (.identifier (.text name.value.display) name.pos,
          opening.toToken :: (args.tokens ++ closing.toToken :: semicolon.toToken :: rest), cs) :=
    accept_target_bare (by simp) (by simp)
  -- the arguments are read as a group, with nothing behind it
  have hread : (expression n (.punct .semicolon)).accept mark
      (opening.toToken :: (args.tokens ++ closing.toToken :: semicolon.toToken :: rest), cs) =
        some (.plain (args.tree closing.pos), rest, cs) := by
    obtain ⟨n, rfl, hle⟩ := bound_cons hn
    obtain ⟨m, rfl⟩ : ∃ m, n = m + 1 := ⟨n - 1, by simp at hle; omega⟩
    have hargs := args.reads mark closing.toToken (m + 1) _ (semicolon.toToken :: rest) cs
      closing.kind_eq isStop_rparen hle
    rw [accept_expression_cons, accept_group (r := some _) opening.kind_eq isStop_semicolon hargs,
      Option.bind_some, accept_stop semicolon.kind_eq isStop_semicolon]
    exact accept_result_bare _
  rw [statement_name n name.kind_eq, accept_bind_pure, identifierStatement, accept_bind, htarget,
    Option.bind_some, accept_bind, hread]
  rfl

/-! ## Keywords -/

theorem runs_return (keyword : Word .return_) (value : Contents) (semicolon : Mark .semicolon) :
    (Statement.return_ keyword value semicolon).Runs := by
  refine runs_of_accept rfl (by simp [IsStart]) rfl fun mark n rest cs hn => ?_
  simp only [List.append_assoc, List.cons_append, List.nil_append] at hn ⊢
  rw [statement_return n keyword.kind_eq, accept_bind_pure,
    value.accept_plain mark rest cs semicolon.kind_eq isStop_semicolon hn]
  rfl

/-- A statement that is a single keyword. -/
theorem accept_keyword {kind : StmtKind} {k : Token} (mark : Token) (rest : List Token)
    (cs : List TypedName)
    (hstart : statement n k = keywordStatement kind k >>= fun s => pure (some s))
    (ht : t.kind = .punct .semicolon) :
    (statement n k).accept mark (t :: rest, cs) = some (some { kind, pos := k.pos }, rest, cs) := by
  rw [hstart, accept_bind_pure, keywordStatement, accept_read_bind, accept_bind, accept_expect ht]
  rfl

theorem runs_break (keyword : Word .break_) (semicolon : Mark .semicolon) :
    (Statement.break_ keyword semicolon).Runs := by
  refine runs_of_accept rfl (by simp [IsStart]) rfl fun mark n rest cs _ => ?_
  exact accept_keyword mark rest cs (statement_break n keyword.kind_eq) semicolon.kind_eq

theorem runs_continue (keyword : Word .continue_) (semicolon : Mark .semicolon) :
    (Statement.continue_ keyword semicolon).Runs := by
  refine runs_of_accept rfl (by simp [IsStart]) rfl fun mark n rest cs _ => ?_
  exact accept_keyword mark rest cs (statement_continue n keyword.kind_eq) semicolon.kind_eq

/-! ## Rows -/

theorem runs_nil : Body.nil.Runs := by
  intro mark t n chained rest cs ht hn
  obtain ⟨n, rfl, -⟩ := bound_cons hn
  rw [Body.consts, List.append_nil]
  exact accept_blockLoop_end ht

theorem runs_cons {s : Statement} {b : Body} (hs : s.Runs) (hb : b.Runs) :
    (Body.cons s b).Runs := by
  intro mark t n chained rest cs ht hn
  obtain ⟨u, body, htokens, hstart, hrun⟩ := hs
  have hcons : (Body.cons s b).tokens ++ t :: rest = u :: (body ++ (b.tokens ++ t :: rest)) := by
    rw [Body.tokens, htokens, List.append_assoc, List.cons_append]
  rw [hcons] at hn ⊢
  obtain ⟨n, rfl, hle⟩ := bound_cons hn
  rw [accept_blockLoop_start hstart, hrun mark n _ cs hle, Option.bind_some,
    hb mark t n chained rest _ ht (by rw [List.length_append] at hle; omega)]
  simp [Body.trees, Body.consts]

/-- A row of statements is accepted as a block. -/
theorem Body.Runs.accept_block {b : Body} (h : b.Runs) (chained : Bool) (mark : Token)
    (rest : List Token) (cs : List TypedName) (ht : IsEnd chained t.kind)
    (hn : (b.tokens ++ t :: rest).length ≤ n) :
    (block n chained).accept mark (b.tokens ++ t :: rest, cs) =
      some ((.block b.trees, t), rest, cs ++ b.consts) :=
  accept_block_of_loop (r := some _) ht (h mark t n chained rest cs ht hn)

/-! ## Control flow -/

theorem runs_while (keyword : Word .while_) (condition : Row) (do_ : Word .do_) {body : Body}
    (end_ : Word .end_) (h : body.Runs) :
    (Statement.while_ keyword condition do_ body end_).Runs := by
  refine ⟨_, _, rfl, by simp [IsStart], fun mark n rest cs hn => ?_⟩
  simp only [List.append_assoc, List.cons_append, List.nil_append] at hn ⊢
  have hread := condition.accept_plain mark _ cs do_.kind_eq isStop_do hn
  have hbody := h.accept_block (n := n) false mark rest cs (.inl end_.kind_eq)
    (by rw [List.length_append, List.length_cons] at hn; omega)
  rw [statement_while n keyword.kind_eq, accept_bind, hread, Option.bind_some, accept_bind_pure,
    hbody]
  rfl

/-- The body of a clause, and the chain behind it. -/
theorem accept_clause {α : Type} {body : Body} {chain : Clauses} (hb : body.Runs)
    (hc : chain.Runs) (f : Stmt → List Stmt → α) (mark : Token) (rest : List Token)
    (cs : List TypedName) (hn : (body.tokens ++ (chain.tokens ++ rest)).length ≤ n) :
    (block n true >>= fun r => clauses n false r.2 >>= fun q => pure (f r.1 q)).accept mark
        (body.tokens ++ (chain.tokens ++ rest), cs) =
      some (f (.block body.trees) chain.trees, rest, cs ++ (body.consts ++ chain.consts)) := by
  obtain ⟨t, ts, htokens, hend, hrun⟩ := hc
  rw [htokens] at hn ⊢
  rw [List.cons_append] at hn ⊢
  rw [accept_bind, hb.accept_block true mark _ cs hend hn, Option.bind_some, accept_bind_pure,
    hrun mark n rest _ (by rw [List.length_append] at hn; exact Nat.le_trans (by simp) hn)]
  simp

theorem runs_if (keyword : Word .if_) (condition : Row) (then_ : Word .then_) {body : Body}
    {chain : Clauses} (hb : body.Runs) (hc : chain.Runs) :
    (Statement.if_ keyword condition then_ body chain).Runs := by
  refine ⟨_, _, rfl, by simp [IsStart], fun mark n rest cs hn => ?_⟩
  simp only [List.append_assoc, List.cons_append] at hn ⊢
  have hread := condition.accept_plain mark _ cs then_.kind_eq isStop_then hn
  have hlen : (body.tokens ++ (chain.tokens ++ rest)).length ≤ n := by
    rw [List.length_append, List.length_cons] at hn
    omega
  rw [statement_if n keyword.kind_eq, accept_bind, hread]
  exact accept_clause hb hc
    (fun b q => some { clause .if_ condition.tree b keyword.pos with branches := q }) mark rest cs
    hlen

theorem runs_end (keyword : Word .end_) : (Clauses.end_ keyword).Runs := by
  refine ⟨_, _, rfl, .inl keyword.kind_eq, fun mark n rest cs hn => ?_⟩
  obtain ⟨n, rfl, -⟩ := bound_cons hn
  rw [clauses_end n false keyword.kind_eq]
  simp [Clauses.trees, Clauses.consts]

theorem runs_else (keyword : Word .else_) {body : Body} (end_ : Word .end_) (h : body.Runs) :
    (Clauses.else_ keyword body end_).Runs := by
  refine ⟨_, _, rfl, .inr ⟨rfl, .inr keyword.kind_eq⟩, fun mark n rest cs hn => ?_⟩
  obtain ⟨n, rfl, hle⟩ := bound_cons hn
  obtain ⟨m, rfl⟩ : ∃ m, n = m + 1 := ⟨n - 1, by simp at hle; omega⟩
  simp only [List.append_assoc, List.cons_append, List.nil_append] at hle ⊢
  -- the chain ends behind this clause
  have hend : (clauses (m + 1) true end_.toToken).accept mark (rest, cs ++ body.consts) =
      some ([], rest, cs ++ body.consts) := by
    rw [clauses_end m true end_.kind_eq, accept_pure]
  rw [clauses_else (m + 1) keyword.kind_eq, accept_bind,
    h.accept_block true mark rest cs (.inl end_.kind_eq) hle, Option.bind_some,
    accept_bind_pure, hend]
  rfl

theorem runs_elif (keyword : Word .elif_) (condition : Row) (then_ : Word .then_) {body : Body}
    {chain : Clauses} (hb : body.Runs) (hc : chain.Runs) :
    (Clauses.elif keyword condition then_ body chain).Runs := by
  refine ⟨_, _, rfl, .inr ⟨rfl, .inl keyword.kind_eq⟩, fun mark n rest cs hn => ?_⟩
  obtain ⟨n, rfl, hle⟩ := bound_cons hn
  simp only [List.append_assoc, List.cons_append] at hle ⊢
  have hread := condition.accept_plain mark _ cs then_.kind_eq isStop_then hle
  have hlen : (body.tokens ++ (chain.tokens ++ rest)).length ≤ n := by
    rw [List.length_append, List.length_cons] at hle
    omega
  rw [clauses_elif n keyword.kind_eq, accept_bind, hread]
  exact accept_clause hb hc (fun b q => clause .elif_ condition.tree b keyword.pos :: q) mark rest
    cs hlen

/-! ## Derivations -/

mutual

theorem Statement.runs : (s : Statement) → s.Runs
  | .variable_ keyword head init semicolon => runs_variable keyword head init semicolon
  | .array keyword head opening size closing semicolon =>
    runs_array keyword head opening size closing semicolon
  | .constant c => runs_constant c
  | .struct keyword name colon type semicolon => runs_struct keyword name colon type semicolon
  | .assignment target op value semicolon => runs_assignment target op value semicolon
  | .call name opening args closing semicolon => runs_call name opening args closing semicolon
  | .return_ keyword value semicolon => runs_return keyword value semicolon
  | .while_ keyword condition do_ body end_ => runs_while keyword condition do_ end_ body.runs
  | .if_ keyword condition then_ body clauses =>
    runs_if keyword condition then_ body.runs clauses.runs
  | .break_ keyword semicolon => runs_break keyword semicolon
  | .continue_ keyword semicolon => runs_continue keyword semicolon

theorem Body.runs : (b : Body) → b.Runs
  | .nil => runs_nil
  | .cons s rest => runs_cons s.runs rest.runs

theorem Clauses.runs : (c : Clauses) → c.Runs
  | .end_ keyword => runs_end keyword
  | .else_ keyword body end_ => runs_else keyword end_ body.runs
  | .elif keyword condition then_ body rest =>
    runs_elif keyword condition then_ body.runs rest.runs

end

end ToyLang.Grammar
