import ToyLang.Parser.File
import ToyLang.Proofs.Balance.Declaration

/-!
# Statements keep the weight of their tokens

A block ends in a token that is handed on: the keyword that ends it, or the one that starts the next
clause of the chain it belongs to (`EndsBlock`). The weight of that token goes to whoever takes it,
so that one `end` closes a whole chain. A constant is declared where it stands and belongs to the
function, which is where its weight is found again (`Carries.collected`).

* `Parser.carries_function`: a function weighs as much as its tokens behind the keyword.
-/

set_option autoImplicit false

namespace ToyLang.Parser

open Builder

variable {w : Weighing} {declaring : Prop} {i n : Nat}

/-- A chain weighs what its first clause does, and the clauses behind it. -/
theorem stmt_chain (kind : StmtKind) (condition : Expr) (body : Stmt) (pos : Pos)
    (branches : List Stmt) :
    w.stmt { clause kind condition body pos with branches } =
      w.stmtKind kind + w.expr condition + w.stmt body + w.stmts branches := by
  rw [Weighing.stmt_eq]
  simp [clause, Nat.add_assoc]

/-- A clause weighs what its kind, its condition and its body do. -/
theorem stmt_clause (kind : StmtKind) (condition : Expr) (body : Stmt) (pos : Pos) :
    w.stmt (clause kind condition body pos) =
      w.stmtKind kind + w.expr condition + w.stmt body :=
  stmt_chain kind condition body pos []

/-! ## Declarations in a block -/

theorem carries_variableDec (start : Token) :
    Carries w declaring (i + w.keyword .var_) (fun _ => True) (fun s => i + w.stmt s)
      (variableDec n start) := by
  refine carries_read.bind fun name _ => ?_
  split
  · exact carries_report _ _ _
  next hname =>
  rw [Weighing.token_of_kind (not_not.1 hname) (by simp)]
  refine carries_read.bind fun colon _ => ?_
  split
  · exact carries_report _ _ _
  next hcolon =>
  rw [Weighing.token_of_kind (not_not.1 hcolon) (by simp)]
  refine carries_dataType.bind fun d _ => carries_read.bind fun t _ => ?_
  split
  · next ht =>
    rw [Weighing.token_of_kind ht (by simp)]
    refine (carries_plainExpression n isStop_rbracket).bind fun size _ => ?_
    refine carries_read.bind fun u _ => ?_
    split
    · exact carries_report _ _ _
    · next hu =>
      rw [Weighing.token_of_kind (not_not.1 hu) (by simp)]
      refine carries_pure trivial ?_
      simp [Weighing.kind, Weighing.stmt_eq, Weighing.stmtKind, Nat.add_assoc]
  · refine (carries_putBack t).bind fun _ _ => ?_
    refine ((carries_expression n _ isStop_semicolon).after _).bind fun value _ => ?_
    rw [← Nat.add_assoc]
    refine (carries_initializer value (w.expr_identifier _ _) name).bind fun e _ => ?_
    refine carries_pure trivial ?_
    simp [Weighing.kind, Weighing.stmt_eq, Weighing.stmtKind, Nat.add_assoc]

theorem carries_structDec (start : Token) :
    Carries w declaring (i + w.keyword .struct_) (fun _ => True) (fun s => i + w.stmt s)
      (structDec n start) := by
  refine (carries_nameBeforeColon _).bind fun name _ => carries_read.bind fun t _ => ?_
  refine (carries_expect _ _ t).bind fun _ ht => ?_
  rw [Weighing.token_of_kind ht (by simp)]
  refine (carries_plainExpression n isStop_semicolon).bind fun e _ => ?_
  split
  · refine carries_pure trivial ?_
    simp [Weighing.kind, Weighing.stmt_eq, Weighing.stmtKind, Nat.add_assoc]
  · exact carries_report _ _ _

/-! ## Assignments and calls -/

/-- What is only a name weighs nothing, so that a call may forget it. -/
theorem carries_target (name : Token) :
    Carries w declaring i (fun e => e.kind = .identifier → w.expr e = 0) (fun e => i + w.expr e)
      (target n name) := by
  refine carries_read.bind fun t _ => ?_
  split
  · next hk =>
    rw [Weighing.token_of_kind hk (by simp)]
    refine (carries_plainExpression n isStop_rbracket).bind fun e _ => ?_
    refine carries_pure (by simp [accessExpr]) ?_
    rw [w.expr_access _ e _ (by simp)]
    rfl
  · next hk =>
    rw [Weighing.token_of_kind hk (by simp)]
    refine carries_member.bind fun e he => carries_pure (by simp [accessExpr]) ?_
    rw [w.expr_access _ e _ (by simp), he]
    rfl
  · exact (carries_putBack t).bind fun _ _ => carries_pure (by simp) (by simp)

theorem carries_identifierStatement (name : Token) :
    Carries w declaring i (fun _ => True) (fun s => i + w.stmt s)
      (identifierStatement n name) := by
  refine (carries_target name).bind fun target htarget => ?_
  refine ((carries_expression n _ isStop_semicolon).after _).bind fun value _ => ?_
  cases value with
  | pending p =>
    refine carries_pure trivial ?_
    simp only [Weighing.kind, Weighing.operand, Weighing.stmt_eq, Weighing.stmtKind,
      Weighing.expr_complete, Weighing.stmts_nil]
    omega
  | plain e =>
    dsimp only
    split
    · next hk =>
      refine carries_pure trivial ?_
      rw [htarget hk]
      simp [Weighing.kind, Weighing.operand, Weighing.stmt_eq, Weighing.stmtKind]
    · exact carries_report _ _ _

theorem carries_keywordStatement {kind : StmtKind} {k : Keyword}
    (hkind : w.stmtKind kind = w.keyword k) (t : Token) :
    Carries w declaring (i + w.keyword k) (fun _ => True) (fun s => i + w.stmt s)
      (keywordStatement kind t) := by
  refine carries_mark (by simp) _ (carries_pure trivial ?_)
  simp [Weighing.kind, Weighing.stmt_eq, hkind]

/-! ## Blocks and clauses -/

/-- A token that ends a block. -/
def EndsBlock (chained : Bool) (t : Token) : Prop :=
  t.kind = .keyword .end_ ∨
    chained = true ∧ (t.kind = .keyword .elif_ ∨ t.kind = .keyword .else_)

/-- The statements of a row end in a token that ends a block, or in the end mark. -/
def CarriesLoop (w : Weighing) (chained : Bool)
    (loop : Token → Builder (List Stmt × Token)) : Prop :=
  ∀ i t, Carries w True (i + w.token t) (fun r => EndsBlock chained r.2 ∨ r.2.kind = .eof)
    (fun r => i + w.stmts r.1 + w.token r.2) (loop t)

/-- A block ends in a token that ends a block. -/
def CarriesBlock (w : Weighing) (chained : Bool) (block : Builder (Stmt × Token)) : Prop :=
  ∀ i, Carries w True i (fun r => EndsBlock chained r.2) (fun r => i + w.stmt r.1 + w.token r.2)
    block

/-- A chain of clauses ends in the keyword that ends its last block. -/
def CarriesClauses (w : Weighing) (clauses : Token → Builder (List Stmt)) : Prop :=
  ∀ i t, EndsBlock true t → Carries w True (i + w.token t) (fun _ => True)
    (fun ss => i + w.stmts ss + w.keyword .end_) (clauses t)

theorem CarriesLoop.blockOf {chained : Bool} {loop : Token → Builder (List Stmt × Token)}
    (h : CarriesLoop w chained loop) : CarriesBlock w chained (blockOf loop) := by
  intro i
  refine carries_read.bind fun t _ => (h i t).bind fun row hlast => ?_
  obtain ⟨statements, last⟩ := row
  dsimp only at hlast ⊢
  split
  · exact carries_report _ _ _
  · next heof => exact carries_pure (hlast.resolve_right heof) (by simp)

section
variable {block : Bool → Builder (Stmt × Token)} {clauses : Bool → Token → Builder (List Stmt)}
  (hblock : ∀ chained, CarriesBlock w chained (block chained))
  (hclauses : ∀ closed, CarriesClauses w (clauses closed))
include hblock

theorem carries_loop {t : Token} :
    Carries w True (i + w.keyword .while_) (fun _ => True) (fun s => i + w.stmt s) (do
      let condition ← plainExpression n (.keyword .do_)
      let (body, _) ← block false
      return clause .while_ condition body t.pos) := by
  refine (carries_plainExpression n isStop_do).bind fun condition _ => ?_
  refine (hblock false _).bind fun read hlast => carries_pure trivial ?_
  obtain ⟨body, last⟩ := read
  have hend : last.kind = .keyword .end_ := by simpa [EndsBlock] using hlast
  dsimp only
  rw [Weighing.token_of_kind hend (by simp)]
  rw [stmt_clause]
  simp only [Weighing.kind, Weighing.stmtKind]
  omega

include hclauses

theorem carries_conditional (t : Token) :
    Carries w True (i + w.keyword .if_) (fun _ => True) (fun s => i + w.stmt s)
      (conditional n block clauses t) := by
  refine (carries_plainExpression n isStop_then).bind fun condition _ => ?_
  refine (hblock true _).bind fun read hlast => ?_
  obtain ⟨body, last⟩ := read
  refine (hclauses false _ last hlast).bind fun branches _ => carries_pure trivial ?_
  rw [stmt_chain]
  simp only [Weighing.kind, Weighing.stmtKind]
  omega

theorem carries_statementWith (t : Token) :
    Carries w True (i + w.token t) (fun _ => True) (fun s => i + w.stmts s.toList)
      (statementWith n block clauses t) := by
  have one {b : Builder Stmt} {k : TokenKind} (hk : t.kind = k)
      (hlit : k ∉ [.number, .string, .char])
      (hb : Carries w True (i + w.kind k) (fun _ => True) (fun s => i + w.stmt s) b) :
      Carries w True (i + w.token t) (fun _ => True) (fun s => i + w.stmts s.toList)
        (b >>= fun s => pure (some s)) := by
    rw [Weighing.token_of_kind hk hlit]
    exact hb.bind fun s _ => carries_pure trivial (by simp)
  unfold statementWith
  split
  · next hk =>
    rw [Weighing.token_of_kind hk (by simp)]
    refine (carries_plainExpression n isStop_semicolon).bind fun e _ => carries_pure trivial ?_
    simp [Weighing.kind, Weighing.stmt_eq, Weighing.stmtKind, Nat.add_assoc]
  · next hk => exact one hk (by simp) (carries_variableDec t)
  · next hk =>
    rw [Weighing.token_of_kind hk (by simp)]
    refine carries_constant.bind fun c _ => ?_
    exact (carries_addConst c).bind fun _ _ => carries_pure trivial rfl
  · next hk => exact one hk (by simp) (carries_structDec t)
  · next hk => exact one hk (by simp) (carries_identifierStatement t)
  · next hk =>
    have := one hk (by simp) (carries_loop (n := n) hblock (t := t))
    simpa using this
  · next hk => exact one hk (by simp) (carries_conditional hblock hclauses t)
  · next hk => exact one hk (by simp) (carries_keywordStatement rfl t)
  · next hk => exact one hk (by simp) (carries_keywordStatement rfl t)
  · exact carries_report _ _ _

end

/-- A clause weighs as much as its keyword, its condition and its body. -/
theorem carries_blockLoop_clauses (n : Nat) :
    (∀ chained, CarriesLoop w chained (blockLoop n chained)) ∧
      ∀ closed, CarriesClauses w (clauses n closed) := by
  induction n with
  | zero => exact ⟨fun _ _ _ => carries_fault _, fun _ _ _ _ => carries_fault _⟩
  | succ n ih =>
    obtain ⟨hloop, hclauses⟩ := ih
    have hblock (chained : Bool) : CarriesBlock w chained (blockOf (blockLoop n chained)) :=
      (hloop chained).blockOf
    refine ⟨fun chained i t => ?_, fun closed i t ht => ?_⟩
    · rw [blockLoop]
      split
      · next ht =>
        exact carries_pure (ht.imp_left .inl) (by simp)
      split
      · next ht =>
        split
        · next hchained => exact carries_pure (.inl (.inr ⟨hchained, ht⟩)) (by simp)
        · exact carries_report _ _ _
      · refine (carries_statementWith hblock hclauses t).bind fun s _ => ?_
        refine carries_read.bind fun u _ => ?_
        refine (hloop chained _ u).bind fun row hlast => carries_pure hlast ?_
        simp [Nat.add_assoc]
    · rw [Parser.clauses]
      split
      · next hk =>
        split
        · exact carries_report _ _ _
        rw [Weighing.token_of_kind hk (by simp)]
        refine (carries_plainExpression n isStop_then).bind fun condition _ => ?_
        refine (hblock true _).bind fun read hlast => ?_
        obtain ⟨body, last⟩ := read
        refine (hclauses closed _ last hlast).bind fun ss _ => carries_pure trivial ?_
        rw [Weighing.stmts_cons, stmt_clause]
        simp only [Weighing.kind, Weighing.stmtKind]
        omega
      split
      · next hk =>
        split
        · exact carries_report _ _ _
        rw [Weighing.token_of_kind hk (by simp)]
        refine (hblock true _).bind fun read hlast => ?_
        obtain ⟨body, last⟩ := read
        refine (hclauses true _ last hlast).bind fun ss _ => carries_pure trivial ?_
        rw [Weighing.stmts_cons, stmt_clause, Weighing.expr_none]
        simp only [Weighing.kind, Weighing.stmtKind]
        omega
      · next helif helse =>
        have hend : t.kind = .keyword .end_ := by simpa [EndsBlock, helif, helse] using ht
        rw [Weighing.token_of_kind hend (by simp)]
        exact carries_pure trivial rfl

/-! ## Functions -/

theorem carries_returnType (t : Token) :
    Carries w declaring (i + w.token t) (fun _ => True) (fun r => i + w.token r.2)
      (returnType t) := by
  unfold returnType
  split
  · exact carries_pure trivial rfl
  · next hk =>
    rw [Weighing.token_of_kind (not_not.1 hk) (by simp)]
    exact carries_dataType.bind fun d _ => carries_read.bind fun u _ => carries_pure trivial rfl

theorem carries_optionalParams (t : Token) :
    Carries w declaring (i + w.token t) (fun _ => True)
      (fun r => i + w.typedNames r.1 + w.token r.2) (optionalParams n t) := by
  unfold optionalParams
  split
  · exact carries_pure trivial (by simp)
  · next hk =>
    rw [Weighing.token_of_kind (not_not.1 hk) (by simp)]
    exact carries_params.bind fun args _ => carries_read.bind fun u _ => carries_pure trivial rfl

/-- **A function** weighs as much as its tokens behind the keyword. -/
theorem carries_function :
    Carries w declaring (i + w.keyword .func_) (fun _ => True) (fun f => i + w.function f)
      (function n) := by
  have hblock := ((carries_blockLoop_clauses (w := w) n).1 false).blockOf
  refine (carries_nameOr _ _).bind fun r _ => ?_
  refine (carries_optionalParams r.2).bind fun args _ => ?_
  refine (carries_returnType args.2).bind fun d _ => ?_
  refine (carries_expect _ _ d.2).bind fun _ his => ?_
  rw [Weighing.token_of_kind his (by simp)]
  refine (hblock _).collected.bind fun body hlast => carries_pure trivial ?_
  obtain ⟨⟨block, last⟩, consts⟩ := body
  have hend : last.kind = .keyword .end_ := by simpa [EndsBlock] using hlast
  dsimp only
  rw [Weighing.token_of_kind hend (by simp)]
  simp only [Weighing.kind, Weighing.function]
  omega

end ToyLang.Parser
