import ToyLang.Parser.File
import ToyLang.Proofs.Idle
import ToyLang.Proofs.PutBack.Calls

/-!
# Every builder is careful

The builders that put a token back have just read it: a name and the token behind it are handed on
with that token in hand, and so is what a skip starts from. Where a helper has put a token back, its
caller reads before it puts back another one.

* `builders_disciplined`: whatever the stream, the policy and the leading token, no builder of the
  parser puts back anything but the token it has just read.
-/

set_option autoImplicit false

namespace ToyLang

open Builder

variable {last : Option Token} {t : Token} {n : Nat}

/-! ## Expressions -/

theorem Builder.Idle.careful {α : Type} {b : Builder α} (h : b.Idle) :
    b.Careful Whatever last := by
  induction b with
  | done a | fault f => trivial
  | report p t k ih => exact ih h
  | next k | back t k | declare c k => exact h.elim

namespace Parser

theorem careful_member : member.Careful Whatever last := by
  refine careful_read.bind fun t _ ht => ?_
  subst ht
  split
  · trivial
  · exact (careful_note _ t _).bind fun _ _ hl => hl ▸ careful_putBack.bind fun _ _ _ => trivial

section
variable {nested : TokenKind → Builder Operand}
  (hn : ∀ stop last, (nested stop).Careful Whatever last)
include hn

theorem careful_identifierSuffix (name : Token) :
    (identifierSuffix nested name).Careful Whatever last := by
  refine careful_read.bind fun t _ ht => ?_
  subst ht
  split
  · exact (hn _ _).bind fun o _ _ => o.idle_settle.careful.bind fun _ _ _ => trivial
  · exact (hn _ _).bind fun o _ _ => o.idle_settle.careful.bind fun _ _ _ => trivial
  · exact careful_member.bind fun _ _ _ => trivial
  · exact careful_putBack.bind fun _ _ _ => trivial

theorem careful_exprStep (t : Token) (st : ExprState) :
    (exprStep nested t st).Careful Whatever last := by
  unfold exprStep
  split
  · exact (hn _ _).bind fun _ _ _ => trivial
  · exact (idle_listItem t st).careful
  · exact (careful_identifierSuffix hn t).bind fun _ _ _ => trivial
  all_goals trivial

end

theorem careful_expressionLoop (n : Nat) (stop : TokenKind) (first t : Token) (st : ExprState)
    (last : Option Token) : (expressionLoop n stop first t st).Careful Whatever last := by
  induction n generalizing stop first t st last with
  | zero => trivial
  | succ n ih =>
    rw [expressionLoop]
    split
    · exact (idle_exprEnd stop first t st).careful
    · have hn (stop : TokenKind) (last : Option Token) : (read >>= fun first =>
          expressionLoop n stop first first {}).Careful Whatever last :=
        careful_read.bind fun first _ _ => ih ..
      exact (careful_exprStep hn t st).bind fun st _ _ => careful_read.bind fun u _ _ => ih ..

theorem careful_expression (n : Nat) (stop : TokenKind) (last : Option Token) :
    (expression n stop).Careful Whatever last :=
  careful_read.bind fun _ _ _ => careful_expressionLoop ..

theorem careful_plainExpression (n : Nat) (stop : TokenKind) :
    (plainExpression n stop).Careful Whatever last :=
  (careful_expression n stop last).bind fun o _ _ => o.idle_settle.careful

theorem careful_identifier (n : Nat) (name : Token) :
    (identifier n name).Careful Whatever last :=
  careful_identifierSuffix (careful_expression n) name

/-! ## Declarations -/

theorem careful_dataType : dataType.Careful Whatever last := by
  refine careful_read.bind fun t _ _ => ?_
  split <;> trivial

theorem careful_initializer (o : Operand) (target : Expr) (t : Token) :
    (initializer o target t).Careful Whatever last := by
  cases o with
  | pending p => trivial
  | plain e =>
    unfold initializer
    dsimp only
    split <;> trivial

/-- What does not fit is still in hand. -/
theorem careful_expect (kind : TokenKind) (p : Problem) (t : Token) :
    (expect kind p t).Careful Whatever (some t) := by
  unfold expect
  split
  · trivial
  · exact (careful_note p t _).bind fun _ _ hl => hl ▸ careful_putBack

/-- A mark that has to stand here is read, and put back where it does not fit. -/
theorem careful_mark {β : Type} {k : Builder β} (kind : TokenKind) (p : Problem)
    (hk : ∀ last, k.Careful Whatever last) :
    (read >>= fun t => expect kind p t >>= fun _ => k).Careful Whatever last := by
  refine careful_read.bind fun t _ ht => ?_
  subst ht
  exact (careful_expect kind p t).bind fun _ _ _ => hk _

theorem careful_skipParams : (skipParams n t).Careful Whatever (some t) := by
  induction n generalizing t with
  | zero => trivial
  | succ n ih =>
    rw [skipParams]
    split
    · trivial
    split
    · exact careful_putBack
    · exact careful_read.bind fun u _ hu => hu ▸ ih

theorem careful_abandonParams {α : Type} (p : Problem) (t : Token) (a : α) :
    (abandonParams n p t >>= fun _ => pure a).Careful Whatever (some t) := by
  refine Careful.bind (Q := Whatever) ?_ fun _ _ _ => trivial
  exact (careful_note p t _).bind fun _ _ hl => hl ▸ careful_skipParams

theorem careful_paramsLoop : (paramsLoop n t).Careful Whatever (some t) := by
  induction n generalizing t with
  | zero => trivial
  | succ n ih =>
    rw [paramsLoop]
    split
    · exact careful_abandonParams _ t _
    refine careful_read.bind fun colon _ hcolon => ?_
    subst hcolon
    split
    · exact careful_abandonParams _ colon _
    refine careful_dataType.bind fun d _ _ => careful_read.bind fun u _ hu => ?_
    subst hu
    split
    · trivial
    · exact careful_read.bind fun v _ hv => hv ▸ ih.bind fun _ _ _ => trivial
    · exact careful_abandonParams _ u _

/-- The token that is put back is read again before a skip puts back another one. -/
theorem careful_params : (params n).Careful Whatever last := by
  refine careful_read.bind fun t _ ht => ?_
  subst ht
  split
  · trivial
  · exact careful_putBack.bind fun _ _ _ => careful_read.bind fun u _ hu => hu ▸ careful_paramsLoop

theorem careful_structItem (t : Token) : (structItem n t).Careful Whatever last := by
  refine careful_mark _ _ fun last => careful_dataType.bind fun d _ _ => ?_
  refine (careful_expression n _ _).bind fun o _ _ => ?_
  exact (careful_initializer o _ t).bind fun _ _ _ => trivial

theorem careful_structItems (last : Option Token) : (structItems n t).Careful Whatever last := by
  induction n generalizing t last with
  | zero => trivial
  | succ n ih =>
    rw [structItems]
    split
    · trivial
    · trivial
    · refine (careful_structItem t).bind fun item _ _ => careful_read.bind fun u _ _ => ?_
      exact (ih _).bind fun _ _ _ => trivial
    · exact (careful_note _ t _).bind fun _ _ _ => careful_read.bind fun u _ _ => ih _

/-- The token behind a name is handed on. -/
theorem careful_nameOr (p : Problem) (followers : List TokenKind) :
    (nameOr p followers).Careful (fun r l => l = some r.2) last := by
  refine careful_read.bind fun t _ ht => ?_
  subst ht
  split
  · exact careful_read.bind fun u _ hu => hu
  refine (careful_note p t _).bind fun _ l hl => ?_
  split
  · exact hl
  · exact careful_read.bind fun u _ hu => hu

theorem careful_structDef : (structDef n).Careful Whatever last := by
  refine (careful_nameOr _ _).bind fun r _ hr => ?_
  subst hr
  refine (careful_expect _ _ r.2).bind fun _ _ _ => careful_read.bind fun u _ _ => ?_
  refine (careful_structItems _).bind fun items _ _ => ?_
  dsimp only
  split <;> trivial

theorem careful_nameBeforeColon (p : Problem) :
    (nameBeforeColon p).Careful Whatever last := by
  refine careful_read.bind fun t _ ht => ?_
  subst ht
  split
  · trivial
  refine (careful_note p t _).bind fun _ _ hl => ?_
  subst hl
  split
  · exact careful_putBack.bind fun _ _ _ => trivial
  · trivial

theorem careful_constant : (constant n).Careful Whatever last := by
  refine (careful_nameBeforeColon _).bind fun name _ _ => careful_mark _ _ fun _ => ?_
  refine careful_dataType.bind fun d _ _ => careful_mark _ _ fun _ => ?_
  exact (careful_plainExpression n _).bind fun _ _ _ => trivial

theorem careful_importLoop (last : Option Token) : (importLoop n t).Careful Whatever last := by
  induction n generalizing t last with
  | zero => trivial
  | succ n ih =>
    rw [importLoop]
    split
    · trivial
    · trivial
    · exact careful_read.bind fun u _ _ => (ih _).bind fun _ _ _ => trivial
    · exact careful_read.bind fun u _ _ => (ih _).bind fun _ _ _ => trivial
    · exact (careful_note _ t _).bind fun _ _ _ => careful_read.bind fun u _ _ => ih _

theorem careful_importPath : (importPath n).Careful Whatever last :=
  careful_read.bind fun _ _ _ => careful_importLoop _

/-! ## Statements -/

theorem careful_skipStatement : (skipStatement n t).Careful Whatever (some t) := by
  induction n generalizing t with
  | zero => trivial
  | succ n ih =>
    rw [skipStatement]
    split
    · trivial
    · exact careful_putBack
    · exact careful_putBack
    · exact careful_read.bind fun u _ hu => hu ▸ ih

theorem careful_abandon (p : Problem) (t : Token) (start : Pos) :
    (abandon n p t start).Careful Whatever (some t) := by
  refine (careful_note p t _).bind fun _ _ hl => ?_
  subst hl
  exact careful_skipStatement.bind fun _ _ _ => trivial

theorem careful_variableDec (start : Token) : (variableDec n start).Careful Whatever last := by
  refine careful_read.bind fun name _ hname => ?_
  subst hname
  split
  · exact careful_abandon _ name _
  refine careful_read.bind fun colon _ hcolon => ?_
  subst hcolon
  split
  · exact careful_abandon _ colon _
  refine careful_dataType.bind fun d _ _ => careful_read.bind fun t _ ht => ?_
  subst ht
  split
  · refine (careful_plainExpression n _).bind fun size _ _ => careful_read.bind fun u _ hu => ?_
    subst hu
    split
    · exact careful_abandon _ u _
    · trivial
  · refine careful_putBack.bind fun _ _ _ => (careful_expression n _ _).bind fun o _ _ => ?_
    exact (careful_initializer o _ name).bind fun _ _ _ => trivial

theorem careful_structDec (start : Token) : (structDec n start).Careful Whatever last := by
  refine (careful_nameBeforeColon _).bind fun name _ _ => careful_read.bind fun t _ ht => ?_
  subst ht
  refine (careful_expect _ _ t).bind fun _ _ _ => (careful_plainExpression n _).bind fun e _ _ => ?_
  split <;> trivial

theorem careful_target (name : Token) : (target n name).Careful Whatever last := by
  refine careful_read.bind fun t _ ht => ?_
  subst ht
  split
  · exact (careful_plainExpression n _).bind fun _ _ _ => trivial
  · exact careful_member.bind fun _ _ _ => trivial
  · exact careful_putBack.bind fun _ _ _ => trivial

theorem careful_identifierStatement (name : Token) :
    (identifierStatement n name).Careful Whatever last := by
  refine (careful_target name).bind fun target _ _ => ?_
  refine (careful_expression n _ _).bind fun o _ _ => ?_
  cases o with
  | pending p => trivial
  | plain e =>
    dsimp only
    split <;> trivial

theorem careful_keywordStatement (kind : StmtKind) (t : Token) :
    (keywordStatement kind t).Careful Whatever last :=
  careful_mark _ _ fun _ => trivial

theorem careful_blockOf {loop : Token → Builder (List Stmt × Token)}
    (h : ∀ t last, (loop t).Careful Whatever last) : (blockOf loop).Careful Whatever last := by
  refine careful_read.bind fun t _ _ => (h t _).bind fun r _ _ => ?_
  dsimp only
  split <;> trivial

section
variable {block : Bool → Builder (Stmt × Token)} {clauses : Bool → Token → Builder (List Stmt)}
  (hb : ∀ chained last, (block chained).Careful Whatever last)
  (hc : ∀ closed t last, (clauses closed t).Careful Whatever last)
include hb hc

theorem careful_conditional (t : Token) :
    (conditional n block clauses t).Careful Whatever last := by
  refine (careful_plainExpression n _).bind fun condition _ _ => (hb _ _).bind fun r _ _ => ?_
  exact (hc _ _ _).bind fun _ _ _ => trivial

/-- A clause, its body read, in front of the clauses behind it. -/
theorem careful_clauseThen (kind : StmtKind) (closed : Bool) (condition : Expr) (t : Token) :
    (do
      let (body, last) ← block true
      return clause kind condition body t.pos :: (← clauses closed last)).Careful Whatever last :=
  (hb true _).bind fun r _ _ => (hc closed r.2 _).bind fun _ _ _ => trivial

theorem careful_statementWith (t : Token) :
    (statementWith n block clauses t).Careful Whatever last := by
  unfold statementWith
  split
  · exact (careful_plainExpression n _).bind fun _ _ _ => trivial
  · exact (careful_variableDec t).bind fun _ _ _ => trivial
  · exact careful_constant.bind fun c _ _ => (careful_addConst c).bind fun _ _ _ => trivial
  · exact (careful_structDec t).bind fun _ _ _ => trivial
  · exact (careful_identifierStatement t).bind fun _ _ _ => trivial
  · exact (careful_plainExpression n _).bind fun _ _ _ => (hb _ _).bind fun _ _ _ => trivial
  · exact (careful_conditional hb hc t).bind fun _ _ _ => trivial
  · exact (careful_keywordStatement _ t).bind fun _ _ _ => trivial
  · exact (careful_keywordStatement _ t).bind fun _ _ _ => trivial
  · trivial

end

/-- Rows of statements and chains of clauses never put back the token they start from. -/
theorem careful_blockLoop_clauses (n : Nat) :
    (∀ chained t last, (blockLoop n chained t).Careful Whatever last) ∧
      ∀ closed t last, (clauses n closed t).Careful Whatever last := by
  induction n with
  | zero => exact ⟨fun _ _ _ => trivial, fun _ _ _ => trivial⟩
  | succ n ih =>
    obtain ⟨hloop, hclauses⟩ := ih
    have hblock (chained : Bool) (last : Option Token) :
        (blockOf (blockLoop n chained)).Careful Whatever last := careful_blockOf (hloop chained)
    refine ⟨fun chained t last => ?_, fun closed t last => ?_⟩
    · rw [blockLoop]
      split
      · trivial
      split
      · split
        · trivial
        · exact (careful_note _ t _).bind fun _ _ _ => careful_read.bind fun u _ _ => hloop ..
      · refine (careful_statementWith hblock hclauses t).bind fun s _ _ => ?_
        exact careful_read.bind fun u _ _ => (hloop chained u _).bind fun _ _ _ => trivial
    · have hcondition (last : Option Token) :
          (plainExpression n (.keyword .then_)).Careful Whatever last :=
        careful_plainExpression n _
      have elif (last : Option Token) := (hcondition last).bind fun condition _ _ =>
        careful_clauseThen hblock hclauses .elif_ closed condition t
      rw [clauses]
      split
      · split
        · exact (careful_note _ t _).bind fun _ _ _ => elif _
        · exact elif _
      split
      · split
        · refine (careful_note _ t _).bind fun _ _ _ => ?_
          exact careful_clauseThen hblock hclauses .else_ true .none t
        · exact careful_clauseThen hblock hclauses .else_ true .none t
      · trivial

theorem careful_block (n : Nat) (chained : Bool) (last : Option Token) :
    (block n chained).Careful Whatever last :=
  careful_blockOf ((careful_blockLoop_clauses n).1 chained)

theorem careful_statement (n : Nat) (t : Token) : (statement n t).Careful Whatever last :=
  careful_statementWith (careful_block n) (careful_blockLoop_clauses n).2 t

theorem careful_ifStatement (n : Nat) (t : Token) : (ifStatement n t).Careful Whatever last :=
  careful_conditional (careful_block n) (careful_blockLoop_clauses n).2 t

/-! ## Functions and files -/

/-- The token behind the type of a result is handed on. -/
theorem careful_returnType (t : Token) :
    (returnType t).Careful (fun r l => l = some r.2) (some t) := by
  unfold returnType
  split
  · rfl
  · exact careful_dataType.bind fun _ _ _ => careful_read.bind fun _ _ hu => hu

/-- The token behind the parameters is handed on. -/
theorem careful_optionalParams (t : Token) :
    (optionalParams n t).Careful (fun r l => l = some r.2) (some t) := by
  unfold optionalParams
  split
  · rfl
  · exact careful_params.bind fun _ _ _ => careful_read.bind fun _ _ hu => hu

theorem careful_function : (function n).Careful Whatever last := by
  refine (careful_nameOr _ _).bind fun r _ hr => ?_
  subst hr
  refine (careful_optionalParams r.2).bind fun args _ hargs => ?_
  subst hargs
  refine (careful_returnType args.2).bind fun d _ hd => ?_
  subst hd
  refine (careful_expect _ _ d.2).bind fun _ l _ => ?_
  exact (careful_block n false l).collected.bind fun _ _ _ => trivial

theorem careful_fileLoop (last : Option Token) : (fileLoop n t).Careful Whatever last := by
  induction n generalizing t last with
  | zero => trivial
  | succ n ih =>
    have more (g : File → File) (last : Option Token) :
        (do return g (← fileLoop n (← read))).Careful Whatever last :=
      careful_read.bind fun u _ _ => (ih _).bind fun _ _ _ => trivial
    rw [fileLoop]
    split
    · trivial
    · exact careful_function.bind fun f _ _ => more (fun file => { file with functions := _ }) _
    · exact careful_structDef.bind fun s _ _ => more (fun file => { file with structs := _ }) _
    · exact careful_constant.bind fun c _ _ => more (fun file => { file with consts := _ }) _
    · exact careful_importPath.bind fun p _ _ => more (fun file => { file with imports := _ }) _
    · exact (careful_note _ t _).bind fun _ _ _ => careful_read.bind fun u _ _ => ih _

theorem careful_file (name : String) : (file name n).Careful Whatever last :=
  careful_read.bind fun _ _ _ => (careful_fileLoop _).bind fun _ _ _ => trivial

end Parser

open ToyLang.Parser in
/-- **The discipline of putting back.** In every session, whatever its stream holds and whether it
has ended, whatever the policy and with any bound, no builder of the parser puts a token back over
another one, each token that is put back is the one that was read immediately before, and what the
stream still delivers behind the builder is the rest of what it would have delivered. -/
theorem builders_disciplined (s : Session) (n : Nat) (t : Token) (stop : TokenKind)
    (chained : Bool) (name : String) :
    (file name n).Disciplined s ∧ (function n).Disciplined s ∧ (params n).Disciplined s ∧
      (structDef n).Disciplined s ∧ (constant n).Disciplined s ∧ (importPath n).Disciplined s ∧
      (block n chained).Disciplined s ∧ (statement n t).Disciplined s ∧
      (ifStatement n t).Disciplined s ∧ (variableDec n t).Disciplined s ∧
      (structDec n t).Disciplined s ∧ (identifierStatement n t).Disciplined s ∧
      (expression n stop).Disciplined s ∧ (identifier n t).Disciplined s ∧
      dataType.Disciplined s := by
  refine ⟨?_, ?_, ?_, ?_, ?_, ?_, ?_, ?_, ?_, ?_, ?_, ?_, ?_, ?_, ?_⟩
  · exact (careful_file name).disciplined s
  · exact careful_function.disciplined s
  · exact careful_params.disciplined s
  · exact careful_structDef.disciplined s
  · exact careful_constant.disciplined s
  · exact careful_importPath.disciplined s
  · exact (careful_block n chained none).disciplined s
  · exact (careful_statement n t).disciplined s
  · exact (careful_ifStatement n t).disciplined s
  · exact (careful_variableDec t).disciplined s
  · exact (careful_structDec t).disciplined s
  · exact (careful_identifierStatement t).disciplined s
  · exact (careful_expression n stop none).disciplined s
  · exact (careful_identifier n t).disciplined s
  · exact careful_dataType.disciplined s

end ToyLang
