import ToyLang.Proofs.Placement.Expression

/-!
# Positions do not matter to files

The builders of declarations, statements and files, in the order in which they are defined. The main
statement is `alike_file`: rows of tokens that differ in positions only are built into files that
are the same.
-/

set_option autoImplicit false

namespace ToyLang

/-! ## Results without positions -/

@[simp] theorem TypedName.unplaced_mk (name : String) (dataType : DataType) (expr : Expr) :
    (TypedName.mk name dataType expr).unplaced = ⟨name, dataType, expr.unplaced⟩ := rfl

/-- Rows of typed names that differ in positions only. -/
abbrev AlikeNames : List TypedName → List TypedName → Prop := Under (List.map TypedName.unplaced)

/-- Rows of statements that differ in positions only. -/
abbrev AlikeStmts : List Stmt → List Stmt → Prop := Under (List.map Stmt.unplaced)

/-- Files differ in positions only if their declarations of every class do. -/
theorem File.under_unplaced_iff {f f' : File} : Under File.unplaced f f' ↔
    Under (List.map Function.unplaced) f.functions f'.functions ∧
      Under (List.map Struct.unplaced) f.structs f'.structs ∧
        AlikeNames f.consts f'.consts ∧ f.imports = f'.imports := by
  simp only [Under, File.unplaced, File.mk.injEq, true_and]

/-- Results in `R` beside alike tokens. -/
def WithToken {α : Type} (R : α → α → Prop) (r r' : α × Token) : Prop :=
  R r.1 r'.1 ∧ r.2.Alike r'.2

namespace Parser

open Builder

variable {t t' : Token}

/-! ## Declarations -/

theorem alike_dataType : Alike Eq dataType dataType := by
  unfold dataType
  refine alike_read.bind fun t t' ht => ?_
  simp only [ht.kind]
  split
  · exact alike_pure rfl
  · exact (alike_note _ ht).bind fun _ _ _ => alike_pure rfl

theorem alike_initializer {o o' : Operand} {e e' : Expr} (ho : Under Operand.unplaced o o')
    (he : Under Expr.unplaced e e') (ht : t.Alike t') :
    Alike (Under Expr.unplaced) (initializer o e t) (initializer o' e' t') := by
  unfold initializer
  cases o with
  | plain v =>
    cases o' with
    | plain v' =>
      have hv : Under Expr.unplaced v v' := Operand.plain.inj ho
      dsimp only
      rw [Expr.isNone_of_alike hv, Expr.value_of_alike he]
      split
      · exact alike_pure hv
      · exact (alike_note _ ht).bind fun _ _ _ => alike_pure hv
    | pending p' => cases ho
  | pending p =>
    cases o' with
    | plain v' => cases ho
    | pending p' => exact alike_pure (alike_complete ho he)

theorem alike_expect (kind : TokenKind) (p : Problem) (ht : t.Alike t') :
    Alike Any (expect kind p t) (expect kind p t') := by
  unfold expect
  rw [ht.kind]
  split
  · exact alike_pure trivial
  · exact (alike_note _ ht).bind fun _ _ _ => alike_putBack ht

theorem alike_skipParams (n : Nat) (ht : t.Alike t') :
    Alike Any (skipParams n t) (skipParams n t') := by
  induction n generalizing t t' with
  | zero => exact .fault _ _
  | succ n ih =>
    rw [skipParams, skipParams, ht.kind]
    split
    · exact alike_pure trivial
    split
    · exact alike_putBack ht
    · exact alike_read.bind fun _ _ hs => ih hs

theorem alike_abandonParams (n : Nat) (p : Problem) (ht : t.Alike t') :
    Alike Any (abandonParams n p t) (abandonParams n p t') :=
  (alike_note _ ht).bind fun _ _ _ => alike_skipParams n ht

theorem alike_paramsLoop (n : Nat) (ht : t.Alike t') :
    Alike AlikeNames (paramsLoop n t) (paramsLoop n t') := by
  induction n generalizing t t' with
  | zero => exact .fault _ _
  | succ n ih =>
    rw [paramsLoop, paramsLoop, ht.kind, ht.value]
    split
    · exact (alike_abandonParams _ _ ht).bind fun _ _ _ => alike_pure rfl
    refine alike_read.bind fun s s' hs => ?_
    rw [hs.kind]
    split
    · exact (alike_abandonParams _ _ hs).bind fun _ _ _ => alike_pure rfl
    refine alike_dataType.bind fun d d' hd => ?_
    subst hd
    refine alike_read.bind fun s s' hs => ?_
    simp only [hs.kind]
    split
    · exact alike_pure rfl
    · refine alike_read.bind fun s s' hs => (ih hs).bind fun ps ps' hps => ?_
      exact alike_pure (under_cons rfl hps)
    · exact (alike_abandonParams _ _ hs).bind fun _ _ _ => alike_pure rfl

theorem alike_params (n : Nat) : Alike AlikeNames (params n) (params n) := by
  unfold params
  refine alike_read.bind fun t t' ht => ?_
  rw [ht.kind]
  split
  · exact alike_pure rfl
  · exact (alike_putBack ht).bind fun _ _ _ => alike_read.bind fun _ _ hu => alike_paramsLoop n hu

theorem alike_structItem (n : Nat) (ht : t.Alike t') :
    Alike (Under TypedName.unplaced) (structItem n t) (structItem n t') := by
  unfold structItem
  refine alike_read.bind fun s s' hs => (alike_expect _ _ hs).bind fun _ _ _ => ?_
  refine alike_dataType.bind fun d d' hd => ?_
  refine (alike_expression n _).bind fun o o' ho => ?_
  rw [ht.value]
  refine (alike_initializer ho (alike_identifierExpr _ _ _) ht).bind fun e e' he => ?_
  exact alike_pure (by simp only [Under, TypedName.unplaced_mk, hd, he])

theorem alike_structItems (n : Nat) (ht : t.Alike t') :
    Alike (WithToken AlikeNames) (structItems n t) (structItems n t') := by
  induction n generalizing t t' with
  | zero => exact .fault _ _
  | succ n ih =>
    rw [structItems, structItems]
    simp only [ht.kind]
    split
    · exact alike_pure ⟨rfl, ht⟩
    · exact alike_pure ⟨rfl, ht⟩
    · refine (alike_structItem n ht).bind fun i i' hi => ?_
      refine alike_read.bind fun s s' hs => (ih hs).bind fun r r' hr => ?_
      exact alike_pure ⟨under_cons hi hr.1, hr.2⟩
    · exact (alike_note _ ht).bind fun _ _ _ => alike_read.bind fun _ _ hs => ih hs

theorem alike_nameOr (p : Problem) (followers : List TokenKind) :
    Alike (WithToken Eq) (nameOr p followers) (nameOr p followers) := by
  unfold nameOr
  refine alike_read.bind fun t t' ht => ?_
  rw [ht.kind, ht.value]
  split
  · exact alike_read.bind fun _ _ hs => alike_pure ⟨rfl, hs⟩
  refine (alike_note _ ht).bind fun _ _ _ => ?_
  split
  · exact alike_pure ⟨rfl, ht⟩
  · exact alike_read.bind fun _ _ hs => alike_pure ⟨rfl, hs⟩

theorem alike_structDef (n : Nat) :
    Alike (Under Struct.unplaced) (structDef n) (structDef n) := by
  unfold structDef
  refine (alike_nameOr _ _).bind fun r r' hr => ?_
  refine (alike_expect _ _ hr.2).bind fun _ _ _ => ?_
  refine alike_read.bind fun s s' hs => (alike_structItems n hs).bind fun q q' hq => ?_
  have hstruct : Under Struct.unplaced ⟨r.1, q.1⟩ ⟨r'.1, q'.1⟩ := by
    simp only [Under, Struct.unplaced, show AlikeNames _ _ from hq.1, show r.1 = r'.1 from hr.1]
  dsimp only
  rw [hq.2.kind]
  split
  · exact (alike_note _ hq.2).bind fun _ _ _ => alike_pure hstruct
  · exact alike_pure hstruct

theorem alike_nameBeforeColon (p : Problem) :
    Alike Eq (nameBeforeColon p) (nameBeforeColon p) := by
  unfold nameBeforeColon
  refine alike_read.bind fun t t' ht => ?_
  rw [ht.kind, ht.value]
  split
  · exact alike_pure rfl
  refine (alike_note _ ht).bind fun _ _ _ => ?_
  split
  · exact (alike_putBack ht).bind fun _ _ _ => alike_pure rfl
  · exact alike_pure rfl

theorem alike_constant (n : Nat) :
    Alike (Under TypedName.unplaced) (constant n) (constant n) := by
  unfold constant
  refine (alike_nameBeforeColon _).bind fun name name' hname => ?_
  refine alike_read.bind fun s s' hs => (alike_expect _ _ hs).bind fun _ _ _ => ?_
  refine alike_dataType.bind fun d d' hd => ?_
  refine alike_read.bind fun s s' hs => (alike_expect _ _ hs).bind fun _ _ _ => ?_
  refine (alike_plainExpression n _).bind fun e e' he => alike_pure ?_
  simp only [Under, TypedName.unplaced_mk, hname, hd, he]

theorem alike_importLoop (n : Nat) (ht : t.Alike t') :
    Alike Eq (importLoop n t) (importLoop n t') := by
  induction n generalizing t t' with
  | zero => exact .fault _ _
  | succ n ih =>
    rw [importLoop, importLoop]
    simp only [ht.kind, ht.value]
    split
    · exact alike_pure rfl
    · exact alike_pure rfl
    · exact alike_read.bind fun _ _ hs => (ih hs).bind fun _ _ hp => alike_pure (by rw [hp])
    · exact alike_read.bind fun _ _ hs => (ih hs).bind fun _ _ hp => alike_pure (by rw [hp])
    · exact (alike_note _ ht).bind fun _ _ _ => alike_read.bind fun _ _ hs => ih hs

theorem alike_importPath (n : Nat) : Alike Eq (importPath n) (importPath n) :=
  alike_read.bind fun _ _ hs => alike_importLoop n hs

/-! ## Statements -/

theorem alike_skipStatement (n : Nat) (ht : t.Alike t') :
    Alike Any (skipStatement n t) (skipStatement n t') := by
  induction n generalizing t t' with
  | zero => exact .fault _ _
  | succ n ih =>
    rw [skipStatement, skipStatement]
    simp only [ht.kind]
    split
    · exact alike_pure trivial
    · exact alike_putBack ht
    · exact alike_putBack ht
    · exact alike_read.bind fun _ _ hs => ih hs

theorem alike_abandon (n : Nat) (p : Problem) (ht : t.Alike t') (start start' : Pos) :
    Alike (Under Stmt.unplaced) (abandon n p t start) (abandon n p t' start') := by
  unfold abandon
  refine (alike_note _ ht).bind fun _ _ _ => (alike_skipStatement n ht).bind fun _ _ _ => ?_
  exact alike_pure (by simp [Under, Stmt.none, Stmt.unplaced_mk])

theorem alike_variableDec (n : Nat) (start start' : Token) :
    Alike (Under Stmt.unplaced) (variableDec n start) (variableDec n start') := by
  unfold variableDec
  refine alike_read.bind fun name name' hname => ?_
  rw [hname.kind, hname.value]
  split
  · exact alike_abandon _ _ hname _ _
  refine alike_read.bind fun s s' hs => ?_
  rw [hs.kind]
  split
  · exact alike_abandon _ _ hs _ _
  refine alike_dataType.bind fun d d' hd => ?_
  subst hd
  refine alike_read.bind fun s s' hs => ?_
  rw [hs.kind]
  split
  · refine (alike_plainExpression n _).bind fun e e' he => alike_read.bind fun s s' hs => ?_
    rw [hs.kind]
    split
    · exact alike_abandon _ _ hs _ _
    · exact alike_pure (by simp only [Under, Stmt.unplaced_mk, he])
  · refine (alike_putBack hs).bind fun _ _ _ => (alike_expression n _).bind fun o o' ho => ?_
    refine (alike_initializer ho (alike_identifierExpr _ _ _) hname).bind fun e e' he => ?_
    exact alike_pure (by simp only [Under, Stmt.unplaced_mk, he])

theorem alike_structDec (n : Nat) (start start' : Token) :
    Alike (Under Stmt.unplaced) (structDec n start) (structDec n start') := by
  unfold structDec
  refine (alike_nameBeforeColon _).bind fun name name' hname => ?_
  refine alike_read.bind fun s s' hs => (alike_expect _ _ hs).bind fun _ _ _ => ?_
  refine (alike_plainExpression n _).bind fun e e' he => ?_
  have hstmt : Under Stmt.unplaced { kind := .structDec, name, expr := e, pos := start.pos }
      { kind := .structDec, name := name', expr := e', pos := start'.pos } := by
    simp only [Under, Stmt.unplaced_mk, hname, he]
  dsimp only
  rw [Expr.kind_of_alike he]
  split
  · exact alike_pure hstmt
  · exact (alike_note _ hs).bind fun _ _ _ => alike_pure hstmt

theorem alike_target (n : Nat) {name name' : Token} (hname : name.Alike name') :
    Alike (Under Expr.unplaced) (target n name) (target n name') := by
  unfold target
  rw [hname.value]
  refine alike_read.bind fun t t' ht => ?_
  simp only [ht.kind]
  split
  · exact (alike_plainExpression n _).bind fun _ _ he => alike_pure (alike_access _ _ _ _ he)
  · exact alike_member.bind fun _ _ he => alike_pure (alike_access _ _ _ _ he)
  · exact (alike_putBack ht).bind fun _ _ _ => alike_pure (alike_identifierExpr _ _ _)

theorem alike_identifierStatement (n : Nat) {name name' : Token} (hname : name.Alike name') :
    Alike (Under Stmt.unplaced) (identifierStatement n name) (identifierStatement n name') := by
  unfold identifierStatement
  refine (alike_target n hname).bind fun e e' he => ?_
  refine (alike_expression n _).bind fun o o' ho => ?_
  rw [hname.value]
  cases o with
  | plain v =>
    cases o' with
    | plain v' =>
      have hv : Under Expr.unplaced v v' := Operand.plain.inj ho
      have hstmt (s : String) : Under Stmt.unplaced
          { kind := .callStmt, name := s, expr := v, pos := name.pos }
          { kind := .callStmt, name := s, expr := v', pos := name'.pos } := by
        simp only [Under, Stmt.unplaced_mk, show v.unplaced = v'.unplaced from hv]
      dsimp only
      rw [Expr.kind_of_alike he]
      split
      · exact alike_pure (hstmt _)
      · exact (alike_note _ hname).bind fun _ _ _ => alike_pure (hstmt _)
    | pending p' => cases ho
  | pending p =>
    cases o' with
    | plain v' => cases ho
    | pending p' =>
      exact alike_pure (by simp only [Under, Stmt.unplaced_mk, alike_complete ho he])

/-! ## Blocks and control flow -/

/-- Statements beside the tokens that ended them. -/
abbrev AlikeBlock : Stmt × Token → Stmt × Token → Prop := WithToken (Under Stmt.unplaced)

theorem alike_blockOf {loop loop' : Token → Builder (List Stmt × Token)}
    (h : ∀ t t', t.Alike t' → Alike (WithToken AlikeStmts) (loop t) (loop' t')) :
    Alike AlikeBlock (blockOf loop) (blockOf loop') := by
  unfold blockOf
  refine alike_read.bind fun t t' ht => (h t t' ht).bind fun r r' hr => ?_
  have hblock : AlikeBlock (.block r.1, r.2) (.block r'.1, r'.2) := by
    refine ⟨?_, hr.2⟩
    simp only [Under, Stmt.block, Stmt.unplaced_mk, show AlikeStmts _ _ from hr.1]
  dsimp only
  rw [hr.2.kind]
  split
  · exact (alike_note _ hr.2).bind fun _ _ _ => alike_pure hblock
  · exact alike_pure hblock

theorem alike_clause (kind : StmtKind) {e e' : Expr} {body body' : Stmt} (p p' : Pos)
    (he : Under Expr.unplaced e e') (hbody : Under Stmt.unplaced body body') :
    Under Stmt.unplaced (clause kind e body p) (clause kind e' body' p') := by
  simp only [Under, clause, Stmt.unplaced_mk, he, List.map_cons, hbody]

theorem alike_keywordStatement (kind : StmtKind) :
    Alike (Under Stmt.unplaced) (keywordStatement kind t) (keywordStatement kind t') := by
  unfold keywordStatement
  refine alike_read.bind fun s s' hs => (alike_expect _ _ hs).bind fun _ _ _ => ?_
  exact alike_pure (by simp only [Under, Stmt.unplaced_mk])

section
variable {n : Nat} {block : Bool → Builder (Stmt × Token)}
  {clauses : Bool → Token → Builder (List Stmt)}
  (hb : ∀ chained, Alike AlikeBlock (block chained) (block chained))
  (hc : ∀ closed t t', t.Alike t' → Alike AlikeStmts (clauses closed t) (clauses closed t'))
include hb hc

theorem alike_conditional :
    Alike (Under Stmt.unplaced) (conditional n block clauses t)
      (conditional n block clauses t') := by
  unfold conditional
  refine (alike_plainExpression n _).bind fun e e' he => (hb _).bind fun r r' hr => ?_
  refine (hc _ _ _ hr.2).bind fun bs bs' hbs => alike_pure ?_
  have hbody : r.1.unplaced = r'.1.unplaced := hr.1
  simp only [Under, clause, Stmt.unplaced_mk, he, List.map_cons, hbody, hbs]

theorem alike_statementWith (ht : t.Alike t') :
    Alike (Under (Option.map Stmt.unplaced)) (statementWith n block clauses t)
      (statementWith n block clauses t') := by
  unfold statementWith
  simp only [ht.kind]
  split
  · refine (alike_plainExpression n _).bind fun e e' he => alike_pure ?_
    simp only [Under, Option.map_some, Stmt.unplaced_mk, he]
  · exact (alike_variableDec n t t').bind fun _ _ hs => alike_pure (congrArg some hs)
  · exact (alike_constant n).bind fun c c' hc => (alike_addConst hc).bind fun _ _ _ =>
      alike_pure rfl
  · exact (alike_structDec n t t').bind fun _ _ hs => alike_pure (congrArg some hs)
  · exact (alike_identifierStatement n ht).bind fun _ _ hs => alike_pure (congrArg some hs)
  · refine (alike_plainExpression n _).bind fun e e' he => (hb _).bind fun r r' hr => ?_
    exact alike_pure (congrArg some (alike_clause _ _ _ he hr.1))
  · exact (alike_conditional hb hc).bind fun _ _ hs => alike_pure (congrArg some hs)
  · exact (alike_keywordStatement _).bind fun _ _ hs => alike_pure (congrArg some hs)
  · exact (alike_keywordStatement _).bind fun _ _ hs => alike_pure (congrArg some hs)
  · exact (alike_note _ ht).bind fun _ _ _ => alike_pure rfl

end

theorem alike_block_and_clauses (n : Nat) :
    (∀ chained t t', t.Alike t' →
      Alike (WithToken AlikeStmts) (blockLoop n chained t) (blockLoop n chained t')) ∧
    (∀ closed t t', t.Alike t' →
      Alike AlikeStmts (clauses n closed t) (clauses n closed t')) := by
  induction n with
  | zero =>
    refine ⟨fun _ _ _ _ => ?_, fun _ _ _ _ => ?_⟩
    · unfold blockLoop
      exact .fault _ _
    · unfold clauses
      exact .fault _ _
  | succ n ih =>
    have hb (chained : Bool) : Alike AlikeBlock (blockOf (blockLoop n chained))
        (blockOf (blockLoop n chained)) := alike_blockOf (ih.1 chained)
    refine ⟨fun chained t t' ht => ?_, fun closed t t' ht => ?_⟩
    · rw [blockLoop, blockLoop, ht.kind, ht.value]
      split
      · exact alike_pure ⟨rfl, ht⟩
      split
      · split
        · exact alike_pure ⟨rfl, ht⟩
        · exact (alike_note _ ht).bind fun _ _ _ => alike_read.bind fun _ _ hs => ih.1 _ _ _ hs
      · refine (alike_statementWith hb ih.2 ht).bind fun s s' hs => ?_
        refine alike_read.bind fun u u' hu => (ih.1 chained _ _ hu).bind fun r r' hr => ?_
        refine alike_pure ⟨?_, hr.2⟩
        rcases s with _ | s <;> rcases s' with _ | s'
        · exact hr.1
        · cases hs
        · cases hs
        · exact under_cons (Option.some.inj hs) hr.1
    · have hclause (kind : StmtKind) (closed : Bool) {e e' : Expr} (he : Under Expr.unplaced e e') :
          Alike AlikeStmts
            (blockOf (blockLoop n true) >>= fun r => do
              return clause kind e r.1 t.pos :: (← clauses n closed r.2))
            (blockOf (blockLoop n true) >>= fun r => do
              return clause kind e' r.1 t'.pos :: (← clauses n closed r.2)) :=
        (hb true).bind fun r r' hr => (ih.2 _ _ _ hr.2).bind fun ss ss' hss =>
          alike_pure (under_cons (alike_clause kind t.pos t'.pos he hr.1) hss)
      rw [clauses, clauses, ht.kind, ht.value]
      split
      · cases closed
        · exact (alike_plainExpression n _).bind fun _ _ he => hclause _ _ he
        · exact (alike_note _ ht).bind fun _ _ _ =>
            (alike_plainExpression n _).bind fun _ _ he => hclause _ _ he
      split
      · cases closed
        · exact hclause _ _ rfl
        · exact (alike_note _ ht).bind fun _ _ _ => hclause _ _ rfl
      · exact alike_pure rfl

theorem alike_block (n : Nat) (chained : Bool) :
    Alike AlikeBlock (block n chained) (block n chained) :=
  alike_blockOf ((alike_block_and_clauses n).1 chained)

/-! ## Files -/

theorem alike_returnType (ht : t.Alike t') :
    Alike (WithToken Eq) (returnType t) (returnType t') := by
  unfold returnType
  rw [ht.kind]
  split
  · exact alike_pure ⟨rfl, ht⟩
  · exact alike_dataType.bind fun _ _ hd => alike_read.bind fun _ _ hs => alike_pure ⟨hd, hs⟩

theorem alike_optionalParams (n : Nat) (ht : t.Alike t') :
    Alike (WithToken AlikeNames) (optionalParams n t) (optionalParams n t') := by
  unfold optionalParams
  rw [ht.kind]
  split
  · exact alike_pure ⟨rfl, ht⟩
  · exact (alike_params n).bind fun _ _ hp => alike_read.bind fun _ _ hs => alike_pure ⟨hp, hs⟩

theorem alike_function (n : Nat) :
    Alike (Under Function.unplaced) (function n) (function n) := by
  unfold function
  refine (alike_nameOr _ _).bind fun r r' hname => ?_
  refine (alike_optionalParams n hname.2).bind fun r r' hargs => ?_
  refine (alike_returnType hargs.2).bind fun r r' htype => ?_
  refine (alike_expect _ _ htype.2).bind fun _ _ _ => ?_
  refine (alike_block n false).collected.bind fun r r' hr => alike_pure ?_
  have hb := hr.1.1
  have ha := hargs.1
  simp only [Under, AlikeNames] at hb ha
  simp only [Under, Function.unplaced, Function.mk.injEq]
  exact ⟨hname.1, htype.1, ha, hr.2, hb⟩

theorem alike_fileLoop (n : Nat) (ht : t.Alike t') :
    Alike (Under File.unplaced) (fileLoop n t) (fileLoop n t') := by
  induction n generalizing t t' with
  | zero => exact .fault _ _
  | succ n ih =>
    -- the files behind a declaration are alike, and stay so with alike declarations in front
    have rest {wrap wrap' : File → File}
        (h : ∀ f f', Under File.unplaced f f' → Under File.unplaced (wrap f) (wrap' f')) :
        Alike (Under File.unplaced) (read >>= fun t => wrap <$> fileLoop n t)
          (read >>= fun t => wrap' <$> fileLoop n t) :=
      alike_read.bind fun _ _ hs => (ih hs).map fun _ _ hf => h _ _ hf
    rw [fileLoop, fileLoop]
    simp only [ht.kind]
    split
    · exact alike_pure rfl
    · refine (alike_function n).bind fun _ _ hg => rest fun f f' hf => ?_
      obtain ⟨hfunctions, hothers⟩ := File.under_unplaced_iff.1 hf
      exact File.under_unplaced_iff.2 ⟨under_cons hg hfunctions, hothers⟩
    · refine (alike_structDef n).bind fun _ _ hs => rest fun f f' hf => ?_
      obtain ⟨hfunctions, hstructs, hothers⟩ := File.under_unplaced_iff.1 hf
      exact File.under_unplaced_iff.2 ⟨hfunctions, under_cons hs hstructs, hothers⟩
    · refine (alike_constant n).bind fun _ _ hc => rest fun f f' hf => ?_
      obtain ⟨hfunctions, hstructs, hconsts, himports⟩ := File.under_unplaced_iff.1 hf
      exact File.under_unplaced_iff.2 ⟨hfunctions, hstructs, under_cons hc hconsts, himports⟩
    · refine (alike_importPath n).bind fun path path' hpath => rest fun f f' hf => ?_
      obtain ⟨hfunctions, hstructs, hconsts, himports⟩ := File.under_unplaced_iff.1 hf
      exact File.under_unplaced_iff.2
        ⟨hfunctions, hstructs, hconsts, by rw [hpath, himports]⟩
    · exact (alike_note _ ht).bind fun _ _ _ => alike_read.bind fun _ _ hs => ih hs

/-- Files are built alike from tokens that differ in positions only. -/
theorem alike_file (name : String) (n : Nat) :
    Alike (Under File.unplaced) (file name n) (file name n) := by
  unfold file
  refine alike_read.bind fun _ _ ht => (alike_fileLoop n ht).bind fun f f' hf => alike_pure ?_
  exact File.under_unplaced_iff.2 (File.under_unplaced_iff.1 hf)

end Parser

end ToyLang
