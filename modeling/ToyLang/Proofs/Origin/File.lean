import ToyLang.Proofs.Origin.Expression

/-!
# Files from tokens

Declarations, statements, blocks with their clauses, functions and files: whatever is reported and
skipped, what is built is from the tokens that were read, a clause stands in a chain only, and what
is reported quotes a word, or a spelling.

* `Parser.makes_file`: a file is from the tokens that the stream delivers;
* `File.wellFormed_of_run`: so it is well formed, however the tokens fail to make a program.
-/

set_option autoImplicit false

namespace ToyLang

theorem Value.name_ofPayload (v : Payload) : (ofPayload v).name = v.display := by cases v <;> rfl

namespace Parser

open Builder

variable {T : Token → Prop} {t : Token} {n : Nat}

/-! ## Types, values and names -/

theorem makes_dataType : dataType.Makes (.ofTokens T) Anything := by
  refine makes_read.bind fun t ht => ?_
  split
  · trivial
  · exact (makes_note ht (by trivial)).bind fun _ _ => trivial

/-- A declaration that lacks its value is reported at the declared name, and quotes it. -/
theorem makes_initializer {o : Operand} {target : Expr} (h : o.From T) (htarget : target.From T)
    (hname : target.value.name = t.value.display) (ht : T t) (hk : t.kind = .ident) :
    (initializer o target t).Makes (.ofTokens T) (Expr.From T) := by
  cases o with
  | pending p => exact PendingAssignment.from_complete h htarget
  | plain e =>
    unfold initializer
    dsimp only
    split
    · exact h
    · have hquotes : Problem.Quotes (.initializer target.value.name) t :=
        ⟨hname, by simp [hk, TokenKind.free]⟩
      exact (makes_note ht hquotes).bind fun _ _ => h

section
variable {p : Problem} (hp : ∀ t, p.Quotes t)
include hp

theorem makes_expect (kind : TokenKind) (ht : T t) :
    (expect kind p t).Makes (.ofTokens T) Anything := by
  unfold expect
  split
  · trivial
  · exact (makes_note ht (hp t)).bind fun _ _ => makes_putBack ht

theorem makes_nameOr (followers : List TokenKind) :
    (nameOr p followers).Makes (.ofTokens T) fun r => (Value.text r.1).IsNameFrom T ∧ T r.2 := by
  refine makes_read.bind fun t ht => ?_
  split
  · next hk => exact makes_read.bind fun u hu => ⟨isNameFrom_display ht hk, hu⟩
  refine (makes_note ht (hp t)).bind fun _ _ => ?_
  split
  · exact ⟨isNameFrom_empty, ht⟩
  · exact makes_read.bind fun u hu => ⟨isNameFrom_empty, hu⟩

theorem makes_nameBeforeColon :
    (nameBeforeColon p).Makes (.ofTokens T) fun name => (Value.text name).IsNameFrom T := by
  refine makes_read.bind fun t ht => ?_
  split
  · next hk => exact isNameFrom_display ht hk
  refine (makes_note ht (hp t)).bind fun _ _ => ?_
  split
  · exact (makes_putBack ht).bind fun _ _ => isNameFrom_empty
  · exact isNameFrom_empty

end

/-! ## Parameters -/

theorem makes_skipParams (ht : T t) : (skipParams n t).Makes (.ofTokens T) Anything := by
  induction n generalizing t with
  | zero => trivial
  | succ n ih =>
    rw [skipParams]
    split
    · trivial
    split
    · exact makes_putBack ht
    · exact makes_read.bind fun _ hu => ih hu

theorem makes_abandonParams {p : Problem} (hp : p.Quotes t) (ht : T t) :
    (abandonParams n p t).Makes (.ofTokens T) Anything :=
  (makes_note ht hp).bind fun _ _ => makes_skipParams ht

theorem makes_paramsLoop (ht : T t) :
    (paramsLoop n t).Makes (.ofTokens T) fun args => ∀ a ∈ args, a.ParamFrom T := by
  have hnil : ∀ a ∈ ([] : List TypedName), a.ParamFrom T := fun _ h => absurd h List.not_mem_nil
  induction n generalizing t with
  | zero => trivial
  | succ n ih =>
    rw [paramsLoop]
    split
    · exact (makes_abandonParams (by trivial) ht).bind fun _ _ => hnil
    next hk =>
    have hparam (d : DataType) :
        ({ name := t.value.display, dataType := d } : TypedName).ParamFrom T :=
      ⟨isNameFrom_display ht (Decidable.not_not.1 hk), rfl⟩
    refine makes_read.bind fun colon hcolon => ?_
    split
    · exact (makes_abandonParams (by trivial) hcolon).bind fun _ _ => hnil
    refine makes_dataType.bind fun d _ => makes_read.bind fun u hu => ?_
    split
    · exact List.forall_mem_singleton.2 (hparam d)
    · exact makes_read.bind fun v hv => (ih hv).bind fun args hargs =>
        List.forall_mem_cons.2 ⟨hparam d, hargs⟩
    · exact (makes_abandonParams (by trivial) hu).bind fun _ _ =>
        List.forall_mem_singleton.2 (hparam d)

theorem makes_params : (params n).Makes (.ofTokens T) fun args => ∀ a ∈ args, a.ParamFrom T := by
  refine makes_read.bind fun t ht => ?_
  split
  · exact fun _ h => absurd h List.not_mem_nil
  · exact (makes_putBack ht).bind fun _ _ => makes_read.bind fun _ hu => makes_paramsLoop hu

/-! ## Structures, constants and imports -/

theorem makes_structItem (ht : T t) (hk : t.kind = .ident) :
    (structItem n t).Makes (.ofTokens T) (TypedName.From T) := by
  refine makes_read.bind fun colon hcolon => ?_
  refine (makes_expect (fun _ => by trivial) _ hcolon).bind fun _ _ => ?_
  refine makes_dataType.bind fun d _ => (makes_expression n rfl).bind fun o ho => ?_
  have htarget : (Expr.identifier (.ofPayload t.value) t.pos).From T :=
    .identifier _ t ht (isNameFrom_payload ht hk)
  have hvalue := makes_initializer ho htarget (Value.name_ofPayload t.value) ht hk
  exact hvalue.bind fun e he => ⟨isNameFrom_display ht hk, he⟩

theorem makes_structItems (ht : T t) :
    (structItems n t).Makes (.ofTokens T) fun r => (∀ i ∈ r.1, i.From T) ∧ T r.2 := by
  induction n generalizing t with
  | zero => trivial
  | succ n ih =>
    rw [structItems]
    split
    · exact ⟨fun _ h => absurd h List.not_mem_nil, ht⟩
    · exact ⟨fun _ h => absurd h List.not_mem_nil, ht⟩
    · next hk =>
      refine (makes_structItem ht hk).bind fun item hitem => makes_read.bind fun u hu => ?_
      exact (ih hu).bind fun r hr => ⟨List.forall_mem_cons.2 ⟨hitem, hr.1⟩, hr.2⟩
    · exact (makes_note ht (by trivial)).bind fun _ _ => makes_read.bind fun u hu => ih hu

theorem makes_structDef : (structDef n).Makes (.ofTokens T) (Struct.From T) := by
  refine (makes_nameOr (fun _ => by trivial) _).bind fun r hr => ?_
  refine (makes_expect (fun _ => by trivial) _ hr.2).bind fun _ _ => ?_
  refine makes_read.bind fun u hu => (makes_structItems hu).bind fun items hitems => ?_
  dsimp only
  split
  · exact (makes_note hitems.2 (by trivial)).bind fun _ _ => ⟨hr.1, hitems.1⟩
  · exact ⟨hr.1, hitems.1⟩

theorem makes_constant : (constant n).Makes (.ofTokens T) (TypedName.From T) := by
  refine (makes_nameBeforeColon fun _ => by trivial).bind fun name hname => ?_
  refine makes_read.bind fun colon hcolon => ?_
  refine (makes_expect (fun _ => by trivial) _ hcolon).bind fun _ _ => ?_
  refine makes_dataType.bind fun d _ => makes_read.bind fun assign hassign => ?_
  refine (makes_expect (fun _ => by trivial) _ hassign).bind fun _ _ => ?_
  exact (makes_plainExpression n rfl).bind fun e he => ⟨hname, he⟩

theorem makes_importLoop (ht : T t) : (importLoop n t).Makes (.ofTokens T) (IsPathFrom T) := by
  induction n generalizing t with
  | zero => trivial
  | succ n ih =>
    rw [importLoop]
    split
    · exact .empty
    · exact .empty
    · next hk =>
      exact makes_read.bind fun u hu => (ih hu).bind fun path hpath => .name t path ht hk hpath
    · exact makes_read.bind fun u hu => (ih hu).bind fun path hpath => .slash path hpath
    · exact (makes_note ht (by trivial)).bind fun _ _ => makes_read.bind fun u hu => ih hu

theorem makes_importPath : (importPath n).Makes (.ofTokens T) (IsPathFrom T) :=
  makes_read.bind fun _ ht => makes_importLoop ht

/-! ## Statements -/

theorem makes_skipStatement (ht : T t) : (skipStatement n t).Makes (.ofTokens T) Anything := by
  induction n generalizing t with
  | zero => trivial
  | succ n ih =>
    rw [skipStatement]
    split
    · trivial
    · exact makes_putBack ht
    · exact makes_putBack ht
    · exact makes_read.bind fun u hu => ih hu

/-- A declaration that is given up leaves a mark. -/
theorem makes_abandon {p : Problem} (hp : p.Quotes t) (ht : T t) {start : Token}
    (hstart : T start) : (abandon n p t start.pos).Makes (.ofTokens T) (Stmt.MemberFrom T) :=
  (makes_note ht hp).bind fun _ _ => (makes_skipStatement ht).bind fun _ _ =>
    ⟨.none start hstart, by simp [Stmt.StandsInRow, Stmt.none]⟩

theorem makes_variableDec {start : Token} (hstart : T start) :
    (variableDec n start).Makes (.ofTokens T) (Stmt.MemberFrom T) := by
  refine makes_read.bind fun name hname => ?_
  split
  · exact makes_abandon (by trivial) hname hstart
  next hk =>
  have hk := Decidable.not_not.1 hk
  have hfrom := isNameFrom_display hname hk
  refine makes_read.bind fun colon hcolon => ?_
  split
  · exact makes_abandon (by trivial) hcolon hstart
  refine makes_dataType.bind fun d _ => makes_read.bind fun u hu => ?_
  split
  · refine (makes_plainExpression n rfl).bind fun size hsize => makes_read.bind fun v hv => ?_
    split
    · exact makes_abandon (by trivial) hv hstart
    · exact ⟨.declared .arrayDec _ d size start (by simp) hstart hfrom hsize,
        by simp [Stmt.StandsInRow]⟩
  · refine (makes_putBack hu).bind fun _ _ => (makes_expression n rfl).bind fun o ho => ?_
    have hvalue := makes_initializer ho (.identifier _ name hname hfrom) rfl hname hk
    exact hvalue.bind fun e he => ⟨.declared .varDec _ d e start (by simp) hstart hfrom he,
      by simp [Stmt.StandsInRow]⟩

theorem makes_structDec {start : Token} (hstart : T start) :
    (structDec n start).Makes (.ofTokens T) (Stmt.MemberFrom T) := by
  refine (makes_nameBeforeColon fun _ => by trivial).bind fun name hname => ?_
  refine makes_read.bind fun u hu => ?_
  refine (makes_expect (fun _ => by trivial) _ hu).bind fun _ _ => ?_
  refine (makes_plainExpression n rfl).bind fun e he => ?_
  have hstmt : Stmt.MemberFrom T { kind := .structDec, name, expr := e, pos := start.pos } :=
    ⟨.structDec name e start hstart hname he, by simp [Stmt.StandsInRow]⟩
  split
  · exact hstmt
  · exact (makes_note hu (by trivial)).bind fun _ _ => hstmt

theorem makes_target {name : Token} (hname : T name) (hk : name.kind = .ident) :
    (target n name).Makes (.ofTokens T) fun e => e.From T ∧ e.IsTarget := by
  have hfrom := isNameFrom_display hname hk
  refine makes_read.bind fun u hu => ?_
  split
  · exact (makes_plainExpression n rfl).bind fun e he =>
      ⟨.access .arrayAcc _ e name (by simp) hname hfrom he, .inr (.inl rfl)⟩
  · refine makes_member.bind fun e he => ?_
    obtain ⟨member, v, hv, hmember, rfl⟩ := he
    exact ⟨.structAcc _ member name v hname hv hfrom hmember, .inr (.inr rfl)⟩
  · exact (makes_putBack hu).bind fun _ _ => ⟨.identifier _ name hname hfrom, .inl rfl⟩

/-- An assignment has its target, and anything else is a call. -/
theorem makes_identifierStatement {name : Token} (hname : T name) (hk : name.kind = .ident) :
    (identifierStatement n name).Makes (.ofTokens T) (Stmt.MemberFrom T) := by
  refine (makes_target hname hk).bind fun target htarget => ?_
  refine (makes_expression n rfl).bind fun o ho => ?_
  cases o with
  | pending p =>
    exact ⟨.exprStmt target p.value name p.token hname ho.2 htarget.1 htarget.2 ho.1,
      by simp [Stmt.StandsInRow]⟩
  | plain e =>
    have hcall : Stmt.MemberFrom T
        { kind := .callStmt, name := name.value.display, expr := e, pos := name.pos } :=
      ⟨.callStmt _ e name hname (isNameFrom_display hname hk) ho, by simp [Stmt.StandsInRow]⟩
    dsimp only
    split
    · exact hcall
    · have hquotes : Problem.Quotes (.elementAssignment name.value.display) name :=
        ⟨rfl, by simp [hk, TokenKind.free]⟩
      exact (makes_note hname hquotes).bind fun _ _ => hcall

theorem makes_keywordStatement {kind : StmtKind} (hkind : kind ∈ [.break_, .continue_])
    (ht : T t) : (keywordStatement kind t).Makes (.ofTokens T) (Stmt.MemberFrom T) := by
  have hstmt : Stmt.MemberFrom T { kind, pos := t.pos } := by
    refine ⟨.keyword kind t hkind ht, ?_⟩
    simp only [List.mem_cons, List.not_mem_nil, or_false] at hkind
    rcases hkind with rfl | rfl <;> simp [Stmt.StandsInRow]
  refine makes_read.bind fun _ hu => ?_
  exact (makes_expect (fun _ => by trivial) _ hu).bind fun _ _ => hstmt

/-! ## Blocks and clauses -/

/-- A row of statements from `T` and the token that ended it. -/
def EndedRowFrom (T : Token → Prop) (r : List Stmt × Token) : Prop := Stmt.RowFrom T r.1 ∧ T r.2

/-- A block from `T` and the token that ended it. -/
def EndedBlockFrom (T : Token → Prop) (r : Stmt × Token) : Prop :=
  (∃ ss, r.1 = .block ss ∧ Stmt.RowFrom T ss) ∧ T r.2

theorem makes_blockOf {loop : Token → Builder (List Stmt × Token)}
    (h : ∀ t, T t → (loop t).Makes (.ofTokens T) (EndedRowFrom T)) :
    (blockOf loop).Makes (.ofTokens T) (EndedBlockFrom T) := by
  refine makes_read.bind fun t ht => (h t ht).bind fun r hr => ?_
  have hblock : EndedBlockFrom T (.block r.1, r.2) := ⟨⟨r.1, rfl, hr.1⟩, hr.2⟩
  dsimp only
  split
  · exact (makes_note hr.2 (by trivial)).bind fun _ _ => hblock
  · exact hblock

section
variable {block : Bool → Builder (Stmt × Token)} {clauses : Bool → Token → Builder (List Stmt)}
  (hb : ∀ chained, (block chained).Makes (.ofTokens T) (EndedBlockFrom T))
  (hc : ∀ closed t, T t → (clauses closed t).Makes (.ofTokens T) (Stmt.ChainFrom T))
include hb hc

theorem makes_conditional (ht : T t) :
    (conditional n block clauses t).Makes (.ofTokens T) (Stmt.MemberFrom T) := by
  refine (makes_plainExpression n rfl).bind fun condition hcondition => (hb _).bind fun r hr => ?_
  obtain ⟨body, last⟩ := r
  obtain ⟨⟨ss, rfl, hss⟩, hlast⟩ := hr
  exact (hc _ _ hlast).bind fun branches hbranches =>
    ⟨.if_ condition ss branches t ht hcondition hss.members hss.row hbranches.members
      hbranches.chain, by simp [Stmt.StandsInRow, clause]⟩

/-- A clause, its body read, in front of the clauses behind it. -/
theorem makes_clauseThen {kind : StmtKind} {condition : Expr} (closed : Bool)
    (hkind : kind ∈ [.elif_, .else_])
    (hclause : ∀ ss, Stmt.RowFrom T ss → (clause kind condition (.block ss) t.pos).From T) :
    (do
      let (body, last) ← block true
      return clause kind condition body t.pos :: (← clauses closed last)).Makes (.ofTokens T)
      (Stmt.ChainFrom T) := by
  refine (hb true).bind fun r hr => ?_
  obtain ⟨body, last⟩ := r
  obtain ⟨⟨ss, rfl, hss⟩, hlast⟩ := hr
  exact (hc closed last hlast).bind fun rest hrest => hrest.cons (hclause ss hss) hkind

theorem makes_statementWith (ht : T t) :
    (statementWith n block clauses t).Makes (.ofTokens T) fun o => Stmt.RowFrom T o.toList := by
  have one {b : Builder Stmt} (h : b.Makes (.ofTokens T) (Stmt.MemberFrom T)) :
      (b >>= fun s => pure (some s)).Makes (.ofTokens T) fun o => Stmt.RowFrom T o.toList :=
    h.bind fun _ hs => hs.row_singleton
  have none : Stmt.RowFrom T (none : Option Stmt).toList := Stmt.rowFrom_nil
  unfold statementWith
  split
  · exact (makes_plainExpression n rfl).bind fun e he =>
      one (b := pure { kind := .return_, expr := e, pos := t.pos })
        ⟨.return_ e t ht he, by simp [Stmt.StandsInRow]⟩
  · exact one (makes_variableDec ht)
  · exact makes_constant.bind fun c hc => (makes_addConst hc).bind fun _ _ => none
  · exact one (makes_structDec ht)
  · next hk => exact one (makes_identifierStatement ht hk)
  · refine (makes_plainExpression n rfl).bind fun condition hcondition => ?_
    refine (hb _).bind fun r hr => ?_
    obtain ⟨body, last⟩ := r
    obtain ⟨⟨ss, rfl, hss⟩, -⟩ := hr
    exact one (b := pure (clause .while_ condition (.block ss) t.pos))
      ⟨.clause .while_ condition ss t (by simp) ht hcondition hss.members hss.row,
        by simp [Stmt.StandsInRow, clause]⟩
  · exact one (makes_conditional hb hc ht)
  · exact one (makes_keywordStatement (by simp) ht)
  · exact one (makes_keywordStatement (by simp) ht)
  · exact (makes_note ht (by trivial)).bind fun _ _ => none

end

/-- Rows of statements and chains of clauses, which hold each other. A clause keyword that is out of
place is quoted. -/
theorem makes_blockLoop_clauses (n : Nat) :
    (∀ chained t, T t → (blockLoop n chained t).Makes (.ofTokens T) (EndedRowFrom T)) ∧
      ∀ closed t, T t → (clauses n closed t).Makes (.ofTokens T) (Stmt.ChainFrom T) := by
  have keyword {t : Token} {k : Keyword} (hk : t.kind = .keyword k) : t.kind ∉ TokenKind.free := by
    simp [hk, TokenKind.free]
  induction n with
  | zero => exact ⟨fun _ _ _ => trivial, fun _ _ _ => trivial⟩
  | succ n ih =>
    obtain ⟨hloop, hclauses⟩ := ih
    have hblock (chained : Bool) :
        (blockOf (blockLoop n chained)).Makes (.ofTokens T) (EndedBlockFrom T) :=
      makes_blockOf (hloop chained)
    refine ⟨fun chained t ht => ?_, fun closed t ht => ?_⟩
    · have hnil : EndedRowFrom T ([], t) := ⟨Stmt.rowFrom_nil, ht⟩
      rw [blockLoop]
      split
      · exact hnil
      split
      · next hk =>
        split
        · exact hnil
        · have hquotes : Problem.Quotes (.strayClause t.value.display) t :=
            ⟨rfl, hk.elim keyword keyword⟩
          exact (makes_note ht hquotes).bind fun _ _ =>
            makes_read.bind fun u hu => hloop chained u hu
      · refine (makes_statementWith hblock hclauses ht).bind fun o ho => ?_
        exact makes_read.bind fun u hu => (hloop chained u hu).bind fun r hr =>
          ⟨ho.append hr.1, hr.2⟩
    · have hquotes {k : Keyword} (hk : t.kind = .keyword k) :
          Problem.Quotes (.clauseAfterElse t.value.display) t := ⟨rfl, keyword hk⟩
      have hthen : (TokenKind.keyword .then_).spelling?.isSome := rfl
      have elif := (makes_plainExpression n hthen).bind fun condition hcondition =>
        makes_clauseThen hblock hclauses closed (by simp) fun ss hss =>
          .clause .elif_ condition ss t (by simp) ht hcondition hss.members hss.row
      have else_ := makes_clauseThen hblock hclauses true (by simp) fun ss hss =>
        .else_ ss t ht hss.members hss.row
      rw [clauses]
      split
      · next hk =>
        split
        · exact (makes_note ht (hquotes hk)).bind fun _ _ => elif
        · exact elif
      split
      · next hk =>
        split
        · exact (makes_note ht (hquotes hk)).bind fun _ _ => else_
        · exact else_
      · exact Stmt.chainFrom_nil

theorem makes_block (n : Nat) (chained : Bool) :
    (block n chained).Makes (.ofTokens T) (EndedBlockFrom T) :=
  makes_blockOf ((makes_blockLoop_clauses n).1 chained)

/-! ## Functions and files -/

theorem makes_returnType (ht : T t) : (returnType t).Makes (.ofTokens T) fun r => T r.2 := by
  unfold returnType
  split
  · exact ht
  · exact makes_dataType.bind fun d _ => makes_read.bind fun u hu => hu

theorem makes_optionalParams (ht : T t) :
    (optionalParams n t).Makes (.ofTokens T) fun r => (∀ a ∈ r.1, a.ParamFrom T) ∧ T r.2 := by
  unfold optionalParams
  split
  · exact ⟨fun _ h => absurd h List.not_mem_nil, ht⟩
  · exact makes_params.bind fun args hargs => makes_read.bind fun u hu => ⟨hargs, hu⟩

theorem makes_function : (function n).Makes (.ofTokens T) (Function.From T) := by
  refine (makes_nameOr (fun _ => by trivial) _).bind fun r hr => ?_
  refine (makes_optionalParams hr.2).bind fun args hargs => ?_
  refine (makes_returnType hargs.2).bind fun d hd => ?_
  refine (makes_expect (fun _ => by trivial) _ hd).bind fun _ _ => ?_
  refine (makes_block n false).collected.bind fun b hb => ?_
  exact ⟨hr.1, hargs.1, hb.2, hb.1.1⟩

theorem makes_fileLoop (ht : T t) : (fileLoop n t).Makes (.ofTokens T) (File.From T) := by
  induction n generalizing t with
  | zero => trivial
  | succ n ih =>
    rw [fileLoop]
    split
    · exact ⟨fun _ h => absurd h List.not_mem_nil, fun _ h => absurd h List.not_mem_nil,
        fun _ h => absurd h List.not_mem_nil, fun _ h => absurd h List.not_mem_nil⟩
    · exact makes_function.bind fun g hg => makes_read.bind fun u hu => (ih hu).bind fun f hf =>
        { hf with functions := List.forall_mem_cons.2 ⟨hg, hf.functions⟩ }
    · exact makes_structDef.bind fun s hs => makes_read.bind fun u hu => (ih hu).bind fun f hf =>
        { hf with structs := List.forall_mem_cons.2 ⟨hs, hf.structs⟩ }
    · exact makes_constant.bind fun c hc => makes_read.bind fun u hu => (ih hu).bind fun f hf =>
        { hf with consts := List.forall_mem_cons.2 ⟨hc, hf.consts⟩ }
    · exact makes_importPath.bind fun p hp => makes_read.bind fun u hu => (ih hu).bind fun f hf =>
        { hf with imports := List.forall_mem_cons.2 ⟨hp, hf.imports⟩ }
    · exact (makes_note ht (by trivial)).bind fun _ _ => makes_read.bind fun u hu => ih hu

/-- **A file** is from the tokens that are read, whatever is reported. -/
theorem makes_file (name : String) (n : Nat) : (file name n).Makes (.ofTokens T) (File.From T) :=
  makes_read.bind fun _ ht => (makes_fileLoop ht).bind fun _ hf => { hf with }

end Parser

/-- **A file is built well formed**, whatever its tokens and whatever is reported. -/
theorem File.wellFormed_of_run {stream : Stream} {strict : Bool} {name : String} {n : Nat}
    {f : File} {s : Session}
    (h : (Parser.file name n).run (.over stream strict) = (.ok f, s)) : f.WellFormed := by
  have hmakes := Parser.makes_file (T := fun _ => True) name n
  exact ((hmakes.run_over fun _ _ => trivial).result f (congrArg Prod.fst h)).wellFormed

end ToyLang
