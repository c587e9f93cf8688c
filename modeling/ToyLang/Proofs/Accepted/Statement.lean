import ToyLang.Proofs.Accepted.Declaration

/-!
# Statements built without a report are regular

The builders of declarations, assignments and calls, then those of blocks and chains of clauses,
which hold each other (`only_block_and_clauses`, by induction on the bound they share). Behind a
clause without condition a chain has come to its end, or there is a report: that is what
`ClausesFrom` says of a closed chain.
-/

set_option autoImplicit false

namespace ToyLang

open Builder

theorem Expr.Regular.eq_identifier {e : Expr} (h : e.Regular False) (hk : e.kind = .identifier) :
    ∃ s pos, e = .identifier (.text s) pos ∧ IsName s := by
  cases h with
  | identifier s pos hs => exact ⟨s, pos, rfl, hs⟩
  | _ => cases hk

namespace Parser

variable {t : Token} {n : Nat}

/-! ## Declarations in a block -/

theorem only_variableDec (start : Token) : (variableDec n start).Only (Stmt.Regular False) := by
  refine only_read.bind fun name hname => ?_
  split
  · trivial
  next hk =>
  obtain ⟨s, hs, hs'⟩ := hname.name (by simpa using hk)
  refine only_read.bind fun colon _ => ?_
  split
  · trivial
  refine only_dataType.bind fun d hd => only_read.bind fun t ht => ?_
  obtain ⟨scalar, rfl⟩ := hd
  rw [hs]
  split
  · refine (only_plainExpression n _).bind fun size hsize => only_read.bind fun u _ => ?_
    split
    · trivial
    · exact .arrayDec s scalar size start.pos hs' hsize
  · refine (only_putBack ht).bind fun _ _ => (only_expression n _).bind fun o ho => ?_
    refine (only_initializer ho s name.pos name).bind fun e he => ?_
    exact .varDec s scalar e start.pos hs' he

theorem only_structDec (start : Token) : (structDec n start).Only (Stmt.Regular False) := by
  refine (only_nameBeforeColon _).bind fun name hname => only_read.bind fun t _ => ?_
  refine (only_expect _ _ _).bind fun _ _ => (only_plainExpression n _).bind fun e he => ?_
  split
  · next hk =>
    obtain ⟨type, tpos, rfl, htype⟩ := he.eq_identifier hk
    exact .structDec name type start.pos tpos hname htype
  · trivial

/-! ## Assignments and calls -/

theorem only_target (ht : t.Lexed) (hk : t.kind = .ident) :
    (target n t).Only fun e => e.Regular False ∧ e.IsTarget := by
  obtain ⟨s, hs, hname⟩ := ht.name hk
  unfold target
  rw [hs]
  refine only_read.bind fun u hu => ?_
  split
  · refine (only_plainExpression n _).bind fun arg harg => ?_
    exact ⟨.arrayAcc s arg t.pos hname harg, .inr (.inl rfl)⟩
  · refine only_member.bind fun e he => ?_
    obtain ⟨m, mpos, rfl, hm⟩ := he
    exact ⟨.structAcc s m t.pos mpos hname hm, .inr (.inr rfl)⟩
  · exact (only_putBack hu).bind fun _ _ => ⟨.identifier s t.pos hname, .inl rfl⟩

theorem only_identifierStatement (ht : t.Lexed) (hk : t.kind = .ident) :
    (identifierStatement n t).Only (Stmt.Regular False) := by
  obtain ⟨s, hs, hname⟩ := ht.name hk
  refine (only_target ht hk).bind fun e he => (only_expression n _).bind fun o ho => ?_
  cases o with
  | pending p => exact .exprStmt e p.value t.pos p.token.pos he.2 he.1 ⟨ho, False.elim⟩
  | plain arg =>
    dsimp only
    split
    · rw [hs]
      exact .callStmt s arg t.pos hname ho
    · trivial

/-! ## Blocks and control flow -/

/-- A block of regular statements. -/
def IsBlock (b : Stmt) : Prop := ∃ ss, b = .block ss ∧ ∀ s ∈ ss, s.Regular False

/-- The clauses of a chain, none of them if the chain is closed. -/
structure ClausesFrom (closed : Bool) (bs : List Stmt) : Prop where
  chain : Stmt.IsChain bs
  conditions : ∀ b ∈ bs, b.expr.Regular False
  bodies : ∀ b ∈ bs, ∀ s ∈ b.inner, s.Regular False
  nil : closed = true → bs = []

theorem clausesFrom_nil (closed : Bool) : ClausesFrom closed [] :=
  ⟨.nil, fun _ h => absurd h List.not_mem_nil, fun _ h => absurd h List.not_mem_nil, fun _ => rfl⟩

/-- One more clause before others; behind one without condition there are none. -/
theorem ClausesFrom.cons {bs ss : List Stmt} {kind : StmtKind} {condition : Expr} {pos : Pos}
    (hss : ∀ s ∈ ss, s.Regular False) (hcondition : condition.Regular False)
    (hbs : ClausesFrom (kind = .else_) bs)
    (hkind : kind = .elif_ ∨ kind = .else_ ∧ condition = .none) :
    ClausesFrom false (clause kind condition (.block ss) pos :: bs) where
  chain := by
    rcases hkind with rfl | ⟨rfl, rfl⟩
    · exact .elif condition ss pos _ bs hbs.chain
    · rw [hbs.nil rfl]
      exact .else_ ss _ pos _
  conditions := List.forall_mem_cons.2 ⟨hcondition, hbs.conditions⟩
  bodies := by
    refine List.forall_mem_cons.2 ⟨fun s hs => hss s ?_, hbs.bodies⟩
    rwa [← Stmt.inner_body kind condition ss pos ⟨0, 0⟩]
  nil := fun h => by cases h

theorem only_keywordStatement (kind : StmtKind) (t : Token) :
    (keywordStatement kind t).Only (· = { kind, pos := t.pos }) :=
  only_read.bind fun _ _ => (only_expect _ _ _).bind fun _ _ => rfl

theorem only_blockOf {loop : Token → Builder (List Stmt × Token)}
    (h : ∀ t, t.Lexed → (loop t).Only fun r => ∀ s ∈ r.1, s.Regular False) :
    (blockOf loop).Only fun r => IsBlock r.1 := by
  refine only_read.bind fun t ht => (h t ht).bind fun r hr => ?_
  dsimp only
  split
  · trivial
  · exact ⟨r.1, rfl, hr⟩

section
variable {block : Bool → Builder (Stmt × Token)} {clauses : Bool → Token → Builder (List Stmt)}
  (hb : ∀ chained, (block chained).Only fun r => IsBlock r.1)
  (hc : ∀ closed t, (clauses closed t).Only (ClausesFrom closed))
include hb hc

theorem only_conditional (t : Token) :
    (conditional n block clauses t).Only (Stmt.Regular False) := by
  refine (only_plainExpression n _).bind fun condition hcondition => (hb true).bind fun r hr => ?_
  refine (hc false r.2).bind fun bs hbs => ?_
  obtain ⟨ss, hss, hregular⟩ := hr
  rw [hss]
  exact .if_ condition ss bs t.pos _ hcondition hregular hbs.chain hbs.conditions hbs.bodies

theorem only_statementWith (ht : t.Lexed) :
    (statementWith n block clauses t).Only fun o => ∀ s ∈ o.toList, s.Regular False := by
  have one {b : Builder Stmt} (h : b.Only (Stmt.Regular False)) :
      (b >>= fun s => pure (some s)).Only fun o => ∀ s ∈ o.toList, s.Regular False :=
    h.bind fun s hs => List.forall_mem_singleton.2 hs
  unfold statementWith
  split
  · exact (only_plainExpression n _).bind fun e he =>
      List.forall_mem_singleton.2 (.return_ e t.pos he)
  · exact one (only_variableDec t)
  · refine only_constant.bind fun c hconst => (only_addConst hconst).bind fun _ _ => ?_
    exact fun _ hs => absurd hs List.not_mem_nil
  · exact one (only_structDec t)
  · next hk => exact one (only_identifierStatement ht hk)
  · refine (only_plainExpression n _).bind fun condition hcondition => ?_
    refine (hb false).bind fun r hr => ?_
    obtain ⟨ss, hss, hregular⟩ := hr
    dsimp only
    rw [hss]
    exact List.forall_mem_singleton.2 (.while_ condition ss t.pos _ hcondition hregular)
  · exact one (only_conditional hb hc t)
  · exact one ((only_keywordStatement _ t).mono fun s hs => hs ▸ .break_ _ t.pos)
  · exact one ((only_keywordStatement _ t).mono fun s hs => hs ▸ .continue_ _ t.pos)
  · trivial

end

theorem only_block_and_clauses (n : Nat) :
    (∀ chained t, t.Lexed → (blockLoop n chained t).Only fun r => ∀ s ∈ r.1, s.Regular False) ∧
      ∀ closed t, (clauses n closed t).Only (ClausesFrom closed) := by
  induction n with
  | zero => exact ⟨fun _ _ _ => trivial, fun _ _ => trivial⟩
  | succ n ih =>
    obtain ⟨hloop, hclauses⟩ := ih
    have hblock (chained : Bool) : (blockOf (blockLoop n chained)).Only fun r => IsBlock r.1 :=
      only_blockOf (hloop chained)
    constructor
    · intro chained t ht
      rw [blockLoop]
      split
      · exact fun _ hs => absurd hs List.not_mem_nil
      split
      · split
        · exact fun _ hs => absurd hs List.not_mem_nil
        · trivial
      refine (only_statementWith hblock hclauses ht).bind fun o ho => ?_
      refine only_read.bind fun u hu => (hloop chained u hu).bind fun r hr => ?_
      exact fun s hs => (List.mem_append.1 hs).elim (ho s) (hr s)
    · intro closed t
      rw [clauses]
      split
      · cases closed with
        | true => trivial
        | false =>
          refine (only_plainExpression n _).bind fun condition hcondition => ?_
          refine (hblock true).bind fun r hr => (hclauses false r.2).bind fun bs hbs => ?_
          obtain ⟨ss, hss, hregular⟩ := hr
          rw [hss]
          exact .cons hregular hcondition hbs (.inl rfl)
      split
      · cases closed with
        | true => trivial
        | false =>
          refine (hblock true).bind fun r hr => (hclauses true r.2).bind fun bs hbs => ?_
          obtain ⟨ss, hss, hregular⟩ := hr
          rw [hss]
          exact .cons hregular (.none _) hbs (.inr ⟨rfl, rfl⟩)
      · exact clausesFrom_nil closed

theorem only_block (n : Nat) (chained : Bool) : (block n chained).Only fun r => IsBlock r.1 :=
  only_blockOf ((only_block_and_clauses n).1 chained)

end Parser

end ToyLang
