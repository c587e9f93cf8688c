import ToyLang.Proofs.Hole.Declaration

/-!
# Missing operands in statements

A statement that starts with a name goes on with an expression directly behind it, so that an empty
pair of parentheses there is a group though it stands behind a name (`Source.NamedGap`). All other
expressions of statements stand behind tokens that are no names. Blocks and chains of clauses hand
on the token that ended them, which is the last one that has been read.
-/

set_option autoImplicit false

namespace ToyLang

open Builder

namespace Stmt

variable {src : Source} {s : Stmt}

/-- The expression of the statement misses empty groups only, and a pair directly behind the name
that the statement starts with. -/
def Explained (src : Source) (s : Stmt) : Prop :=
  s.expr.Filled fun q => src.Gap q ∨ src.NamedGap s.pos q

/-- The statement and all statements inside are explained. -/
def AllExplained (src : Source) (s : Stmt) : Prop := ∀ n ∈ s.nodes, n.Explained src

theorem explained_of_filled (h : s.expr.Filled src.Gap) : s.Explained src := h.mono fun _ => .inl

theorem allExplained_leaf (h : s.Explained src) (hs : s.statements = []) (hb : s.branches = []) :
    s.AllExplained src := forall_nodes_leaf h hs hb

theorem allExplained_block {ss : List Stmt} (h : ∀ s ∈ ss, s.AllExplained src) :
    (block ss).AllExplained src :=
  forall_nodes (explained_of_filled (Expr.filled_leaf .none .absent ⟨0, 0⟩)) h
    fun _ hb => absurd hb List.not_mem_nil

/-- A clause or a loop with its condition, its body and the clauses behind it. -/
theorem allExplained_clause {kind : StmtKind} {condition : Expr} {body : Stmt} {pos : Pos}
    {branches : List Stmt} (hcondition : condition.Filled src.Gap) (hbody : body.AllExplained src)
    (hbranches : ∀ b ∈ branches, b.AllExplained src) :
    ({ Parser.clause kind condition body pos with branches } : Stmt).AllExplained src :=
  forall_nodes (explained_of_filled hcondition) (List.forall_mem_singleton.2 hbody) hbranches

end Stmt

namespace Parser

variable {src : Source} {before : List Token} {n : Nat} {t : Token}

/-! ## Declarations in a block -/

theorem leads_variableDec {start : Token} :
    (variableDec n start).Leads src (fun s _ => s.AllExplained src) before := by
  refine leads_read.bind fun name _ _ => ?_
  split
  · exact leads_report
  refine leads_read.bind fun colon _ _ => ?_
  split
  · exact leads_report
  refine leads_dataType.bind fun d _ hd => leads_read.bind fun t _ ht => ?_
  obtain ⟨u, rfl, hu⟩ := hd
  subst ht
  split
  · next hk =>
    refine (leads_plainExpression isStop_rbracket (by simp [hk])).bind fun size _ hsize => ?_
    refine leads_read.bind fun v _ _ => ?_
    split
    · exact leads_report
    · exact leads_pure (Stmt.allExplained_leaf (Stmt.explained_of_filled hsize.1) rfl rfl)
  · refine leads_putBack.bind fun _ _ hback => ?_
    subst hback
    refine (leads_expression isStop_semicolon hu).bind fun o _ ho => ?_
    have htarget : (Expr.identifier (.text name.value.display) name.pos).Fits src.Gap :=
      Expr.fits_leaf .identifier _ _ (by simp)
    refine (leads_initializer ho.1 htarget).bind fun e _ he => ?_
    exact leads_pure (Stmt.allExplained_leaf (Stmt.explained_of_filled he) rfl rfl)

theorem leads_structDec {start : Token} :
    (structDec n start).Leads src (fun s _ => s.AllExplained src) before := by
  refine (leads_nameBeforeColon _).bind fun name _ _ => leads_read.bind fun t _ ht => ?_
  refine (leads_expect _ _).bind fun _ _ h => ?_
  obtain ⟨hk, rfl⟩ := h
  subst ht
  refine (leads_plainExpression isStop_semicolon (by simp [hk])).bind fun e _ he => ?_
  split
  · exact leads_pure (Stmt.allExplained_leaf (Stmt.explained_of_filled he.1) rfl rfl)
  · exact leads_report

/-! ## Assignments and calls -/

theorem leads_member :
    member.Leads src (fun e before' => e.Filled src.Gap ∧ ∃ m, before' = before ++ [m]) before := by
  refine leads_read.bind fun t _ ht => ?_
  split
  · exact leads_pure ⟨Expr.filled_leaf .identifier _ _, t, ht⟩
  · exact leads_report

/-- Behind what a statement starts with, an empty pair of parentheses stands behind the name, or it
is a group. -/
theorem leads_target {name : Token} (hname : name.kind = .ident) :
    (target n name).Leads src (fun e before' => e.Fits src.Gap ∧
      Opens src.tokens (fun q => src.Gap q ∨ src.NamedGap name.pos q) before')
      (before ++ [name]) := by
  unfold target
  refine leads_read.bind fun t _ ht => ?_
  subst ht
  split
  · next hk =>
    refine (leads_plainExpression isStop_rbracket (by simp [hk])).bind fun e _ he => ?_
    obtain ⟨hfilled, b, u, rfl, hu⟩ := he
    refine leads_pure ⟨Expr.fits_access (.inr (.inl rfl)) hfilled, fun q hq => .inl ?_⟩
    exact ⟨_, not_endsInName_of_kind (by simp [hu]), hq⟩
  · next hk =>
    refine leads_member.bind fun e _ he => ?_
    obtain ⟨hfilled, m, rfl⟩ := he
    refine leads_pure ⟨Expr.fits_access (.inr (.inr rfl)) hfilled, fun q hq => .inl ?_⟩
    rw [List.append_assoc] at hq
    exact ⟨_, not_endsInName_of_member hk, hq⟩
  · refine leads_putBack.bind fun _ _ hback => ?_
    subst hback
    refine leads_pure ⟨Expr.fits_leaf .identifier _ _ (by simp), fun q hq => .inr ?_⟩
    exact ⟨before, name, hname, rfl, hq⟩

theorem leads_identifierStatement {name : Token} (hname : name.kind = .ident) :
    (identifierStatement n name).Leads src (fun s _ => s.AllExplained src) (before ++ [name]) := by
  refine (leads_target hname).bind fun e before' he => ?_
  obtain ⟨htarget, hopens⟩ := he
  refine (leads_expression_of isStop_semicolon (fun q hq => .inl hq) hopens).bind
    fun o _ ho => ?_
  cases o with
  | pending p =>
    have hcomplete := p.filled_complete ho.1 ⟨fun h => .inl (htarget.none h),
      htarget.filled.mono fun _ => .inl⟩
    exact leads_pure (Stmt.allExplained_leaf hcomplete rfl rfl)
  | plain e =>
    dsimp only
    split
    · exact leads_pure (Stmt.allExplained_leaf ho.1 rfl rfl)
    · exact leads_report

/-! ## Blocks and control flow -/

theorem leads_keywordStatement (kind : StmtKind) (t : Token) :
    (keywordStatement kind t).Leads src (fun s _ => s.AllExplained src) before := by
  refine leads_read.bind fun u _ _ => (leads_expect _ _).bind fun _ _ _ => ?_
  refine leads_pure (Stmt.allExplained_leaf (Stmt.explained_of_filled ?_) rfl rfl)
  exact Expr.filled_leaf .none .absent ⟨0, 0⟩

theorem leads_blockOf {loop : Token → Builder (List Stmt × Token)}
    (h : ∀ b t, (loop t).Leads src (fun r before' => (∀ s ∈ r.1, s.AllExplained src) ∧
      ∃ b', before' = b' ++ [r.2]) (b ++ [t])) :
    (blockOf loop).Leads src (fun r before' => r.1.AllExplained src ∧
      ∃ b', before' = b' ++ [r.2]) before := by
  refine leads_read.bind fun t _ ht => ?_
  subst ht
  refine (h before t).bind fun r before' hr => ?_
  dsimp only
  split
  · exact leads_report
  · exact leads_pure ⟨Stmt.allExplained_block hr.1, hr.2⟩

section
variable {block : Bool → Builder (Stmt × Token)} {clauses : Bool → Token → Builder (List Stmt)}
  (hb : ∀ chained b, (block chained).Leads src (fun r before' => r.1.AllExplained src ∧
    ∃ b', before' = b' ++ [r.2]) b)
  (hc : ∀ closed b t,
    (clauses closed t).Leads src (fun bs _ => ∀ s ∈ bs, s.AllExplained src) (b ++ [t]))
include hb hc

theorem leads_conditional (ht : t.kind ≠ .ident) :
    (conditional n block clauses t).Leads src (fun s _ => s.AllExplained src) (before ++ [t]) := by
  refine (leads_plainExpression isStop_then ht).bind fun condition _ hcondition => ?_
  refine (hb true _).bind fun r _ hr => ?_
  obtain ⟨hbody, b, rfl⟩ := hr
  refine (hc false b r.2).bind fun bs _ hbs => leads_pure ?_
  exact Stmt.allExplained_clause hcondition.1 hbody hbs

theorem leads_statementWith :
    (statementWith n block clauses t).Leads src (fun o _ => ∀ s ∈ o.toList, s.AllExplained src)
      (before ++ [t]) := by
  have one {b : Builder Stmt} {before : List Token}
      (h : b.Leads src (fun s _ => s.AllExplained src) before) :
      (b >>= fun s => pure (some s)).Leads src (fun o _ => ∀ s ∈ o.toList, s.AllExplained src)
        before :=
    h.bind fun s _ hs => leads_pure (List.forall_mem_singleton.2 hs)
  unfold statementWith
  split
  · next hk =>
    refine (leads_plainExpression isStop_semicolon (by simp [hk])).bind fun e _ he => ?_
    refine leads_pure (List.forall_mem_singleton.2 ?_)
    exact Stmt.allExplained_leaf (Stmt.explained_of_filled he.1) rfl rfl
  · exact one leads_variableDec
  · refine leads_constant.bind fun c _ hconst => (leads_addConst hconst).bind fun _ _ _ => ?_
    exact leads_pure fun _ hs => absurd hs List.not_mem_nil
  · exact one leads_structDec
  · next hk => exact one (leads_identifierStatement hk)
  · next hk =>
    refine (leads_plainExpression isStop_do (by simp [hk])).bind
      fun condition _ hcondition => (hb false _).bind fun r _ hr => ?_
    refine leads_pure (List.forall_mem_singleton.2 ?_)
    exact Stmt.allExplained_clause hcondition.1 hr.1 fun _ hb => absurd hb List.not_mem_nil
  · next hk => exact one (leads_conditional hb hc (by simp [hk]))
  · exact one (leads_keywordStatement _ t)
  · exact one (leads_keywordStatement _ t)
  · exact leads_report

end

theorem leads_block_and_clauses (n : Nat) :
    (∀ chained before t, (blockLoop n chained t).Leads src (fun r before' =>
      (∀ s ∈ r.1, s.AllExplained src) ∧ ∃ b', before' = b' ++ [r.2]) (before ++ [t])) ∧
    ∀ closed before t, (clauses n closed t).Leads src (fun bs _ => ∀ s ∈ bs, s.AllExplained src)
      (before ++ [t]) := by
  induction n with
  | zero => exact ⟨fun _ _ _ => leads_fault, fun _ _ _ => leads_fault⟩
  | succ n ih =>
    obtain ⟨hloop, hclauses⟩ := ih
    have hblock (chained : Bool) (b : List Token) :
        (blockOf (blockLoop n chained)).Leads src (fun r before' => r.1.AllExplained src ∧
          ∃ b', before' = b' ++ [r.2]) b := leads_blockOf fun b t => hloop chained b t
    constructor
    · intro chained before t
      rw [blockLoop]
      split
      · exact leads_pure ⟨fun _ hs => absurd hs List.not_mem_nil, before, rfl⟩
      split
      · split
        · exact leads_pure ⟨fun _ hs => absurd hs List.not_mem_nil, before, rfl⟩
        · exact leads_report
      refine (leads_statementWith hblock hclauses).bind fun o _ ho => ?_
      refine leads_read.bind fun u _ hu => ?_
      subst hu
      refine (hloop chained _ u).bind fun r _ hr => leads_pure ⟨fun s hs => ?_, hr.2⟩
      exact (List.mem_append.1 hs).elim (ho s) (hr.1 s)
    · intro closed before t
      rw [clauses]
      split
      · next hk =>
        cases closed with
        | true => exact leads_report
        | false =>
          refine (leads_plainExpression isStop_then (by simp [hk])).bind
            fun condition _ hcondition => (hblock true _).bind fun r _ hr => ?_
          obtain ⟨hbody, b, rfl⟩ := hr
          refine (hclauses false b r.2).bind fun bs _ hbs => leads_pure ?_
          refine List.forall_mem_cons.2 ⟨?_, hbs⟩
          exact Stmt.allExplained_clause hcondition.1 hbody fun _ hb => absurd hb List.not_mem_nil
      split
      · cases closed with
        | true => exact leads_report
        | false =>
          refine (hblock true _).bind fun r _ hr => ?_
          obtain ⟨hbody, b, rfl⟩ := hr
          refine (hclauses true b r.2).bind fun bs _ hbs => leads_pure ?_
          refine List.forall_mem_cons.2 ⟨?_, hbs⟩
          exact Stmt.allExplained_clause (Expr.filled_leaf .none .absent ⟨0, 0⟩) hbody
            fun _ hb => absurd hb List.not_mem_nil
      · exact leads_pure fun _ hs => absurd hs List.not_mem_nil

theorem leads_block (n : Nat) (chained : Bool) :
    (block n chained).Leads src (fun r _ => r.1.AllExplained src) before :=
  (leads_blockOf fun b t => (leads_block_and_clauses n).1 chained b t).mono fun _ _ hr => hr.1

end Parser

end ToyLang
