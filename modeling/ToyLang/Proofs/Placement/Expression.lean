import ToyLang.Proofs.Placement.Builder

/-!
# Positions do not matter to expressions

Every builder of expressions, started on alike tokens, is alike, and so are the expressions it
builds (`alike_expression`).
-/

set_option autoImplicit false

namespace ToyLang.Parser

open Builder

variable {t t' : Token}

/-! ## Operands and piles -/

theorem alike_settle {o o' : Operand} (h : Under Operand.unplaced o o') :
    Alike (Under Expr.unplaced) o.settle o'.settle := by
  have hs : o.unplaced.settled = o'.unplaced.settled := congrArg Operand.settled h
  rw [Operand.settled_unplaced, Operand.settled_unplaced, Prod.mk.injEq] at hs
  obtain ⟨he, ht⟩ := hs
  unfold Operand.settle
  revert he ht
  rcases o.settled with ⟨e, _ | t⟩ <;> rcases o'.settled with ⟨e', _ | t'⟩ <;> intro he ht
  · exact alike_pure he
  · cases ht
  · cases ht
  · exact (alike_note _ (Option.some.inj ht)).bind fun _ _ _ => alike_pure he

theorem alike_notices {ns ns' : List Notice}
    (h : ns.map Notice.unplaced = ns'.map Notice.unplaced) :
    Alike Any (ns.forM fun n => note n.problem n.token)
      (ns'.forM fun n => note n.problem n.token) := by
  induction ns generalizing ns' with
  | nil =>
    cases List.map_eq_nil_iff.1 h.symm
    exact alike_pure trivial
  | cons n ns ih =>
    obtain ⟨n', ns', rfl, hn, hns⟩ := List.map_eq_cons_iff.1 h.symm
    have hp : n'.unplaced.problem = n.unplaced.problem := by rw [hn]
    have ht : n.token.Alike n'.token := (congrArg Notice.token hn).symm
    change n'.problem = n.problem at hp
    show Alike Any (note n.problem n.token >>= _) (note n'.problem n'.token >>= _)
    rw [hp]
    exact (alike_note _ ht).bind fun _ _ _ => ih hns.symm

theorem alike_reduce {w w' : Work} (h : Under Work.unplaced w w') :
    Alike (Under (List.map Operand.unplaced)) w.reduce w'.reduce := by
  have hr : w.reduction.unplaced = w'.reduction.unplaced := by
    rw [← Work.reduction_unplaced, h, Work.reduction_unplaced]
  have hs := congrArg Reduction.stopped hr
  unfold Work.reduce
  refine (alike_notices (congrArg Reduction.notices hr)).bind fun _ _ _ => ?_
  simp only [Reduction.unplaced] at hs
  revert hs
  cases w.reduction.stopped <;> cases w'.reduction.stopped <;> intro hs
  · exact alike_pure (congrArg Work.operands (congrArg Reduction.work hr))
  · cases hs
  · cases hs
  · exact .fault _ _

theorem alike_dropLeftovers {os os' : List Operand}
    (h : Under (List.map Operand.unplaced) os os') (ht : t.Alike t') :
    Alike Any (dropLeftovers os t) (dropLeftovers os' t') := by
  have hl : os.length = os'.length := by simpa using congrArg List.length h
  have he : os.isEmpty = os'.isEmpty := by
    rw [Bool.eq_iff_iff, List.isEmpty_iff_length_eq_zero, List.isEmpty_iff_length_eq_zero, hl]
  unfold dropLeftovers
  rw [he, hl]
  split
  · exact alike_pure trivial
  · exact alike_note _ ht

theorem alike_push {st st' : ExprState} {o o' : Operand} (hst : Under ExprState.unplaced st st')
    (ho : Under Operand.unplaced o o') : Under ExprState.unplaced (st.push o) (st'.push o') := by
  have push (st : ExprState) (o : Operand) :
      (st.push o).unplaced = st.unplaced.push o.unplaced := rfl
  rw [Under, push, push, hst, ho]

theorem alike_pushOperator {st st' : ExprState} (hst : Under ExprState.unplaced st st')
    (ht : t.Alike t') :
    Under ExprState.unplaced (st.pushOperator t) (st'.pushOperator t') := by
  have push (st : ExprState) (t : Token) :
      (st.pushOperator t).unplaced = st.unplaced.pushOperator t.bare := rfl
  rw [Under, push, push, hst, ht]

/-! ## Nodes -/

theorem alike_plain {e e' : Expr} (h : Under Expr.unplaced e e') :
    Under Operand.unplaced (.plain e) (.plain e') := congrArg Operand.plain h

theorem alike_complete {p p' : PendingAssignment} {e e' : Expr}
    (hp : Under Operand.unplaced (.pending p) (.pending p')) (he : Under Expr.unplaced e e') :
    Under Expr.unplaced (p.complete e) (p'.complete e') := by
  have hp : PendingAssignment.mk p.value.unplaced p.token.bare =
    ⟨p'.value.unplaced, p'.token.bare⟩ := Operand.pending.inj hp
  simp only [PendingAssignment.mk.injEq] at hp
  simp only [Under, PendingAssignment.complete, Expr.unplaced_operation, he, hp.1]

theorem alike_literal (kind : ExprKind) (ht : t.Alike t') :
    Under Expr.unplaced (literalExpr kind t) (literalExpr kind t') := by
  simp [Under, literalExpr, Expr.unplaced_mk, ht.value]

theorem alike_bool (b : Bool) : Under Expr.unplaced (boolExpr b t) (boolExpr b t') := by
  simp [Under, boolExpr, Expr.unplaced_mk]

theorem alike_identifierExpr (name : Value) (p p' : Pos) :
    Under Expr.unplaced (.identifier name p) (.identifier name p') := by
  simp [Under]

theorem alike_access (kind : ExprKind) (name : Value) {arg arg' : Expr} (p p' : Pos)
    (h : Under Expr.unplaced arg arg') :
    Under Expr.unplaced (accessExpr kind name arg p) (accessExpr kind name arg' p') := by
  simp [Under, accessExpr, Expr.unplaced_mk, h]

theorem alike_list {items items' : List Expr} (p p' : Pos)
    (h : Under (List.map Expr.unplaced) items items') :
    Under Expr.unplaced { kind := .list, items, pos := p }
      { kind := .list, items := items', pos := p' } := by
  simp [Under, Expr.unplaced_mk, h]

/-! ## Identifiers and steps -/

theorem alike_member : Alike (Under Expr.unplaced) member member := by
  unfold member
  refine alike_read.bind fun t t' ht => ?_
  simp only [ht.kind, ht.value]
  split
  · exact alike_pure (alike_identifierExpr _ _ _)
  · refine (alike_note _ ht).bind fun _ _ _ => ?_
    exact (alike_putBack ht).bind fun _ _ _ => alike_pure (alike_identifierExpr _ _ _)

section
variable {nested nested' : TokenKind → Builder Operand}
  (hn : ∀ stop, Alike (Under Operand.unplaced) (nested stop) (nested' stop))
include hn

theorem alike_identifierSuffix (ht : t.Alike t') :
    Alike (Under Expr.unplaced) (identifierSuffix nested t) (identifierSuffix nested' t') := by
  unfold identifierSuffix
  refine alike_read.bind fun s s' hs => ?_
  simp only [hs.kind, ht.value]
  split
  · refine (hn _).bind fun o o' ho => (alike_settle ho).bind fun e e' he => ?_
    exact alike_pure (alike_access _ _ _ _ he)
  · refine (hn _).bind fun o o' ho => (alike_settle ho).bind fun e e' he => ?_
    exact alike_pure (alike_access _ _ _ _ he)
  · exact alike_member.bind fun e e' he => alike_pure (alike_access _ _ _ _ he)
  · exact (alike_putBack hs).bind fun _ _ _ => alike_pure (alike_identifierExpr _ _ _)

omit hn in
theorem alike_item {os os' : List Operand} {top top' : Operand} {rest rest' : List Operand}
    (hos : Under (List.map Operand.unplaced) os os') (h : os = top :: rest)
    (h' : os' = top' :: rest') :
    Under Operand.unplaced top top' ∧ Under (List.map Operand.unplaced) rest rest' := by
  subst h h'
  exact List.cons.inj hos

omit hn in
theorem alike_getD {o o' : Option (List Expr)}
    (h : o.map (List.map Expr.unplaced) = o'.map (List.map Expr.unplaced)) :
    Under (List.map Expr.unplaced) (o.getD []) (o'.getD []) := by
  cases o <;> cases o' <;> simp_all [Under]

omit hn in
theorem alike_listItem (ht : t.Alike t') {st st' : ExprState}
    (hst : Under ExprState.unplaced st st') :
    Alike (Under ExprState.unplaced) (listItem t st) (listItem t' st') := by
  have hi := alike_getD (congrArg ExprState.items hst)
  unfold listItem
  refine (alike_reduce (congrArg ExprState.work hst)).bind fun os os' hos => ?_
  rcases os with _ | ⟨top, rest⟩ <;> rcases os' with _ | ⟨top', rest'⟩
  · refine (alike_note _ ht).bind fun _ _ _ => alike_pure ?_
    simp only [Under, ExprState.unplaced, Option.map_some, hi]
  · cases hos
  · cases hos
  · obtain ⟨htop, hrest⟩ := alike_item hos rfl rfl
    refine (alike_settle htop).bind fun e e' he => ?_
    refine (alike_dropLeftovers hrest ht).bind fun _ _ _ => alike_pure ?_
    simp only [Under, ExprState.unplaced, Option.map_some, List.map_append, List.map_cons, hi, he]

theorem alike_exprStep (ht : t.Alike t') {st st' : ExprState}
    (hst : Under ExprState.unplaced st st') :
    Alike (Under ExprState.unplaced) (exprStep nested t st) (exprStep nested' t' st') := by
  unfold exprStep
  simp only [ht.kind]
  split
  · exact (hn _).bind fun _ _ ho => alike_pure (alike_push hst ho)
  · exact alike_listItem ht hst
  · exact (alike_identifierSuffix hn ht).bind fun _ _ he =>
      alike_pure (alike_push hst (alike_plain he))
  · exact alike_pure (alike_push hst (alike_plain (alike_literal _ ht)))
  · exact alike_pure (alike_push hst (alike_plain (alike_literal _ ht)))
  · exact alike_pure (alike_push hst (alike_plain (alike_literal _ ht)))
  · exact alike_pure (alike_push hst (alike_plain (alike_bool _)))
  · exact alike_pure (alike_push hst (alike_plain (alike_bool _)))
  · exact alike_pure (alike_pushOperator hst ht)
  · exact (alike_note _ ht).bind fun _ _ _ => alike_pure hst

end

/-! ## The loop -/

theorem alike_exprResult {first first' : Token} (ht : t.Alike t') {st st' : ExprState}
    (hst : Under ExprState.unplaced st st') :
    Alike (Under Operand.unplaced) (exprResult first t st) (exprResult first' t' st') := by
  have hi : st.items.map (List.map Expr.unplaced) = st'.items.map (List.map Expr.unplaced) :=
    congrArg ExprState.items hst
  unfold exprResult
  refine (alike_reduce (congrArg ExprState.work hst)).bind fun os os' hos => ?_
  revert hi
  rcases st.items with _ | items <;> rcases st'.items with _ | items' <;> intro hi
  · rcases os with _ | ⟨top, rest⟩ <;> rcases os' with _ | ⟨top', rest'⟩
    · exact alike_pure (alike_plain (by simp [Under]))
    · cases hos
    · cases hos
    · obtain ⟨htop, hrest⟩ := alike_item hos rfl rfl
      exact (alike_dropLeftovers hrest ht).bind fun _ _ _ => alike_pure htop
  · cases hi
  · cases hi
  · have hi : items.map Expr.unplaced = items'.map Expr.unplaced := Option.some.inj hi
    rcases os with _ | ⟨top, rest⟩ <;> rcases os' with _ | ⟨top', rest'⟩
    · exact alike_pure (alike_plain (alike_list _ _ hi))
    · cases hos
    · cases hos
    · obtain ⟨htop, hrest⟩ := alike_item hos rfl rfl
      refine (alike_settle htop).bind fun e e' he => ?_
      refine (alike_dropLeftovers hrest ht).bind fun _ _ _ => ?_
      exact alike_pure (alike_plain (alike_list _ _ (by simp [Under, hi, he])))

theorem alike_exprEnd (stop : TokenKind) {first first' : Token} (ht : t.Alike t')
    {st st' : ExprState} (hst : Under ExprState.unplaced st st') :
    Alike (Under Operand.unplaced) (exprEnd stop first t st) (exprEnd stop first' t' st') := by
  rw [exprEnd_eq, exprEnd_eq, ht.kind]
  split
  · exact (alike_note _ ht).bind fun _ _ _ => alike_exprResult ht hst
  · exact alike_exprResult ht hst

theorem alike_expressionLoop (n : Nat) (stop : TokenKind) {first first' : Token}
    (ht : t.Alike t') {st st' : ExprState} (hst : Under ExprState.unplaced st st') :
    Alike (Under Operand.unplaced) (expressionLoop n stop first t st)
      (expressionLoop n stop first' t' st') := by
  induction n generalizing stop first first' t t' st st' with
  | zero => exact .fault _ _
  | succ n ih =>
    rw [expressionLoop, expressionLoop, ht.kind]
    split
    · exact alike_exprEnd stop ht hst
    · refine (alike_exprStep (fun stop => ?_) ht hst).bind fun st st' hst => ?_
      · exact alike_read.bind fun s s' hs => ih stop hs rfl
      · exact alike_read.bind fun s s' hs => ih stop hs hst

theorem alike_expression (n : Nat) (stop : TokenKind) :
    Alike (Under Operand.unplaced) (expression n stop) (expression n stop) :=
  alike_read.bind fun _ _ ht => alike_expressionLoop n stop ht rfl

theorem alike_plainExpression (n : Nat) (stop : TokenKind) :
    Alike (Under Expr.unplaced) (plainExpression n stop) (plainExpression n stop) :=
  (alike_expression n stop).bind fun _ _ ho => alike_settle ho

end ToyLang.Parser
