import ToyLang.Proofs.Accept.Expression
import ToyLang.Proofs.Balance.Builder

/-!
# Expressions keep the weight of their tokens

Operands, operators and items weigh what was read for them. A reduction that notices nothing moves
weight from the piles into nodes (`tokens_reduceOver`), and an operand that is dropped is reported,
so that an expression that is read without a report weighs as much as its tokens
(`carries_expression`). Where there are items there is at least one.
-/

set_option autoImplicit false

namespace ToyLang

open Builder

namespace Weighing

variable (w : Weighing)

/-- The weight of an operand. -/
def operand : Operand → Nat
  | .plain e => w.expr e
  | .pending p => w.operator .assign + w.expr p.value

/-- The weight of a pile of operands. -/
def operands (os : List Operand) : Nat := (os.map w.operand).sum

@[simp] theorem operands_nil : w.operands [] = 0 := rfl

@[simp] theorem operands_cons (o : Operand) (os : List Operand) :
    w.operands (o :: os) = w.operand o + w.operands os := by simp [operands]

/-- The weight of the piles and the items. -/
def state (st : ExprState) : Nat :=
  w.operands st.work.operands + w.tokens st.work.operators + w.exprs (st.items.getD [])

@[simp] theorem state_empty : w.state {} = 0 := rfl

@[simp] theorem state_push (st : ExprState) (o : Operand) :
    w.state (st.push o) = w.state st + w.operand o := by
  simp only [state, ExprState.push, operands_cons]
  omega

@[simp] theorem state_pushOperator (st : ExprState) (t : Token) :
    w.state (st.pushOperator t) = w.state st + w.token t := by
  simp only [state, ExprState.pushOperator, tokens_cons]
  omega

@[simp] theorem state_items (items : List Expr) :
    w.state { items := some items } = w.exprs items := by simp [state]

theorem expr_complete (p : PendingAssignment) (target : Expr) :
    w.expr (p.complete target) = w.operator .assign + (w.expr target + w.expr p.value) :=
  w.expr_operation ..

theorem token_of_operator {t : Token} {o : Operator} (h : t.kind.operator? = some o) :
    w.token t = w.operator o :=
  token_of_kind (TokenKind.operator?_eq_some_iff.1 h) (by simp)

end Weighing

variable {w : Weighing} {declaring : Prop} {i : Nat}

/-! ## Operands and piles -/

theorem Operand.carries_settle (o : Operand) :
    Carries w declaring (i + w.operand o) (fun _ => True) (fun e => i + w.expr e) o.settle := by
  cases o with
  | plain e => exact carries_pure trivial rfl
  | pending p => exact carries_report _ _ _

namespace Work

variable {op : Token} {ops : List Token} {os : List Operand}

/-- An operand that is taken without a notice is an expression from the pile. -/
theorem operands_take (hquiet : (take op ops os).2.2 = []) :
    w.operands os = w.expr (take op ops os).1 + w.operands (take op ops os).2.1 := by
  cases os with
  | nil => cases hquiet
  | cons o os =>
    cases o with
    | plain e => exact w.operands_cons _ _
    | pending p => cases hquiet

/-- An operator that is reduced without a notice becomes a node. -/
theorem operands_apply {o : Operator} (hquiet : (apply op o ops os).2 = []) :
    w.operands (apply op o ops os).1 = w.operator o + w.operands os := by
  unfold apply at hquiet ⊢
  by_cases ho : o = .assign
  · simp only [if_pos ho] at hquiet ⊢
    rw [operands_take hquiet, Weighing.operands_cons, Weighing.operand, ho, Nat.add_assoc]
  · simp only [if_neg ho, List.append_eq_nil_iff] at hquiet ⊢
    have hright := operands_take (w := w) hquiet.1
    have hleft := operands_take (w := w) hquiet.2
    rw [Weighing.operands_cons, Weighing.operand, Weighing.expr_operation]
    omega

/-- **A reduction without a notice keeps the weight of both piles.** -/
theorem tokens_reduceOver (hquiet : (reduceOver ops os).notices = [])
    (hstopped : (reduceOver ops os).stopped = none) :
    w.operands (reduceOver ops os).work.operands = w.operands os + w.tokens ops := by
  induction ops generalizing os with
  | nil => rfl
  | cons op ops ih =>
    simp only [reduceOver] at hquiet hstopped ⊢
    cases ho : op.kind.operator? with
    | none =>
      rw [ho] at hstopped
      cases hstopped
    | some o =>
      simp only [ho, List.append_eq_nil_iff] at hquiet hstopped ⊢
      have hnode := operands_apply (w := w) hquiet.1
      have htoken := w.token_of_operator ho
      rw [ih hquiet.2 hstopped, Weighing.tokens_cons]
      omega

theorem carries_reduce (work : Work) :
    Carries w declaring (i + (w.operands work.operands + w.tokens work.operators)) (fun _ => True)
      (fun os => i + w.operands os) work.reduce := by
  unfold reduce reduction
  have hkept := @tokens_reduceOver w work.operators work.operands
  revert hkept
  obtain ⟨notices, work', stopped⟩ := reduceOver work.operators work.operands
  intro hkept
  rcases notices with _ | ⟨n, ns⟩
  · cases stopped with
    | none => exact carries_pure trivial (congrArg (i + ·) (hkept rfl rfl).symm)
    | some t => exact carries_fault _
  · exact carries_report _ _ _

end Work

namespace Parser

variable {t : Token} {n : Nat}

/-! ## Items -/

/-- Where there are items there is at least one. -/
def HasItems (st : ExprState) : Prop := st.items ≠ some []

theorem carries_dropLeftovers (os : List Operand) (t : Token) :
    Carries w declaring (i + w.operands os) (fun _ => True) (fun _ => i) (dropLeftovers os t) := by
  unfold dropLeftovers
  cases os with
  | nil => exact carries_pure trivial rfl
  | cons o os => exact carries_report _ _ _

theorem carries_listItem (t : Token) (st : ExprState) :
    Carries w declaring (i + w.state st) HasItems (fun st' => i + w.state st') (listItem t st) := by
  have hstate : i + w.state st = i + w.exprs (st.items.getD []) +
      (w.operands st.work.operands + w.tokens st.work.operators) := by
    unfold Weighing.state
    omega
  rw [hstate]
  refine (Work.carries_reduce _).bind fun os _ => ?_
  cases os with
  | nil => exact carries_report _ _ _
  | cons top rest =>
    rw [Weighing.operands_cons, Nat.add_comm (w.operand top), ← Nat.add_assoc]
    refine (Operand.carries_settle top).bind fun item _ => ?_
    rw [Nat.add_right_comm]
    refine (carries_dropLeftovers rest t).bind fun _ _ => carries_pure ?_ ?_
    · simp [HasItems]
    · simp [Nat.add_assoc]

/-! ## Identifiers -/

/-- A member weighs nothing. -/
theorem carries_member : Carries w declaring i (fun e => w.expr e = 0) (fun _ => i) member := by
  refine carries_read.bind fun t _ => ?_
  split
  · next hk =>
    have ht : w.token t = 0 := Weighing.token_of_kind hk (by simp)
    exact carries_pure (by simp) (by omega)
  · exact carries_report _ _ _

/-- The nested builders keep the weight of what they read up to a stop token. -/
def CarriesNested (w : Weighing) (declaring : Prop) (nested : TokenKind → Builder Operand) : Prop :=
  ∀ stop, IsStop stop →
    Carries w declaring 0 (fun _ => True) (fun o => w.kind stop + w.operand o) (nested stop)

section
variable {nested : TokenKind → Builder Operand} (hn : CarriesNested w declaring nested)
include hn

/-- An argument in parentheses or brackets. -/
theorem carries_argument {stop : TokenKind} (hstop : stop ∈ [.punct .rparen, .punct .rbracket])
    {kind : ExprKind} (hkind : kind ∈ [.call, .arrayAcc, .structAcc]) (name : Value) (pos : Pos) :
    Carries w declaring i (fun _ => True) (fun e => i + w.expr e) (do
      let arg ← (← nested stop).settle
      return accessExpr kind name arg pos) := by
  have hstop' : IsStop stop ∧ w.kind stop = 0 := by
    simp only [List.mem_cons, List.not_mem_nil, or_false] at hstop
    rcases hstop with rfl | rfl <;> simp [IsStop, Weighing.kind]
  refine ((hn stop hstop'.1).after i).bind fun o _ => ?_
  rw [hstop'.2, Nat.zero_add]
  refine (Operand.carries_settle o).bind fun arg _ => carries_pure trivial ?_
  rw [Weighing.expr_access w name arg pos hkind]

theorem carries_identifierSuffix (name : Token) :
    Carries w declaring i (fun _ => True) (fun e => i + w.expr e)
      (identifierSuffix nested name) := by
  unfold identifierSuffix
  refine carries_read.bind fun t _ => ?_
  split
  · next hk =>
    rw [Weighing.token_of_kind hk (by simp)]
    exact carries_argument hn (by simp) (by simp) _ _
  · next hk =>
    rw [Weighing.token_of_kind hk (by simp)]
    exact carries_argument hn (by simp) (by simp) _ _
  · next hk =>
    rw [Weighing.token_of_kind hk (by simp)]
    refine carries_member.bind fun m hm => carries_pure trivial ?_
    rw [Weighing.expr_access w _ m _ (by simp), hm]
    rfl
  · exact (carries_putBack t).bind fun _ _ => carries_pure trivial (by simp)

/-! ## Steps -/

theorem carries_exprStep {st : ExprState} (hst : HasItems st) :
    Carries w declaring (i + w.state st + w.token t) HasItems (fun st' => i + w.state st')
      (exprStep nested t st) := by
  have leaf {e : Expr} (he : w.expr e = w.token t) :
      Carries w declaring (i + w.state st + w.token t) HasItems (fun st' => i + w.state st')
        (pure (st.push (.plain e))) := by
    refine carries_pure hst ?_
    rw [Weighing.state_push, Weighing.operand, he, Nat.add_assoc]
  unfold exprStep
  split
  · next hk =>
    rw [Weighing.token_of_kind hk (by simp)]
    refine ((hn _ isStop_rparen).after _).bind fun o _ => carries_pure hst ?_
    simp [Weighing.kind, Nat.add_assoc]
  · next hk =>
    rw [Weighing.token_of_kind hk (by simp)]
    exact carries_listItem t st
  · next hk =>
    rw [Weighing.token_of_kind hk (by simp)]
    refine (carries_identifierSuffix hn t).bind fun e _ => carries_pure hst ?_
    simp [Weighing.kind, Weighing.operand, Nat.add_assoc]
  · next hk => exact leaf (Weighing.expr_number hk)
  · next hk => exact leaf (Weighing.expr_string hk)
  · next hk => exact leaf (Weighing.expr_char hk)
  · next hk => exact leaf (Weighing.expr_true hk)
  · next hk => exact leaf (Weighing.expr_false hk)
  · exact carries_pure hst (by rw [Weighing.state_pushOperator, Nat.add_assoc])
  · exact carries_report _ _ _

end

/-! ## The loop -/

theorem carries_exprResult {st : ExprState} (hst : HasItems st) (first : Token) :
    Carries w declaring (i + w.state st) (fun _ => True) (fun o => i + w.operand o)
      (exprResult first t st) := by
  have hstate : i + w.state st = i + w.exprs (st.items.getD []) +
      (w.operands st.work.operands + w.tokens st.work.operators) := by
    unfold Weighing.state
    omega
  rw [hstate]
  unfold exprResult
  refine (Work.carries_reduce _).bind fun os _ => ?_
  unfold HasItems at hst
  revert hst
  rcases st.items with _ | items <;> rcases os with _ | ⟨top, rest⟩ <;> intro hst
  · exact carries_pure trivial (by simp [Weighing.operand])
  · rw [Weighing.operands_cons, ← Nat.add_assoc]
    exact (carries_dropLeftovers rest t).bind fun _ _ => carries_pure trivial rfl
  · refine carries_pure trivial ?_
    rw [Weighing.operand, w.expr_list first.pos (by simpa using hst)]
    rfl
  · rw [Weighing.operands_cons, Nat.add_comm (w.operand top), ← Nat.add_assoc]
    refine (Operand.carries_settle top).bind fun item _ => ?_
    rw [Nat.add_right_comm]
    refine (carries_dropLeftovers rest t).bind fun _ _ => carries_pure trivial ?_
    rw [Weighing.operand, w.expr_list first.pos (by simp)]
    simp [Nat.add_assoc]

/-- An expression ends at its stop token, or there is a report. -/
theorem carries_exprEnd {stop : TokenKind} (hstop : IsStop stop)
    (ht : t.kind = stop ∨ t.kind = .eof) {st : ExprState} (hst : HasItems st) (first : Token) :
    Carries w declaring (i + w.state st + w.token t) (fun _ => True)
      (fun o => i + (w.kind stop + w.operand o)) (exprEnd stop first t st) := by
  rw [exprEnd_eq]
  split
  · exact carries_report _ _ _
  · next heof =>
    have hk : t.kind = stop := ht.resolve_right fun h => heof ⟨h, hstop.ne_eof⟩
    have hweight : w.token t = w.kind stop := by
      refine Weighing.token_of_kind hk fun hmem => ?_
      simp only [IsStop, List.mem_cons, List.not_mem_nil, or_false] at hstop hmem
      rcases hmem with h | h | h <;> simp [h] at hstop
    rw [hweight, Nat.add_right_comm]
    exact (carries_exprResult hst first).mono fun o _ => ⟨trivial, Nat.add_assoc ..⟩

/-- A loop that keeps the weight of the state, of the token in hand and of what it reads up to the
stop token. -/
def CarriesRest (w : Weighing) (declaring : Prop)
    (loop : TokenKind → Token → Token → ExprState → Builder Operand) : Prop :=
  ∀ stop, IsStop stop → ∀ i first t st, HasItems st →
    Carries w declaring (i + w.state st + w.token t) (fun _ => True)
      (fun o => i + (w.kind stop + w.operand o)) (loop stop first t st)

/-- The loop starts with nothing on the piles. -/
theorem CarriesRest.nested {loop : TokenKind → Token → Token → ExprState → Builder Operand}
    (h : CarriesRest w declaring loop) :
    CarriesNested w declaring fun stop => read >>= fun first => loop stop first first {} := by
  intro stop hstop
  refine carries_read.bind fun first _ => ?_
  simpa using h stop hstop 0 first first {} (by simp [HasItems])

theorem carries_expressionLoop (n : Nat) : CarriesRest w declaring (expressionLoop n) := by
  induction n with
  | zero => exact fun _ _ _ _ _ _ _ => carries_fault _
  | succ n ih =>
    intro stop hstop i first t st hst
    rw [expressionLoop]
    split
    · next ht => exact carries_exprEnd hstop ht hst first
    · refine (carries_exprStep ih.nested hst).bind fun st' hst' => ?_
      exact carries_read.bind fun u _ => ih stop hstop _ first u st' hst'

/-- **An expression** weighs as much as its tokens up to the stop token. -/
theorem carries_expression (n : Nat) : CarriesNested w declaring (expression n) :=
  (carries_expressionLoop n).nested

theorem carries_plainExpression (n : Nat) {stop : TokenKind} (hstop : IsStop stop) :
    Carries w declaring i (fun _ => True) (fun e => i + w.kind stop + w.expr e)
      (plainExpression n stop) := by
  refine ((carries_expression n stop hstop).after i).bind fun o _ => ?_
  rw [← Nat.add_assoc]
  exact Operand.carries_settle o

end Parser

end ToyLang
