import ToyLang.Proofs.Accepted.Builder
import ToyLang.Proofs.Progress.Expression

/-!
# Expressions built without a report are regular

Every builder of expressions keeps what it holds regular or reports something
(`only_expressionLoop`, by induction on the bound). An assignment comes out of it as an open operand
only, which whoever settles it reports (`only_settle`).
-/

set_option autoImplicit false

namespace ToyLang

open Builder

/-! ## Operands and piles -/

/-- An expression that is regular, or an assignment of one. -/
def Operand.Regular : Operand → Prop
  | plain e => e.Regular False
  | pending p => p.value.Regular False

theorem Operand.only_settle {o : Operand} (h : o.Regular) :
    o.settle.Only (Expr.Regular False) := by
  cases o with
  | plain e => exact h
  | pending p => trivial

namespace Work

variable {op : Token} {ops : List Token} {os : List Operand}

theorem regular_take (h : ∀ o ∈ os, o.Regular) (hquiet : (take op ops os).2.2 = []) :
    (take op ops os).1.Regular False ∧ ∀ o ∈ (take op ops os).2.1, o.Regular := by
  match os with
  | [] => cases hquiet
  | .plain e :: os => exact List.forall_mem_cons.1 h
  | .pending p :: os => cases hquiet

theorem regular_apply {operator : Operator} (h : ∀ o ∈ os, o.Regular)
    (hquiet : (apply op operator ops os).2 = []) :
    ∀ o ∈ (apply op operator ops os).1, o.Regular := by
  unfold apply at hquiet ⊢
  by_cases ho : operator = .assign
  · simp only [if_pos ho] at hquiet ⊢
    exact List.forall_mem_cons.2 (regular_take h hquiet)
  · simp only [if_neg ho, List.append_eq_nil_iff] at hquiet ⊢
    obtain ⟨hright, hbelow⟩ := regular_take h hquiet.1
    obtain ⟨hleft, hrest⟩ := regular_take hbelow hquiet.2
    exact List.forall_mem_cons.2 ⟨.operation operator _ _ _ ho hleft hright False.elim, hrest⟩

theorem regular_reduceOver (h : ∀ o ∈ os, o.Regular) (hquiet : (reduceOver ops os).notices = []) :
    ∀ o ∈ (reduceOver ops os).work.operands, o.Regular := by
  induction ops generalizing os with
  | nil => exact h
  | cons op ops ih =>
    simp only [reduceOver] at hquiet ⊢
    cases ho : op.kind.operator? with
    | none =>
      simp only
      exact h
    | some o =>
      simp only [ho, List.append_eq_nil_iff] at hquiet ⊢
      exact ih (regular_apply h hquiet.1) hquiet.2

theorem only_reduce {w : Work} (h : ∀ o ∈ w.operands, o.Regular) :
    w.reduce.Only fun os => ∀ o ∈ os, o.Regular := by
  have hregular : (reduceOver w.operators w.operands).notices = [] → _ := regular_reduceOver h
  unfold reduce reduction
  revert hregular
  obtain ⟨notices, work, stopped⟩ := reduceOver w.operators w.operands
  intro hregular
  rcases notices with _ | ⟨n, ns⟩
  · cases stopped with
    | none => exact hregular rfl
    | some t => trivial
  · trivial

end Work

/-- The operands and the items are regular. -/
structure ExprState.Regular (st : ExprState) : Prop where
  operands : ∀ o ∈ st.work.operands, o.Regular
  items : ∀ e ∈ st.items.getD [], e.Regular False

theorem ExprState.regular_empty : ExprState.Regular {} :=
  ⟨fun _ h => absurd h List.not_mem_nil, fun _ h => absurd h List.not_mem_nil⟩

theorem ExprState.Regular.push {st : ExprState} {o : Operand} (h : st.Regular) (ho : o.Regular) :
    (st.push o).Regular := ⟨List.forall_mem_cons.2 ⟨ho, h.operands⟩, h.items⟩

/-! ## Tokens -/

namespace Token

variable {t : Token}

theorem Lexed.carries {k : TokenKind} (h : t.Lexed) (hk : t.kind = k) : k.Carries t.value :=
  hk ▸ h

theorem Lexed.name (h : t.Lexed) (hk : t.kind = .ident) : ∃ s, t.value = .text s ∧ IsName s :=
  h.carries hk

end Token

namespace Parser

variable {t : Token}

theorem regular_number (h : t.Lexed) (hk : t.kind = .number) :
    (literalExpr .int t).Regular False := by
  obtain ⟨n, hn, hmax⟩ := h.carries hk
  rw [literalExpr, hn]
  exact .int n t.pos hmax

theorem regular_string (h : t.Lexed) (hk : t.kind = .string) :
    (literalExpr .string t).Regular False := by
  obtain ⟨s, hs, hquote⟩ := h.carries hk
  rw [literalExpr, hs]
  exact .string s t.pos hquote

theorem regular_char (h : t.Lexed) (hk : t.kind = .char) :
    (literalExpr .char t).Regular False := by
  obtain ⟨c, hc, hquote⟩ := h.carries hk
  rw [literalExpr, hc]
  exact .char c t.pos hquote

/-! ## Identifiers -/

/-- A member is a name. -/
theorem only_member :
    member.Only fun e => ∃ m pos, e = .identifier (.text m) pos ∧ IsName m := by
  refine only_read.bind fun t ht => ?_
  split
  · next hk =>
    obtain ⟨m, hm, hname⟩ := ht.name hk
    rw [hm]
    exact ⟨m, t.pos, rfl, hname⟩
  · trivial

section
variable {nested : TokenKind → Builder Operand} (hn : ∀ stop, (nested stop).Only Operand.Regular)
include hn

theorem only_identifierSuffix (ht : t.Lexed) (hk : t.kind = .ident) :
    (identifierSuffix nested t).Only (Expr.Regular False) := by
  obtain ⟨s, hs, hname⟩ := ht.name hk
  unfold identifierSuffix
  rw [hs]
  refine only_read.bind fun u hu => ?_
  split
  · refine (hn _).bind fun o ho => (Operand.only_settle ho).bind fun arg harg => ?_
    exact .call s arg t.pos hname harg
  · refine (hn _).bind fun o ho => (Operand.only_settle ho).bind fun arg harg => ?_
    exact .arrayAcc s arg t.pos hname harg
  · refine only_member.bind fun e he => ?_
    obtain ⟨m, mpos, rfl, hm⟩ := he
    exact .structAcc s m t.pos mpos hname hm
  · exact (only_putBack hu).bind fun _ _ => .identifier s t.pos hname

/-! ## Steps -/

omit hn in
theorem only_dropLeftovers (operands : List Operand) (t : Token) :
    (dropLeftovers operands t).Only fun _ => True := by
  unfold dropLeftovers
  split <;> trivial

omit hn in
theorem only_listItem {st : ExprState} (h : st.Regular) :
    (listItem t st).Only ExprState.Regular := by
  refine (Work.only_reduce h.operands).bind fun os hos => ?_
  split
  · trivial
  · next top rest =>
    obtain ⟨htop, -⟩ := List.forall_mem_cons.1 hos
    refine (Operand.only_settle htop).bind fun item hitem => ?_
    refine (only_dropLeftovers rest t).bind fun _ _ => ?_
    refine ⟨fun _ ho => absurd ho List.not_mem_nil, fun e he => ?_⟩
    rcases List.mem_append.1 he with he | he
    · exact h.items e he
    · exact List.mem_singleton.1 he ▸ hitem

theorem only_exprStep (ht : t.Lexed) {st : ExprState} (h : st.Regular) :
    (exprStep nested t st).Only ExprState.Regular := by
  unfold exprStep
  split
  · exact (hn _).bind fun o ho => h.push ho
  · exact only_listItem h
  · next hk => exact (only_identifierSuffix hn ht hk).bind fun e he => h.push he
  · next hk => exact h.push (regular_number ht hk)
  · next hk => exact h.push (regular_string ht hk)
  · next hk => exact h.push (regular_char ht hk)
  · exact h.push (Expr.Regular.bool true t.pos)
  · exact h.push (Expr.Regular.bool false t.pos)
  · exact ⟨h.operands, h.items⟩
  · trivial

end

/-! ## The loop -/

theorem only_exprResult {st : ExprState} (h : st.Regular) (first : Token) :
    (exprResult first t st).Only Operand.Regular := by
  have hitems := h.items
  unfold exprResult
  refine (Work.only_reduce h.operands).bind fun os hos => ?_
  revert hitems
  rcases st.items with _ | items <;> rcases os with _ | ⟨top, rest⟩ <;> intro hitems
  · exact .none first.pos
  · exact (only_dropLeftovers rest t).bind fun _ _ => (List.forall_mem_cons.1 hos).1
  · exact .list items first.pos hitems False.elim
  · refine (Operand.only_settle (List.forall_mem_cons.1 hos).1).bind fun item hitem => ?_
    refine (only_dropLeftovers rest t).bind fun _ _ => ?_
    refine .list _ first.pos (fun e he => ?_) False.elim
    rcases List.mem_append.1 he with he | he
    · exact hitems e he
    · exact List.mem_singleton.1 he ▸ hitem

theorem only_exprEnd (stop : TokenKind) {st : ExprState} (h : st.Regular) (first : Token) :
    (exprEnd stop first t st).Only Operand.Regular := by
  rw [exprEnd_eq]
  split
  · trivial
  · exact only_exprResult h first

theorem only_expressionLoop (n : Nat) (stop : TokenKind) (first : Token) (ht : t.Lexed)
    {st : ExprState} (h : st.Regular) :
    (expressionLoop n stop first t st).Only Operand.Regular := by
  induction n generalizing stop first t st with
  | zero => trivial
  | succ n ih =>
    rw [expressionLoop]
    split
    · exact only_exprEnd stop h first
    · refine (only_exprStep (fun stop => ?_) ht h).bind fun st hst => ?_
      · exact only_read.bind fun u hu => ih stop u hu ExprState.regular_empty
      · exact only_read.bind fun u hu => ih stop first hu hst

theorem only_expression (n : Nat) (stop : TokenKind) :
    (expression n stop).Only Operand.Regular :=
  only_read.bind fun u hu => only_expressionLoop n stop u hu ExprState.regular_empty

theorem only_plainExpression (n : Nat) (stop : TokenKind) :
    (plainExpression n stop).Only (Expr.Regular False) :=
  (only_expression n stop).bind fun _ ho => Operand.only_settle ho

end Parser

end ToyLang
