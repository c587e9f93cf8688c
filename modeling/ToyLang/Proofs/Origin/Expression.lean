import ToyLang.Proofs.Origin.Builder
import ToyLang.Proofs.Progress.Expression

/-!
# Expressions from tokens

Operands, piles and items are from the tokens that were read, and so is what a reduction makes of
them, with all the tokens it notices (`makes_reduce`). An operand that is missing is marked where
its operator stands, and an assignment without a target where it stands itself. What is reported
quotes nothing but operators and the kind that an expression should have ended at, which has a
spelling.
-/

set_option autoImplicit false

namespace ToyLang

open Builder

variable {T : Token → Prop}

/-! ## Operands and piles -/

/-- An operand from `T`. -/
def Operand.From (T : Token → Prop) : Operand → Prop
  | .plain e => e.From T
  | .pending p => p.value.From T ∧ T p.token

theorem PendingAssignment.from_complete {p : PendingAssignment} {target : Expr}
    (h : (Operand.pending p).From T) (htarget : target.From T) : (p.complete target).From T :=
  .operation .assign target p.value p.token h.2 htarget h.1

theorem Operand.From.settled {o : Operand} (h : o.From T) :
    o.settled.1.From T ∧ ∀ t ∈ o.settled.2, T t := by
  cases o with
  | plain e => exact ⟨h, fun t ht => by cases ht⟩
  | pending p =>
    refine ⟨PendingAssignment.from_complete h (.none p.token h.2), fun t ht => ?_⟩
    cases ht
    exact h.2

theorem Operand.From.settle {o : Operand} (h : o.From T) :
    o.settle.Makes (.ofTokens T) (Expr.From T) := by
  cases o with
  | plain e => exact h
  | pending p => exact ⟨⟨h.2, trivial⟩, h.settled.1⟩

namespace Work

variable {op : Token} {ops : List Token} {os : List Operand}

/-- What is taken for an operator, and what is noticed meanwhile. -/
theorem from_take (ops : List Token) (hop : T op) (hk : op.kind ∉ TokenKind.free)
    (h : ∀ o ∈ os, o.From T) :
    (take op ops os).1.From T ∧ (∀ o ∈ (take op ops os).2.1, o.From T) ∧
      ∀ n ∈ (take op ops os).2.2, n.Allowed (.ofTokens T) := by
  cases os with
  | nil =>
    exact ⟨.none op hop, h, List.forall_mem_singleton.2 ⟨hop, rfl, hk⟩⟩
  | cons o os =>
    obtain ⟨ho, hos⟩ := List.forall_mem_cons.1 h
    refine ⟨ho.settled.1, hos, fun n hn => ?_⟩
    obtain ⟨t, ht, rfl⟩ := List.mem_map.1 hn
    exact ⟨ho.settled.2 t (Option.mem_toList.1 ht), trivial⟩

theorem from_apply (o : Operator) (ops : List Token) (hop : T op) (hk : op.kind ∉ TokenKind.free)
    (h : ∀ o ∈ os, o.From T) :
    (∀ p ∈ (apply op o ops os).1, p.From T) ∧
      ∀ n ∈ (apply op o ops os).2, n.Allowed (.ofTokens T) := by
  obtain ⟨hright, hrest, hnotices⟩ := from_take ops hop hk h
  unfold apply
  split
  · have hpending : (Operand.pending ⟨_, op⟩).From T := ⟨hright, hop⟩
    exact ⟨List.forall_mem_cons.2 ⟨hpending, hrest⟩, hnotices⟩
  · obtain ⟨hleft, hrest', hnotices'⟩ := from_take ops hop hk hrest
    refine ⟨List.forall_mem_cons.2 ⟨?_, hrest'⟩, List.forall_mem_append.2 ⟨hnotices, hnotices'⟩⟩
    exact Expr.From.operation o _ _ op hop hleft hright

theorem from_reduceOver (hops : ∀ t ∈ ops, T t) (h : ∀ o ∈ os, o.From T) :
    (∀ o ∈ (reduceOver ops os).work.operands, o.From T) ∧
      ∀ n ∈ (reduceOver ops os).notices, n.Allowed (.ofTokens T) := by
  induction ops generalizing os with
  | nil => exact ⟨h, fun _ hn => absurd hn List.not_mem_nil⟩
  | cons op ops ih =>
    obtain ⟨hop, hops⟩ := List.forall_mem_cons.1 hops
    rw [reduceOver]
    cases ho : op.kind.operator? with
    | none => exact ⟨h, fun _ hn => absurd hn List.not_mem_nil⟩
    | some o =>
      have hk : op.kind ∉ TokenKind.free := by
        simp [TokenKind.operator?_eq_some_iff.1 ho, TokenKind.free]
      obtain ⟨hos, hnotices⟩ := from_apply o ops hop hk h
      obtain ⟨hos', hnotices'⟩ := ih hops hos
      exact ⟨hos', List.forall_mem_append.2 ⟨hnotices, hnotices'⟩⟩

theorem makes_reduce {w : Work} (hops : ∀ t ∈ w.operators, T t)
    (h : ∀ o ∈ w.operands, o.From T) :
    w.reduce.Makes (.ofTokens T) fun os => ∀ o ∈ os, o.From T := by
  have notices (ns : List Notice) (hns : ∀ n ∈ ns, n.Allowed (.ofTokens T)) :
      (ns.forM fun n => note n.problem n.token).Makes (.ofTokens T) Anything := by
    induction ns with
    | nil => trivial
    | cons n ns ih =>
      obtain ⟨hn, hns⟩ := List.forall_mem_cons.1 hns
      exact (makes_note hn.1 hn.2).bind fun _ _ => ih hns
  obtain ⟨hos, hnotices⟩ := from_reduceOver hops h
  unfold reduce
  refine (notices _ hnotices).bind fun _ _ => ?_
  split
  · trivial
  · exact hos

end Work

/-- The operands, the operators and the items are from `T`. -/
structure ExprState.From (T : Token → Prop) (st : ExprState) : Prop where
  operands : ∀ o ∈ st.work.operands, o.From T
  operators : ∀ t ∈ st.work.operators, T t
  items : ∀ e ∈ st.items.getD [], e.From T

theorem ExprState.from_items {items : List Expr} (h : ∀ e ∈ items, e.From T) :
    ExprState.From T { items := some items } :=
  ⟨fun _ h => absurd h List.not_mem_nil, fun _ h => absurd h List.not_mem_nil, h⟩

theorem ExprState.from_empty : ExprState.From T {} :=
  ⟨fun _ h => absurd h List.not_mem_nil, fun _ h => absurd h List.not_mem_nil,
    fun _ h => absurd h List.not_mem_nil⟩

theorem ExprState.From.push {st : ExprState} {o : Operand} (h : st.From T) (ho : o.From T) :
    (st.push o).From T :=
  { h with operands := List.forall_mem_cons.2 ⟨ho, h.operands⟩ }

namespace Parser

variable {t : Token} {n : Nat}

/-! ## Items -/

theorem makes_dropLeftovers (operands : List Operand) (ht : T t) :
    (dropLeftovers operands t).Makes (.ofTokens T) Anything := by
  unfold dropLeftovers
  split
  · trivial
  · exact makes_note ht trivial

/-- One more item at the end of others. -/
theorem from_append_item {items : List Expr} {item : Expr} (h : ∀ e ∈ items, e.From T)
    (hitem : item.From T) : ∀ e ∈ items ++ [item], e.From T :=
  List.forall_mem_append.2 ⟨h, List.forall_mem_singleton.2 hitem⟩

theorem makes_listItem {st : ExprState} (ht : T t) (h : st.From T) :
    (listItem t st).Makes (.ofTokens T) (ExprState.From T) := by
  refine (Work.makes_reduce h.operators h.operands).bind fun os hos => ?_
  cases os with
  | nil => exact (makes_note ht trivial).bind fun _ _ => ExprState.from_items h.items
  | cons top rest =>
    refine (List.forall_mem_cons.1 hos).1.settle.bind fun item hitem => ?_
    refine (makes_dropLeftovers rest ht).bind fun _ _ => ?_
    exact ExprState.from_items (from_append_item h.items hitem)

/-! ## Identifiers -/

/-- A member stands where its token does, also where that is none. -/
theorem makes_member :
    member.Makes (.ofTokens T) fun e =>
      ∃ name u, T u ∧ name.IsNameFrom T ∧ e = .identifier name u.pos := by
  refine makes_read.bind fun t ht => ?_
  split
  · next hk => exact ⟨_, t, ht, isNameFrom_payload ht hk, rfl⟩
  · exact (makes_note (p := .memberName) ht trivial).bind fun _ _ =>
      (makes_putBack ht).bind fun _ _ => ⟨_, t, ht, isNameFrom_empty, rfl⟩

section
variable {nested : TokenKind → Builder Operand}
  (hn : ∀ stop, stop.spelling?.isSome → (nested stop).Makes (.ofTokens T) (Operand.From T))
include hn

theorem makes_identifierSuffix {name : Token} (hname : T name) (hk : name.kind = .ident) :
    (identifierSuffix nested name).Makes (.ofTokens T) (Expr.From T) := by
  have hfrom := isNameFrom_payload hname hk
  unfold identifierSuffix
  refine makes_read.bind fun u hu => ?_
  split
  · exact (hn _ rfl).bind fun o ho => ho.settle.bind fun arg harg =>
      .access .call _ arg name (by simp) hname hfrom harg
  · exact (hn _ rfl).bind fun o ho => ho.settle.bind fun arg harg =>
      .access .arrayAcc _ arg name (by simp) hname hfrom harg
  · refine makes_member.bind fun e he => ?_
    obtain ⟨member, u, hu, hmember, rfl⟩ := he
    exact .structAcc _ member name u hname hu hfrom hmember
  · exact (makes_putBack hu).bind fun _ _ => .identifier _ name hname hfrom

/-! ## Steps -/

theorem makes_exprStep {st : ExprState} (ht : T t) (h : st.From T) :
    (exprStep nested t st).Makes (.ofTokens T) (ExprState.From T) := by
  unfold exprStep
  split
  · exact (hn _ rfl).bind fun o ho => h.push ho
  · exact makes_listItem ht h
  · next hk => exact (makes_identifierSuffix hn ht hk).bind fun e he => h.push he
  · next hk => exact h.push (o := .plain _) (.number t ht hk)
  · next hk => exact h.push (o := .plain _) (.string t ht hk)
  · next hk => exact h.push (o := .plain _) (.char t ht hk)
  · exact h.push (o := .plain _) (.bool true t ht)
  · exact h.push (o := .plain _) (.bool false t ht)
  · exact { h with operators := List.forall_mem_cons.2 ⟨ht, h.operators⟩ }
  · exact (makes_note ht trivial).bind fun _ _ => h

end

/-! ## The loop -/

theorem makes_exprResult {first : Token} {st : ExprState} (hfirst : T first) (ht : T t)
    (h : st.From T) : (exprResult first t st).Makes (.ofTokens T) (Operand.From T) := by
  have hitems := h.items
  unfold exprResult
  refine (Work.makes_reduce h.operators h.operands).bind fun os hos => ?_
  revert hitems
  rcases st.items with _ | items <;> rcases os with _ | ⟨top, rest⟩ <;> intro hitems
  · exact Expr.From.none first hfirst
  · exact (makes_dropLeftovers rest ht).bind fun _ _ => (List.forall_mem_cons.1 hos).1
  · exact Expr.From.list items first hfirst hitems
  · refine (List.forall_mem_cons.1 hos).1.settle.bind fun item hitem => ?_
    refine (makes_dropLeftovers rest ht).bind fun _ _ => ?_
    exact Expr.From.list _ first hfirst (from_append_item hitems hitem)

theorem makes_exprEnd {stop : TokenKind} (hstop : stop.spelling?.isSome) {first : Token}
    {st : ExprState} (hfirst : T first) (ht : T t) (h : st.From T) :
    (exprEnd stop first t st).Makes (.ofTokens T) (Operand.From T) := by
  rw [exprEnd_eq]
  split
  · exact (makes_note ht hstop).bind fun _ _ => makes_exprResult hfirst ht h
  · exact makes_exprResult hfirst ht h

theorem makes_expressionLoop {stop : TokenKind} (hstop : stop.spelling?.isSome) {first : Token}
    {st : ExprState} (hfirst : T first) (ht : T t) (h : st.From T) :
    (expressionLoop n stop first t st).Makes (.ofTokens T) (Operand.From T) := by
  induction n generalizing stop first t st with
  | zero => trivial
  | succ n ih =>
    rw [expressionLoop]
    split
    · exact makes_exprEnd hstop hfirst ht h
    · have hn (stop : TokenKind) (hstop : stop.spelling?.isSome) : (read >>= fun first =>
          expressionLoop n stop first first {}).Makes (.ofTokens T) (Operand.From T) :=
        makes_read.bind fun first hfirst => ih hstop hfirst hfirst ExprState.from_empty
      exact (makes_exprStep hn ht h).bind fun st hst => makes_read.bind fun u hu =>
        ih hstop hfirst hu hst

/-- **An expression** up to a kind with a spelling is from the tokens that are read. -/
theorem makes_expression (n : Nat) {stop : TokenKind} (hstop : stop.spelling?.isSome) :
    (expression n stop).Makes (.ofTokens T) (Operand.From T) :=
  makes_read.bind fun _ hfirst => makes_expressionLoop hstop hfirst hfirst ExprState.from_empty

theorem makes_plainExpression (n : Nat) {stop : TokenKind} (hstop : stop.spelling?.isSome) :
    (plainExpression n stop).Makes (.ofTokens T) (Expr.From T) :=
  (makes_expression n hstop).bind fun _ ho => ho.settle

end Parser

end ToyLang
