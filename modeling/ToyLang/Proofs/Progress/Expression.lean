import ToyLang.Parser.Expression
import ToyLang.Proofs.Progress.Round

/-!
# Expressions come to an end

What builders of expressions do to the stream: a view with at most `m` tokens before the end mark
becomes one with at most `m`. The bound of the loop is never reached where it exceeds the number of
tokens left, and no reduction meets a token that is no operator, because the loop only piles up
operators (`ExprState.Operated`).

`expressionRound` is one round of the loop (`expressionFrom_repeats`): it ends the loop, or leaves
strictly fewer tokens, counting the one in hand (`expressionRound_ensures`).
-/

set_option autoImplicit false

namespace ToyLang

open Builder

/-! ## Reductions -/

/-- Every operator on the pile is one. -/
def ExprState.Operated (st : ExprState) : Prop :=
  ∀ t ∈ st.work.operators, ∃ o, t.kind.operator? = some o

theorem ExprState.operated_empty (items : Option (List Expr)) :
    ExprState.Operated { items } := fun _ h => absurd h List.not_mem_nil

theorem Work.stopped_reduceOver {operators : List Token}
    (h : ∀ t ∈ operators, ∃ o, t.kind.operator? = some o) (operands : List Operand) :
    (reduceOver operators operands).stopped = none := by
  induction operators generalizing operands with
  | nil => rfl
  | cons t ts ih =>
    obtain ⟨o, ho⟩ := h t List.mem_cons_self
    simp only [reduceOver, ho]
    exact ih (fun s hs => h s (List.mem_cons_of_mem _ hs)) _

namespace Parser

variable {v : View} {m n : Nat} {t : Token}

/-- A builder that leaves the stream alone. -/
def Still {α : Type} (b : Builder α) : Prop := ∀ v, b.Ensures (fun _ v' => v' = v) v

theorem Still.within {α : Type} {b : Builder α} (h : Still b) (hv : v.Within m) :
    b.Ensures (Leaves m) v := (h v).mono fun _ _ e => e ▸ hv

theorem Still.bind {α β : Type} {b : Builder α} {f : α → Builder β} (hb : Still b)
    (hf : ∀ a, Still (f a)) : Still (b >>= f) :=
  fun v => (hb v).bind fun a _ e => e ▸ hf a v

theorem still_pure {α : Type} (a : α) : Still (pure a) := fun _ => rfl

theorem still_note (p : Problem) (t : Token) : Still (note p t) := fun _ => rfl

theorem still_settle (o : Operand) : Still o.settle := by
  unfold Operand.settle
  cases o.settled.2 <;> exact fun _ => rfl

theorem still_dropLeftovers (operands : List Operand) (t : Token) :
    Still (dropLeftovers operands t) := by
  unfold dropLeftovers
  split <;> exact fun _ => rfl

theorem still_forM {α : Type} (l : List α) (f : α → Builder PUnit) (h : ∀ a, Still (f a)) :
    Still (l.forM f) := by
  induction l with
  | nil => exact still_pure _
  | cons a l ih => exact (h a).bind fun _ => ih

theorem still_reduce {st : ExprState} (h : st.Operated) : Still st.work.reduce := by
  have hs : st.work.reduction.stopped = none := Work.stopped_reduceOver h _
  unfold Work.reduce
  simp only [hs]
  exact (still_forM _ _ fun n => still_note _ _).bind fun _ => still_pure _

/-- What the piles and the items come to at the end `t` of an expression. -/
def exprResult (first t : Token) (st : ExprState) : Builder Operand := do
  let operands ← st.work.reduce
  match st.items, operands with
  | some items, [] => return .plain { kind := .list, items, pos := first.pos }
  | some items, top :: rest =>
    let item ← top.settle
    dropLeftovers rest t
    return .plain { kind := .list, items := items ++ [item], pos := first.pos }
  | none, [] => return .plain (.none first.pos)
  | none, top :: rest =>
    dropLeftovers rest t
    return top

theorem exprEnd_eq (stop : TokenKind) (first t : Token) (st : ExprState) :
    exprEnd stop first t st =
      if t.kind = .eof ∧ stop ≠ .eof then do
        note (.expressionEnd stop) t
        exprResult first t st
      else exprResult first t st := by
  unfold exprEnd exprResult
  split <;> rfl

theorem still_exprEnd {st : ExprState} (h : st.Operated) (stop : TokenKind) (first t : Token) :
    Still (exprEnd stop first t st) := by
  have result : Still (exprResult first t st) := by
    refine (still_reduce h).bind fun operands => ?_
    split
    · exact still_pure _
    · exact (still_settle _).bind fun _ => (still_dropLeftovers _ _).bind fun _ => still_pure _
    · exact still_pure _
    · exact (still_dropLeftovers _ _).bind fun _ => still_pure _
  rw [exprEnd_eq]
  split
  · exact (still_note _ _).bind fun _ => result
  · exact result

/-! ## Identifiers and steps -/

/-- The nested builders of a loop come to an end where fewer than `n` tokens are left. -/
def Nested (nested : TokenKind → Builder Operand) (n : Nat) : Prop :=
  ∀ stop v m, v.Within m → m < n → (nested stop).Ensures (Leaves m) v

theorem member_ensures (h : v.Within m) : member.Ensures (Leaves m) v := by
  unfold member
  refine (ensures_take h).bind fun t v' ht => ?_
  split
  · exact ht.behind
  · exact ⟨ht.free, ht.within⟩

theorem identifierSuffix_ensures {nested : TokenKind → Builder Operand} (hn : Nested nested n)
    (h : v.Within m) (hm : m < n) (name : Token) :
    (identifierSuffix nested name).Ensures (Leaves m) v := by
  unfold identifierSuffix
  refine (ensures_take h).bind fun t v' ht => ?_
  split
  · exact (hn _ _ _ ht.behind hm).bind fun o v' hv => ((still_settle o).within hv).bind
      fun _ _ hv => hv
  · exact (hn _ _ _ ht.behind hm).bind fun o v' hv => ((still_settle o).within hv).bind
      fun _ _ hv => hv
  · exact (member_ensures ht.behind).bind fun _ _ hv => hv
  · exact ⟨ht.free, ht.within⟩

theorem still_listItem {st : ExprState} (h : st.Operated) (t : Token) :
    (listItem t st).Ensures (fun st' v' => st'.Operated ∧ v' = v) v := by
  unfold listItem
  refine (still_reduce h v).bind fun operands v' hv => ?_
  subst hv
  split
  · exact ⟨ExprState.operated_empty _, rfl⟩
  · refine (still_settle _ _).bind fun item v' hv => ?_
    refine (still_dropLeftovers _ _ _).bind fun _ v'' hv' => ?_
    exact ⟨ExprState.operated_empty _, hv'.trans hv⟩

theorem exprStep_ensures {nested : TokenKind → Builder Operand} (hn : Nested nested n)
    {st : ExprState} (hst : st.Operated) (h : v.Within m) (hm : m < n) (t : Token) :
    (exprStep nested t st).Ensures (fun st' v' => st'.Operated ∧ v'.Within m) v := by
  unfold exprStep
  split
  · exact (hn _ _ _ h hm).bind fun _ _ hv => ⟨hst, hv⟩
  · exact (still_listItem hst t).mono fun _ _ hv => ⟨hv.1, hv.2 ▸ h⟩
  · exact (identifierSuffix_ensures hn h hm t).bind fun _ _ hv => ⟨hst, hv⟩
  · exact ⟨hst, h⟩
  · exact ⟨hst, h⟩
  · exact ⟨hst, h⟩
  · exact ⟨hst, h⟩
  · exact ⟨hst, h⟩
  · next o ho =>
    refine ⟨fun s hs => ?_, h⟩
    rcases List.mem_cons.1 hs with rfl | hs
    · exact ⟨o, by rw [ho]; rfl⟩
    · exact hst s hs
  · exact ⟨hst, h⟩

/-! ## The loop -/

/-- The state of the loop: what stops it, the token it started at, and the state of reading. -/
abbrev ExprLoopState := TokenKind × Token × ExprState

/-- `expressionLoop` over its state. -/
def expressionFrom (n : Nat) (st : ExprLoopState) (t : Token) : Builder Operand :=
  expressionLoop n st.1 st.2.1 t st.2.2

/-- One round of `expressionLoop`. -/
def expressionRound (n : Nat) (st : ExprLoopState) (t : Token) :
    Builder (Round ExprLoopState Operand) := do
  if t.kind = st.1 ∨ t.kind = .eof then return .last (← exprEnd st.1 st.2.1 t st.2.2)
  let next ← exprStep (expression n) t st.2.2
  return .again (← read) (st.1, st.2.1, next) id

theorem expressionFrom_repeats : Repeats expressionFrom expressionRound := by
  intro n st t
  rw [expressionFrom, expressionLoop]
  unfold expressionRound
  split
  · simp [Round.goOn]
  · simp [Round.goOn, expressionFrom]
    rfl

theorem nested_of_loopEnsures
    (h : LoopEnsures (expressionFrom n) (fun st _ => st.2.2.Operated) Leaves n) :
    Nested (expression n) n := fun stop _ m hv hm =>
  (ensures_take hv).bind fun t v ht =>
    h (stop, t, {}) t m v (ExprState.operated_empty none) ht hm

theorem expressionRound_ensures (hn : Nested (expression n) n) :
    RoundEnsures (expressionRound n) (fun st _ => st.2.2.Operated) Leaves n := by
  intro st t m v hst h hm
  unfold expressionRound
  split
  · exact ((still_exprEnd hst _ _ t).within h.behind).bind fun _ _ hv => hv
  · next ht =>
    obtain ⟨k, rfl, hk⟩ := h.shorter fun he => ht (.inr he)
    refine (exprStep_ensures hn hst hk hm t).bind fun st' v' hv => ?_
    exact Round.steps_again (fun _ => hv.1) hv.2 rfl fun _ _ hv => hv.mono (Nat.le_succ k)

theorem nested_expression (n : Nat) : Nested (expression n) n :=
  nested_of_loopEnsures <| expressionFrom_repeats.ensures
    (fun _ hl => expressionRound_ensures (nested_of_loopEnsures hl)) n

theorem plainExpression_ensures (stop : TokenKind) (h : v.Within m) (hm : m < n) :
    (plainExpression n stop).Ensures (Leaves m) v :=
  (nested_expression n stop v m h hm).bind fun o _ hv => (still_settle o).within hv

end Parser

end ToyLang
