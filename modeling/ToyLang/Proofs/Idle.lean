import ToyLang.Proofs.Progress.Expression

/-!
# Builders that leave the stream alone

An idle builder takes no token, puts none back and declares nothing; it may report something, and it
may fail. So do all builders that work on the piles of an expression, those that end a list item and
the expression among them.
-/

set_option autoImplicit false

namespace ToyLang

namespace Builder

variable {α β : Type} {b : Builder α}

/-- The builder takes no token, puts none back and declares nothing. -/
def Idle : Builder α → Prop
  | done _ | fault _ => True
  | report _ _ k => k.Idle
  | next _ | back _ _ | declare _ _ => False

theorem Idle.bind {f : α → Builder β} (h : b.Idle) (hf : ∀ a, (f a).Idle) : (b >>= f).Idle := by
  show (b.bind f).Idle
  induction b with
  | done a => exact hf a
  | report p t k ih => exact ih h
  | fault f => trivial
  | next k | back t k | declare c k => exact h.elim

theorem Idle.stream_run (h : b.Idle) (s : Session) : (b.run s).2.stream = s.stream := by
  induction b generalizing s with
  | done a | fault f => rfl
  | report p t k ih =>
    simp only [run]
    split
    · exact ih h _
    · rfl
  | next k | back t k | declare c k => exact h.elim

end Builder

open Builder

/-! ## Builders of expressions -/

theorem Operand.idle_settle (o : Operand) : o.settle.Idle := by cases o <;> trivial

theorem Work.idle_reduce (w : Work) : w.reduce.Idle := by
  have notices (ns : List Notice) : (ns.forM fun n => note n.problem n.token).Idle := by
    induction ns with
    | nil => trivial
    | cons n ns ih => exact ih
  unfold reduce
  refine (notices _).bind fun _ => ?_
  split <;> trivial

namespace Parser

theorem idle_dropLeftovers (os : List Operand) (t : Token) : (dropLeftovers os t).Idle := by
  unfold dropLeftovers
  split <;> trivial

theorem idle_listItem (t : Token) (st : ExprState) : (listItem t st).Idle := by
  refine (Work.idle_reduce _).bind fun os => ?_
  cases os with
  | nil => trivial
  | cons top rest =>
    exact (Operand.idle_settle top).bind fun _ => (idle_dropLeftovers rest t).bind fun _ => trivial

theorem idle_exprResult (first t : Token) (st : ExprState) : (exprResult first t st).Idle := by
  refine (Work.idle_reduce _).bind fun os => ?_
  rcases st.items with _ | items <;> rcases os with _ | ⟨top, rest⟩
  · trivial
  · exact (idle_dropLeftovers rest t).bind fun _ => trivial
  · trivial
  · exact (Operand.idle_settle top).bind fun _ => (idle_dropLeftovers rest t).bind fun _ => trivial

theorem idle_exprEnd (stop : TokenKind) (first t : Token) (st : ExprState) :
    (exprEnd stop first t st).Idle := by
  rw [exprEnd_eq]
  split
  · exact idle_exprResult first t st
  · exact idle_exprResult first t st

end Parser

end ToyLang
