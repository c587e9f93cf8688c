import ToyLang.Parser.Builder

/-!
# Reducing operators over operands

While an expression is read, its operands and its operators wait on two piles, tops first. Operators
have one precedence and are reduced from the top: an operator takes the right operand, then the left
one, and leaves its node; an assignment takes its right-hand side only and leaves an operand whose
target is still open. A missing operand is replaced by the mark of an absent expression, an open
assignment that is taken as an operand gets that mark as its target, and both are noticed.

`reduce` is a function of the two piles alone: it gives every notice together with the piles as they
are at that moment, and the piles at the end.
-/

set_option autoImplicit false

namespace ToyLang

/-- An assignment whose target is not known yet. -/
structure PendingAssignment where
  value : Expr
  token : Token
deriving DecidableEq

/-- The assignment with its target. -/
def PendingAssignment.complete (p : PendingAssignment) (target : Expr) : Expr :=
  .operation .assign target p.value p.token.pos

/-- What waits for an operator: an expression, or an assignment without target. -/
inductive Operand where
  | plain (e : Expr)
  | pending (p : PendingAssignment)
deriving DecidableEq

/-- The two piles, tops first. -/
structure Work where
  operands : List Operand := []
  operators : List Token := []
deriving DecidableEq

/-- A problem, the token it was seen at, and the piles at that moment. -/
structure Notice where
  problem : Problem
  token : Token
  left : Work
deriving DecidableEq

/-- What a reduction comes to: its notices in order, the piles at the end, and the token that
stopped it because it is no operator. -/
structure Reduction where
  notices : List Notice
  work : Work
  stopped : Option Token := none
deriving DecidableEq

namespace Operand

/-- The operand as an expression, and the token of an assignment that gets no target. -/
def settled : Operand → Expr × Option Token
  | plain e => (e, none)
  | pending p => (p.complete (.none p.token.pos), some p.token)

/-- The operand as an expression; an assignment without target is reported. -/
def settle (o : Operand) : Builder Expr := do
  if let some t := o.settled.2 then .note .noTarget t
  return o.settled.1

end Operand

namespace Work

/-- The top operand for the operator `op`, what is below it, and what is to be noticed; the
operators below `op` are `operators`. -/
def take (op : Token) (operators : List Token) :
    List Operand → Expr × List Operand × List Notice
  | [] => (.none op.pos, [], [⟨.missingOperand op.value.display, op, ⟨[], operators⟩⟩])
  | o :: operands =>
    (o.settled.1, operands,
      o.settled.2.toList.map fun t => ⟨.noTarget, t, ⟨operands, operators⟩⟩)

/-- One operator reduced over the operands: the operands behind it and what is to be noticed. -/
def apply (op : Token) (o : Operator) (operators : List Token) (operands : List Operand) :
    List Operand × List Notice :=
  let right := take op operators operands
  if o = .assign then (.pending ⟨right.1, op⟩ :: right.2.1, right.2.2)
  else
    let left := take op operators right.2.1
    (.plain (.operation o left.1 right.1 op.pos) :: left.2.1, right.2.2 ++ left.2.2)

/-- Every operator reduced, from the top. -/
def reduceOver : List Token → List Operand → Reduction
  | [], operands => { notices := [], work := ⟨operands, []⟩ }
  | op :: operators, operands =>
    match op.kind.operator? with
    | none => { notices := [], work := ⟨operands, operators⟩, stopped := some op }
    | some o =>
      let step := apply op o operators operands
      let rest := reduceOver operators step.1
      { rest with notices := step.2 ++ rest.notices }

/-- Every operator reduced, from the top. -/
def reduction (w : Work) : Reduction := reduceOver w.operators w.operands

/-- Reduces every operator; gives the operands that are left. -/
def reduce (w : Work) : Builder (List Operand) := do
  let r := w.reduction
  r.notices.forM fun n => .note n.problem n.token
  match r.stopped with
  | some t => .fault (.notOperator t)
  | none => return r.work.operands

end Work

/-- Reduces every operator in a session; gives the piles as they are left, also on a halt. -/
def Session.reduce (s : Session) (w : Work) : Except Halt Unit × Work × Session :=
  let r := w.reduction
  go r.notices s r
where
  /-- Reports the notices one by one. -/
  go : List Notice → Session → Reduction → Except Halt Unit × Work × Session
    | [], s, r =>
      (match r.stopped with
        | some t => .error (.fault (.notOperator t))
        | none => .ok (), r.work, s)
    | n :: ns, s, r =>
      match (Builder.note n.problem n.token).run s with
      | (.ok (), s) => go ns s r
      | (.error h, s) => (.error h, n.left, s)

end ToyLang
