import ToyLang.Parser.Work

/-!
# Expressions

An expression is read up to a stop token or the end mark. Operands and operators go to the piles of
`Work`, which are reduced at a comma and at the end; commas collect the items of a list. Groups,
calls and index accesses hold expressions of their own. Every round of the loop takes a token, which
is what the bound of `expressionLoop` counts.
-/

set_option autoImplicit false

namespace ToyLang

/-- The state of reading an expression: the piles, and the items before the last comma if there was
a comma. -/
structure ExprState where
  work : Work := {}
  items : Option (List Expr) := none

namespace ExprState

/-- One more operand. -/
def push (st : ExprState) (o : Operand) : ExprState :=
  { st with work := { st.work with operands := o :: st.work.operands } }

/-- One more operator. -/
def pushOperator (st : ExprState) (t : Token) : ExprState :=
  { st with work := { st.work with operators := t :: st.work.operators } }

end ExprState

namespace Parser

open Builder

/-- The expression of a literal token. -/
def literalExpr (kind : ExprKind) (t : Token) : Expr :=
  { kind, value := .ofPayload t.value, pos := t.pos }

/-- The expression of a truth value. -/
def boolExpr (b : Bool) (t : Token) : Expr := { kind := .bool, value := .bool b, pos := t.pos }

/-- An access or a call with its argument. -/
def accessExpr (kind : ExprKind) (name : Value) (arg : Expr) (pos : Pos) : Expr :=
  { kind, value := name, args := [arg], pos }

/-- The member behind a dot. -/
def member : Builder Expr := do
  let t ← read
  if t.kind = .ident then return .identifier (.ofPayload t.value) t.pos
  note .memberName t
  putBack t
  return .identifier (.text "") t.pos

/-- Reports operands that no operator took. -/
def dropLeftovers (operands : List Operand) (t : Token) : Builder Unit :=
  if operands.isEmpty then return () else note (.leftovers operands.length) t

/-- What follows an identifier decides whether it is called, indexed, accessed or left alone. -/
def identifierSuffix (nested : TokenKind → Builder Operand) (name : Token) : Builder Expr := do
  let value := Value.ofPayload name.value
  let t ← read
  match t.kind with
  | .punct .lparen =>
    let arg ← (← nested (.punct .rparen)).settle
    return accessExpr .call value arg name.pos
  | .punct .lbracket =>
    let arg ← (← nested (.punct .rbracket)).settle
    return accessExpr .arrayAcc value arg name.pos
  | .punct .dot => return accessExpr .structAcc value (← member) name.pos
  | _ =>
    putBack t
    return .identifier value name.pos

/-- The end of a list item at the comma `t`. -/
def listItem (t : Token) (st : ExprState) : Builder ExprState := do
  let items := st.items.getD []
  match ← st.work.reduce with
  | [] =>
    note .listItem t
    return { items := some items }
  | top :: rest =>
    let item ← top.settle
    dropLeftovers rest t
    return { items := some (items ++ [item]) }

/-- What one token contributes to an expression. -/
def exprStep (nested : TokenKind → Builder Operand) (t : Token) (st : ExprState) :
    Builder ExprState :=
  match t.kind with
  | .punct .lparen => return st.push (← nested (.punct .rparen))
  | .punct .comma => listItem t st
  | .ident => return st.push (.plain (← identifierSuffix nested t))
  | .number => return st.push (.plain (literalExpr .int t))
  | .string => return st.push (.plain (literalExpr .string t))
  | .char => return st.push (.plain (literalExpr .char t))
  | .keyword .true_ => return st.push (.plain (boolExpr true t))
  | .keyword .false_ => return st.push (.plain (boolExpr false t))
  | .operator _ => return st.pushOperator t
  | _ => do
    note .invalidOperand t
    return st

/-- The expression at its end, the token `t`; it started at the token `first`. -/
def exprEnd (stop : TokenKind) (first t : Token) (st : ExprState) : Builder Operand := do
  if t.kind = .eof ∧ stop ≠ .eof then note (.expressionEnd stop) t
  let operands ← st.work.reduce
  match st.items, operands with
  | some items, [] => return .plain { kind := .list, items, pos := first.pos }
  | some items, top :: rest =>
    let item ← top.settle
    dropLeftovers rest t
    return .plain { kind := .list, items := items ++ [item], pos := first.pos }
  | none, [] => return .plain (.none first.pos)
  | none, top :: rest =>
    dropLeftovers rest t
    return top

/-- Goes on with the token `t` until the stop token or the end mark. -/
def expressionLoop : Nat → TokenKind → Token → Token → ExprState → Builder Operand
  | 0, _, _, _, _ => .fault .outOfFuel
  | n + 1, stop, first, t, st =>
    if t.kind = stop ∨ t.kind = .eof then exprEnd stop first t st
    else do
      let nested (stop : TokenKind) : Builder Operand := do
        let first ← read
        expressionLoop n stop first first {}
      let st ← exprStep nested t st
      expressionLoop n stop first (← read) st

/-- An expression up to and including a token of the kind `stop`. -/
def expression (n : Nat) (stop : TokenKind) : Builder Operand := do
  let first ← read
  expressionLoop n stop first first {}

/-- An expression in a place that gives an assignment no target. -/
def plainExpression (n : Nat) (stop : TokenKind) : Builder Expr := do (← expression n stop).settle

/-- An identifier whose token is already read, with its call, index or member. -/
def identifier (n : Nat) (name : Token) : Builder Expr := identifierSuffix (expression n) name

end Parser

end ToyLang
