import ToyLang.Parser.Declaration

/-!
# Statements

A statement is chosen by its first token, which is already read. Blocks hold statements, and loops
and clauses hold blocks: `blockLoop` and `clauses` call each other, each with a bound that counts
the tokens they take. A clause keyword ends a block only where a chain of clauses can go on.
-/

set_option autoImplicit false

namespace ToyLang.Parser

open Builder

/-! ## Declarations in a block -/

/-- Skips to the end of a statement, from the token `t` on; the end of a block is put back. -/
def skipStatement : Nat → Token → Builder Unit
  | 0, _ => .fault .outOfFuel
  | n + 1, t =>
    match t.kind with
    | .punct .semicolon => return ()
    | .keyword .end_ | .eof => putBack t
    | _ => do skipStatement n (← read)

/-- Gives up a declaration that starts at `start` because of `p`, seen at `t`. -/
def abandon (n : Nat) (p : Problem) (t : Token) (start : Pos) : Builder Stmt := do
  note p t
  skipStatement n t
  return .none start

/-- A variable or an array; `start` is the token that announces it. -/
def variableDec (n : Nat) (start : Token) : Builder Stmt := do
  let name ← read
  if name.kind ≠ .ident then return ← abandon n .variableName name start.pos
  let colon ← read
  if colon.kind ≠ .punct .colon then return ← abandon n .colon colon start.pos
  let dataType ← dataType
  let t ← read
  if t.kind = .punct .lbracket then
    let size ← plainExpression n (.punct .rbracket)
    let t ← read
    if t.kind ≠ .punct .semicolon then return ← abandon n .terminator t start.pos
    return { kind := .arrayDec, name := name.value.display, dataType, expr := size,
             pos := start.pos }
  putBack t
  let value ← expression n (.punct .semicolon)
  let target := Expr.identifier (.text name.value.display) name.pos
  let expr ← initializer value target name
  return { kind := .varDec, name := name.value.display, dataType, expr, pos := start.pos }

/-- A variable of a structure type; `start` is the token that announces it. -/
def structDec (n : Nat) (start : Token) : Builder Stmt := do
  let name ← nameBeforeColon .structVariableName
  let t ← read
  expect (.punct .colon) .structVariableColon t
  let expr ← plainExpression n (.punct .semicolon)
  unless expr.kind = .identifier do note .structVariableType t
  return { kind := .structDec, name, expr, pos := start.pos }

/-! ## Assignments and calls -/

/-- What an identifier at the start of a statement stands for: an element, a member, or itself. -/
def target (n : Nat) (name : Token) : Builder Expr := do
  let value := Value.text name.value.display
  let t ← read
  match t.kind with
  | .punct .lbracket =>
    return accessExpr .arrayAcc value (← plainExpression n (.punct .rbracket)) name.pos
  | .punct .dot => return accessExpr .structAcc value (← member) name.pos
  | _ =>
    putBack t
    return .identifier value name.pos

/-- A statement that starts with the identifier `name`: an assignment, or else a call whose argument
is whatever follows the name. -/
def identifierStatement (n : Nat) (name : Token) : Builder Stmt := do
  let target ← target n name
  match ← expression n (.punct .semicolon) with
  | .pending p => return { kind := .exprStmt, expr := p.complete target, pos := name.pos }
  | .plain e =>
    unless target.kind = .identifier do note (.elementAssignment name.value.display) name
    return { kind := .callStmt, name := name.value.display, expr := e, pos := name.pos }

/-! ## Blocks and control flow -/

/-- The row of statements behind the token that is read first, as a block, with the token that ended
it. -/
def blockOf (loop : Token → Builder (List Stmt × Token)) : Builder (Stmt × Token) := do
  let (statements, last) ← loop (← read)
  if last.kind = .eof then note .blockEnd last
  return (.block statements, last)

/-- A clause with its body. -/
def clause (kind : StmtKind) (condition : Expr) (body : Stmt) (pos : Pos) : Stmt :=
  { kind, expr := condition, statements := [body], pos }

/-- A statement that is a single keyword. -/
def keywordStatement (kind : StmtKind) (t : Token) : Builder Stmt := do
  expect (.punct .semicolon) .terminator (← read)
  return { kind, pos := t.pos }

/-- A conditional and the chain of its clauses. -/
def conditional (n : Nat) (block : Bool → Builder (Stmt × Token))
    (clauses : Bool → Token → Builder (List Stmt)) (t : Token) : Builder Stmt := do
  let condition ← plainExpression n (.keyword .then_)
  let (body, last) ← block true
  let branches ← clauses false last
  return { clause .if_ condition body t.pos with branches }

/-- A statement that starts with the token `t`. A constant leaves no statement behind. -/
def statementWith (n : Nat) (block : Bool → Builder (Stmt × Token))
    (clauses : Bool → Token → Builder (List Stmt)) (t : Token) : Builder (Option Stmt) := do
  match t.kind with
  | .keyword .return_ =>
    let expr ← plainExpression n (.punct .semicolon)
    return some { kind := .return_, expr, pos := t.pos }
  | .keyword .var_ => return some (← variableDec n t)
  | .keyword .const_ =>
    addConst (← constant n)
    return none
  | .keyword .struct_ => return some (← structDec n t)
  | .ident => return some (← identifierStatement n t)
  | .keyword .while_ =>
    let condition ← plainExpression n (.keyword .do_)
    let (body, _) ← block false
    return some (clause .while_ condition body t.pos)
  | .keyword .if_ => return some (← conditional n block clauses t)
  | .keyword .break_ => return some (← keywordStatement .break_ t)
  | .keyword .continue_ => return some (← keywordStatement .continue_ t)
  | _ =>
    note .invalidStatement t
    return none

mutual

/-- The statements from the token `t` on, and the token that ended them; `chained` says that a
clause keyword ends them, too. -/
def blockLoop : Nat → Bool → Token → Builder (List Stmt × Token)
  | 0, _, _ => .fault .outOfFuel
  | n + 1, chained, t =>
    if t.kind = .keyword .end_ ∨ t.kind = .eof then return ([], t)
    else if t.kind = .keyword .elif_ ∨ t.kind = .keyword .else_ then
      if chained then return ([], t)
      else do
        note (.strayClause t.value.display) t
        blockLoop n chained (← read)
    else do
      let s ← statementWith n (fun chained => blockOf (blockLoop n chained)) (clauses n) t
      let (ss, last) ← blockLoop n chained (← read)
      return (s.toList ++ ss, last)

/-- The clauses from the token `t` on; `closed` says that the clause without condition has been
seen. -/
def clauses : Nat → Bool → Token → Builder (List Stmt)
  | 0, _, _ => .fault .outOfFuel
  | n + 1, closed, t =>
    if t.kind = .keyword .elif_ then do
      if closed then note (.clauseAfterElse t.value.display) t
      let condition ← plainExpression n (.keyword .then_)
      let (body, last) ← blockOf (blockLoop n true)
      return clause .elif_ condition body t.pos :: (← clauses n closed last)
    else if t.kind = .keyword .else_ then do
      if closed then note (.clauseAfterElse t.value.display) t
      let (body, last) ← blockOf (blockLoop n true)
      return clause .else_ .none body t.pos :: (← clauses n true last)
    else return []

end

/-- A block, with the token that ended it. -/
def block (n : Nat) (chained : Bool) : Builder (Stmt × Token) := blockOf (blockLoop n chained)

/-- A statement that starts with the token `t`. -/
def statement (n : Nat) (t : Token) : Builder (Option Stmt) :=
  statementWith n (block n) (clauses n) t

/-- A conditional that starts with the token `t`. -/
def ifStatement (n : Nat) (t : Token) : Builder Stmt := conditional n (block n) (clauses n) t

end ToyLang.Parser
