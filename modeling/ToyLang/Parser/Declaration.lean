import ToyLang.Parser.Expression

/-!
# Declarations

Types, parameters, structures, constants and imports. Each builder starts behind the keyword or the
parenthesis that announces it. A token that does not fit is reported; it is then skipped, or put
back for what comes next. The bounded loops take a token in every round.
-/

set_option autoImplicit false

namespace ToyLang.Parser

open Builder

/-! ## Types and values -/

/-- A type. -/
def dataType : Builder DataType := do
  let t ← read
  match t.kind with
  | .type s => return .scalar s
  | _ =>
    note .dataType t
    return .void

/-- The value of a declaration: an assignment gets the declared name as its target, anything else
but an absent value is reported at `t`. -/
def initializer (o : Operand) (target : Expr) (t : Token) : Builder Expr := do
  match o with
  | .pending p => return p.complete target
  | .plain e =>
    unless e.isNone do note (.initializer target.value.name) t
    return e

/-- Reports `p` and puts the token back, unless the token has the kind `kind`. -/
def expect (kind : TokenKind) (p : Problem) (t : Token) : Builder Unit := do
  unless t.kind = kind do
    note p t
    putBack t

/-! ## Parameters -/

/-- Skips to the end of a parameter list, from the token `t` on; an `is` is put back. -/
def skipParams : Nat → Token → Builder Unit
  | 0, _ => .fault .outOfFuel
  | n + 1, t =>
    if t.kind = .punct .rparen ∨ t.kind = .eof then return ()
    else if t.kind = .keyword .is_ then putBack t
    else do skipParams n (← read)

/-- Reports `p` at the token `t` and skips the rest of the parameters. -/
def abandonParams (n : Nat) (p : Problem) (t : Token) : Builder Unit := do
  note p t
  skipParams n t

/-- The parameters from the token `name` on; gives those before a problem. -/
def paramsLoop : Nat → Token → Builder (List TypedName)
  | 0, _ => .fault .outOfFuel
  | n + 1, name => do
    if name.kind ≠ .ident then
      abandonParams (n + 1) .argumentName name
      return []
    let colon ← read
    if colon.kind ≠ .punct .colon then
      abandonParams (n + 1) .argumentColon colon
      return []
    let param : TypedName := { name := name.value.display, dataType := ← dataType }
    let t ← read
    match t.kind with
    | .punct .rparen => return [param]
    | .punct .comma => return param :: (← paramsLoop n (← read))
    | _ =>
      abandonParams (n + 1) .argumentEnd t
      return [param]

/-- A parameter list. -/
def params (n : Nat) : Builder (List TypedName) := do
  let t ← read
  if t.kind = .punct .rparen then return []
  putBack t
  paramsLoop n (← read)

/-! ## Structures -/

/-- The item of a structure that starts with the name `t`. -/
def structItem (n : Nat) (t : Token) : Builder TypedName := do
  expect (.punct .colon) .itemColon (← read)
  let dataType ← dataType
  let value ← expression n (.punct .semicolon)
  let expr ← initializer value (.identifier (.ofPayload t.value) t.pos) t
  return { name := t.value.display, dataType, expr }

/-- The items of a structure, from the token `t` on; gives the token that ended them as well. -/
def structItems : Nat → Token → Builder (List TypedName × Token)
  | 0, _ => .fault .outOfFuel
  | n + 1, t =>
    match t.kind with
    | .keyword .end_ | .eof => return ([], t)
    | .ident => do
      let item ← structItem n t
      let (items, last) ← structItems n (← read)
      return (item :: items, last)
    | _ => do
      note .itemName t
      structItems n (← read)

/-- The name of a declaration, and the token behind it. Where no name stands, the token there is
skipped, unless its kind is one of `followers`. -/
def nameOr (p : Problem) (followers : List TokenKind) : Builder (String × Token) := do
  let t ← read
  if t.kind = .ident then return (t.value.display, ← read)
  note p t
  if t.kind ∈ followers then return ("", t)
  return ("", ← read)

/-- A structure. -/
def structDef (n : Nat) : Builder Struct := do
  let (name, t) ← nameOr .structName [.keyword .is_, .eof]
  expect (.keyword .is_) .structIs t
  let (items, last) ← structItems n (← read)
  if last.kind = .eof then note .structEnd last
  return { name, items }

/-! ## Constants and imports -/

/-- The name of a declaration inside a function; where a colon stands instead, it is put back. -/
def nameBeforeColon (p : Problem) : Builder String := do
  let t ← read
  if t.kind = .ident then return t.value.display
  note p t
  if t.kind = .punct .colon then putBack t
  return ""

/-- A constant. -/
def constant (n : Nat) : Builder TypedName := do
  let name ← nameBeforeColon .constName
  expect (.punct .colon) .colon (← read)
  let dataType ← dataType
  expect (.operator .assign) .assignment (← read)
  return { name, dataType, expr := ← plainExpression n (.punct .semicolon) }

/-- The path of an import, from the token `t` on: its words, and a slash for every dot. -/
def importLoop : Nat → Token → Builder String
  | 0, _ => .fault .outOfFuel
  | n + 1, t =>
    match t.kind with
    | .punct .semicolon | .eof => return ""
    | .ident => do return t.value.display ++ (← importLoop n (← read))
    | .punct .dot => do return "/" ++ (← importLoop n (← read))
    | _ => do
      note .importToken t
      importLoop n (← read)

/-- An import. -/
def importPath (n : Nat) : Builder String := do importLoop n (← read)

variable {t : Token}

/-- An import is over at a semicolon and at the end mark. -/
theorem importLoop_end (n : Nat) (ht : t.kind = .punct .semicolon ∨ t.kind = .eof) :
    importLoop (n + 1) t = pure "" := by
  rcases ht with ht | ht <;> simp only [importLoop, ht]

/-- A name stands in front of the rest of the path. -/
theorem importLoop_name (n : Nat) (ht : t.kind = .ident) :
    importLoop (n + 1) t = importPath n >>= fun path => pure (t.value.display ++ path) := by
  simp only [importLoop, ht]
  rfl

/-- A dot is a slash in front of the rest of the path. -/
theorem importLoop_dot (n : Nat) (ht : t.kind = .punct .dot) :
    importLoop (n + 1) t = importPath n >>= fun path => pure ("/" ++ path) := by
  simp only [importLoop, ht]
  rfl

end ToyLang.Parser
