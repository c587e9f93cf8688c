import ToyLang.Parser.Statement

/-!
# Functions and files

A file is a row of declarations up to the end mark; `parse` reads one from a text. The constants
declared anywhere in the body of a function belong to that function.
-/

set_option autoImplicit false

namespace ToyLang

namespace Parser

open Builder

/-- The type behind the arrow, if `t` is an arrow, and the token behind it. -/
def returnType (t : Token) : Builder (DataType × Token) := do
  if t.kind ≠ .punct .arrow then return (.void, t)
  let dataType ← dataType
  return (dataType, ← read)

/-- The parameters, if `t` is an opening parenthesis, and the token behind them. -/
def optionalParams (n : Nat) (t : Token) : Builder (List TypedName × Token) := do
  if t.kind ≠ .punct .lparen then return ([], t)
  let args ← params n
  return (args, ← read)

/-- A function. -/
def function (n : Nat) : Builder Function := do
  let (name, t) ← nameOr .functionName [.punct .lparen, .punct .arrow, .keyword .is_, .eof]
  let (args, t) ← optionalParams n t
  let (dataType, t) ← returnType t
  expect (.keyword .is_) .functionIs t
  let ((block, _), consts) ← (block n false).collected
  return { name, dataType, args, consts, block }

/-- The declarations from the token `t` on, as a file without a name. -/
def fileLoop : Nat → Token → Builder File
  | 0, _ => .fault .outOfFuel
  | n + 1, t =>
    match t.kind with
    | .eof => return {}
    | .keyword .func_ => do
      let f ← function n
      let file ← fileLoop n (← read)
      return { file with functions := f :: file.functions }
    | .keyword .struct_ => do
      let s ← structDef n
      let file ← fileLoop n (← read)
      return { file with structs := s :: file.structs }
    | .keyword .const_ => do
      let c ← constant n
      let file ← fileLoop n (← read)
      return { file with consts := c :: file.consts }
    | .keyword .import_ => do
      let path ← importPath n
      let file ← fileLoop n (← read)
      return { file with imports := path :: file.imports }
    | _ => do
      note .unknownDeclaration t
      fileLoop n (← read)

/-- A whole file. -/
def file (name : String) (n : Nat) : Builder File := do
  return { ← fileLoop n (← read) with name }

end Parser

/-- A session over a stream. -/
def Session.over (stream : Stream) (strict : Bool) : Session :=
  { stream, diagnostics := { failFast := strict } }

/-- Reads a file from a text. -/
def parse (source : String) (name : String := "") (strict : Bool := false) :
    Except Halt File × Session :=
  (Session.over (.ofText source) strict).build (Parser.file name)

end ToyLang
