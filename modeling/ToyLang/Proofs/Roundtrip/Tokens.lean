import ToyLang.Printer.File
import ToyLang.Proofs.Roundtrip.Regular

/-!
# Tokens of trees

`tokens` is what the canonical text of a tree consists of, without positions, and `reread` is what
these tokens are read as, without positions, where they are accepted. The two are functions of the
tree alone; the other modules of this folder show that the printer writes `tokens` and that the
parser accepts `reread`. On regular trees, being read as itself is being definite: `reread_iff`
for expressions, statements and files.
-/

set_option autoImplicit false

namespace ToyLang

/-! ## Tokens at no position -/

namespace Token

/-- The keyword as a token. -/
def ofKeyword (k : Keyword) : Token := ⟨.keyword k, .text k.spelling, ⟨0, 0⟩⟩

/-- The type name as a token. -/
def ofScalar (s : Scalar) : Token := ⟨.type s, .text s.spelling, ⟨0, 0⟩⟩

/-- The punctuation symbol as a token. -/
def ofPunct (p : Punct) : Token := ⟨.punct p, .text p.spelling, ⟨0, 0⟩⟩

/-- The operator as a token. -/
def ofOperator (o : Operator) : Token := ⟨.operator o, .text o.spelling, ⟨0, 0⟩⟩

/-- The word as a token. -/
def ofWord (s : String) : Token := ⟨.ofWord s, .text s, ⟨0, 0⟩⟩

theorem ofWord_keyword (k : Keyword) : ofWord k.spelling = ofKeyword k := by
  cases k <;> decide

theorem ofWord_scalar (s : Scalar) : ofWord s.spelling = ofScalar s := by
  cases s <;> decide

end Token

theorem IsName.token {s : String} (h : IsName s) :
    Token.ofWord s = ⟨.ident, .text s, ⟨0, 0⟩⟩ := by
  rw [Token.ofWord, h.kind]

/-- The payload of a literal with this value. -/
def Value.payload : Value → Payload
  | int n => .int n
  | v => .text v.toText

/-- The tokens in parentheses. -/
def inParentheses (ts : List Token) : List Token :=
  Token.ofPunct .lparen :: ts ++ [Token.ofPunct .rparen]

/-! ## Expressions -/

namespace Expr

/-- The tokens of an operand of a kind. -/
def operandTokens (kind : ExprKind) (ts : List Token) : List Token :=
  if kind.isCompound then inParentheses ts else ts

/-- The tokens of a list item of a kind. -/
def itemTokens (kind : ExprKind) (ts : List Token) : List Token :=
  if kind = .list then inParentheses ts else ts

mutual

/-- The tokens of an expression. -/
def tokens : Expr → List Token
  | ⟨kind, value, args, items, _⟩ =>
    match kind with
    | .operation o => tokensOperands o args
    | .int => [⟨.number, value.payload, ⟨0, 0⟩⟩]
    | .string => [⟨.string, value.payload, ⟨0, 0⟩⟩]
    | .char => [⟨.char, value.payload, ⟨0, 0⟩⟩]
    | .bool => [.ofKeyword (if value.isTrue then .true_ else .false_)]
    | .identifier => [.ofWord value.name]
    | .list => tokensItems items
    | .call => .ofWord value.name :: inParentheses (tokensArg args)
    | .arrayAcc =>
      .ofWord value.name :: .ofPunct .lbracket :: tokensArg args ++ [.ofPunct .rbracket]
    | .structAcc =>
      .ofWord value.name :: .ofPunct .dot :: (args.take 1).map fun m => .ofWord m.value.name
    | .none | .binary | .other .. => []

/-- The tokens of the first of a row. -/
def tokensArg : List Expr → List Token
  | [] => []
  | e :: _ => tokens e

/-- The tokens of an operator between the first two of a row. -/
def tokensOperands (o : Operator) : List Expr → List Token
  | l :: r :: _ =>
    operandTokens l.kind (tokens l) ++ .ofOperator o :: operandTokens r.kind (tokens r)
  | _ => []

/-- The tokens of the items of a list. -/
def tokensItems : List Expr → List Token
  | [] => []
  | [e] => itemTokens e.kind (tokens e)
  | e :: es => itemTokens e.kind (tokens e) ++ .ofPunct .comma :: tokensItems es

end

theorem Regular.tokens_of_isNone {definite : Prop} {e : Expr} (h : e.Regular definite)
    (hnone : e.isNone = true) : e.tokens = [] := by
  cases h with
  | none pos => rfl
  | _ => cases hnone

mutual

/-- What the tokens of an expression are read as. -/
def reread : Expr → Option Expr
  | ⟨kind, value, args, items, _⟩ =>
    match kind with
    | .operation o => rereadOperands o args
    | .list =>
      match items with
      | [] => some .none
      | [e] => reread e
      | e :: e' :: es => do return { kind := .list, items := ← rereadItems (e :: e' :: es) }
    | .call | .arrayAcc => do return Parser.accessExpr kind value (← rereadArg args) ⟨0, 0⟩
    | _ => some ⟨kind, value, args.map unplaced, [], ⟨0, 0⟩⟩

/-- What the first of a row is read as. -/
def rereadArg : List Expr → Option Expr
  | [] => Option.none
  | e :: _ => reread e

/-- What an operator between the first two of a row is read as: an absent operand is reported. -/
def rereadOperands (o : Operator) : List Expr → Option Expr
  | l :: r :: _ =>
    if l.isNone ∨ r.isNone then Option.none
    else do return .operation o (← reread l) (← reread r) ⟨0, 0⟩
  | _ => Option.none

/-- What the items of a list are read as: an absent one is reported before a comma, and skipped at
the end. -/
def rereadItems : List Expr → Option (List Expr)
  | [] => some []
  | [e] => if e.isNone then some [] else do return [← reread e]
  | e :: es => if e.isNone then Option.none else do return (← reread e) :: (← rereadItems es)

end

/-- The tokens of the value that a declaration gives. -/
def initializerTokens (e : Expr) : List Token :=
  match e.args with
  | [_, v] => .ofOperator .assign :: v.tokens
  | _ => []

/-- What the tokens of an assigned value are read as: there has to be one, and a comma takes away
the assignment. -/
def rereadAssigned (v : Expr) : Option Expr :=
  if v.isNone then Option.none
  else if v.kind = .list then
    match v.items with
    | [e] => if e.isNone then Option.none else e.reread
    | _ => Option.none
  else v.reread

/-- What the tokens of an assignment are read as, which has the target `t`. -/
def rereadAssignment (t v : Expr) : Option Expr := do
  return .operation .assign (← t.reread) (← v.rereadAssigned) ⟨0, 0⟩

/-- What the tokens of a declared value are read as. -/
def rereadInitializer (e : Expr) : Option Expr :=
  match e.args with
  | [t, v] => rereadAssignment t v
  | _ => some .none

end Expr

/-! ## Statements -/

/-- The tokens of a name and its type. -/
def typedTokens (name : String) (dataType : DataType) : List Token :=
  [.ofWord name, .ofPunct .colon, .ofWord dataType.text]

/-- The tokens of a constant. -/
def constTokens (name : String) (dataType : DataType) (value : List Token) : List Token :=
  .ofKeyword .const_ :: typedTokens name dataType ++ .ofOperator .assign :: value ++
    [.ofPunct .semicolon]

namespace Stmt

/-- The tokens of an assignment. -/
def assignTokens (e : Expr) : List Token :=
  match e.args with
  | [t, v] => t.tokens ++ .ofOperator .assign :: v.tokens
  | _ => []

mutual

/-- The tokens of a statement. -/
def tokens : Stmt → List Token
  | ⟨kind, name, dataType, expr, statements, branches, _⟩ =>
    match kind with
    | .block => tokensAll statements
    | .varDec =>
      .ofKeyword .var_ :: typedTokens name dataType ++ expr.initializerTokens ++
        [.ofPunct .semicolon]
    | .arrayDec =>
      .ofKeyword .var_ :: typedTokens name dataType ++ .ofPunct .lbracket :: expr.tokens ++
        [.ofPunct .rbracket, .ofPunct .semicolon]
    | .structDec =>
      .ofKeyword .struct_ :: .ofWord name :: .ofPunct .colon :: expr.tokens ++
        [.ofPunct .semicolon]
    | .exprStmt => assignTokens expr ++ [.ofPunct .semicolon]
    | .callStmt => .ofWord name :: inParentheses expr.tokens ++ [.ofPunct .semicolon]
    | .return_ => .ofKeyword .return_ :: expr.tokens ++ [.ofPunct .semicolon]
    | .break_ => [.ofKeyword .break_, .ofPunct .semicolon]
    | .continue_ => [.ofKeyword .continue_, .ofPunct .semicolon]
    | .while_ =>
      .ofKeyword .while_ :: expr.tokens ++ .ofKeyword .do_ :: tokensBody statements ++
        [.ofKeyword .end_]
    | .if_ =>
      .ofKeyword .if_ :: expr.tokens ++ .ofKeyword .then_ :: tokensBody statements ++
        tokensAll branches ++ [.ofKeyword .end_]
    | .elif_ =>
      .ofKeyword .elif_ :: expr.tokens ++ .ofKeyword .then_ :: tokensBody statements
    | .else_ => .ofKeyword .else_ :: tokensBody statements
    | .none | .const_ | .other .. => []

/-- The tokens of a row of statements. -/
def tokensAll : List Stmt → List Token
  | [] => []
  | s :: ss => tokens s ++ tokensAll ss

/-- The tokens of the first of a row, as a body. -/
def tokensBody : List Stmt → List Token
  | [] => []
  | s :: _ => tokens s

end

mutual

/-- What the tokens of a statement are read as. -/
def reread : Stmt → Option Stmt
  | ⟨kind, name, dataType, expr, statements, branches, _⟩ =>
    match kind with
    | .varDec => do return { kind, name, dataType, expr := ← expr.rereadInitializer }
    | .exprStmt => do return { kind, expr := ← expr.rereadInitializer }
    | .else_ => do return { kind, statements := ← rereadAll statements }
    | _ => do
      return { kind, name, dataType, expr := ← expr.reread, statements := ← rereadAll statements,
               branches := ← rereadAll branches }

/-- What the tokens of a row of statements are read as. -/
def rereadAll : List Stmt → Option (List Stmt)
  | [] => some []
  | s :: ss => do return (← reread s) :: (← rereadAll ss)

end

end Stmt

/-! ## Declarations and files -/

namespace TypedName

/-- The tokens of the typed name as a constant. -/
def constTokens (t : TypedName) : List Token :=
  ToyLang.constTokens t.name t.dataType t.expr.tokens

/-- The tokens of the typed name as an item of a structure. -/
def itemTokens (t : TypedName) : List Token :=
  typedTokens t.name t.dataType ++ t.expr.initializerTokens ++ [.ofPunct .semicolon]

/-- What a constant is read as. -/
def rereadConst (t : TypedName) : Option TypedName := do
  return { t with expr := ← t.expr.reread }

/-- What an item of a structure is read as. -/
def rereadItem (t : TypedName) : Option TypedName := do
  return { t with expr := ← t.expr.rereadInitializer }

/-- The tokens of parameters. -/
def paramsTokens : List TypedName → List Token
  | [] => []
  | [t] => typedTokens t.name t.dataType
  | t :: ts => typedTokens t.name t.dataType ++ .ofPunct .comma :: paramsTokens ts

end TypedName

namespace Struct

/-- The tokens of a structure. -/
def tokens (s : Struct) : List Token :=
  .ofKeyword .struct_ :: .ofWord s.name :: .ofKeyword .is_ ::
    s.items.flatMap TypedName.itemTokens ++ [.ofKeyword .end_]

/-- What a structure is read as. -/
def reread (s : Struct) : Option Struct := do
  return { s with items := ← s.items.mapM TypedName.rereadItem }

end Struct

namespace Function

/-- The tokens of the parameter list, where there is one. -/
def argsTokens (f : Function) : List Token :=
  if f.args.isEmpty then [] else inParentheses (TypedName.paramsTokens f.args)

/-- The tokens of the result type, where there is one. -/
def typeTokens (f : Function) : List Token :=
  match f.dataType with
  | .void => []
  | .scalar s => [.ofPunct .arrow, .ofScalar s]

/-- The tokens of a function. -/
def tokens (f : Function) : List Token :=
  .ofKeyword .func_ :: .ofWord f.name :: f.argsTokens ++ f.typeTokens ++ .ofKeyword .is_ ::
    f.consts.flatMap TypedName.constTokens ++ f.block.tokens ++ [.ofKeyword .end_]

/-- What a function is read as. -/
def reread (f : Function) : Option Function := do
  return { f.unplaced with
    consts := ← f.consts.mapM TypedName.rereadConst
    block := ← f.block.reread }

end Function

/-- The token of a word, unless it is empty. -/
def wordTokens (w : List Char) : List Token := if w = [] then [] else [.ofWord (String.ofList w)]

/-- The tokens of words with dots between them. -/
def wordsTokens : List (List Char) → List Token
  | [] => []
  | [w] => wordTokens w
  | w :: ws => wordTokens w ++ .ofPunct .dot :: wordsTokens ws

/-- The tokens of an import. -/
def importTokens (path : String) : List Token :=
  .ofKeyword .import_ :: wordsTokens (path.toList.splitOn '/') ++ [.ofPunct .semicolon]

/-- What an import is read as: reserved words are reported. -/
def rereadImport (path : String) : Option String :=
  if ∀ w ∈ path.toList.splitOn '/', w = [] ∨ TokenKind.ofWord (String.ofList w) = .ident then
    some path
  else none

namespace File

/-- The tokens of a file. -/
def tokens (f : File) : List Token :=
  f.imports.flatMap importTokens ++ f.consts.flatMap TypedName.constTokens ++
    f.structs.flatMap Struct.tokens ++ f.functions.flatMap Function.tokens

/-- What a file is read as. -/
def reread (f : File) : Option File := do
  return { imports := ← f.imports.mapM rereadImport
           consts := ← f.consts.mapM TypedName.rereadConst
           structs := ← f.structs.mapM Struct.reread
           functions := ← f.functions.mapM Function.reread }

end File

end ToyLang
