import ToyLang.Token.Basic
import ToyLang.Tree.File

/-!
# The grammar of files

```
file      = {function | structure | constant | path}
function  = FUNC IDENT ["(" [param {"," param}] ")"] ["->" type] IS {stmt} END
param     = IDENT ":" type
structure = STRUCT IDENT IS {IDENT ":" type [":=" expr] ";"} END
constant  = CONST IDENT ":" type ":=" exprs ";"
path      = IMPORT IDENT {"." IDENT} ";"
stmt      = VAR IDENT ":" type [":=" expr] ";" | VAR IDENT ":" type "[" [exprs] "]" ";"
          | constant | STRUCT IDENT ":" IDENT ";" | target ":=" expr ";"
          | IDENT "(" [exprs] ")" ";" | RETURN [exprs] ";" | WHILE exprs DO {stmt} END
          | IF exprs THEN {stmt} {ELIF exprs THEN {stmt}} [ELSE {stmt}] END
          | BREAK ";" | CONTINUE ";"
target    = IDENT | IDENT "[" [exprs] "]" | IDENT "." IDENT
exprs     = expr {"," expr}
expr      = operand {op operand}                     op: any operator but ":="
operand   = literal | IDENT | IDENT "(" [exprs] ")" | IDENT "[" [exprs] "]" | IDENT "." IDENT
          | "(" exprs ")"
```

A derivation is a tree with a constructor for each alternative, down to its tokens, which have the
kinds that the grammar asks for and any values and positions. `tokens` is the row it derives, and
`tree` what is to be built from that row; nothing here refers to the parser.
-/

set_option autoImplicit false

namespace ToyLang.Grammar

/-! ## Tokens -/

/-- A token of a kind. -/
structure TokenOf (k : TokenKind) extends Token where
  kind_eq : kind = k

/-- A name. -/
abbrev Name := TokenOf .ident

/-- A punctuation symbol. -/
abbrev Mark (p : Punct) := TokenOf (.punct p)

/-- A keyword. -/
abbrev Word (k : Keyword) := TokenOf (.keyword k)

/-- The symbol of an assignment. -/
abbrev Assign := TokenOf (.operator .assign)

/-- The name of a type. -/
structure TypeName extends Token where
  scalar : Scalar
  kind_eq : kind = .type scalar

/-- An operator that joins operands. -/
structure Joiner extends Token where
  operator : Operator
  kind_eq : kind = .operator operator
  joins : operator ≠ .assign

attribute [simp] TokenOf.kind_eq TypeName.kind_eq Joiner.kind_eq

/-! ## Expressions -/

mutual

/-- An operand. -/
inductive Primary where
  | number (t : TokenOf .number)
  | string (t : TokenOf .string)
  | char (t : TokenOf .char)
  | true_ (t : Word .true_)
  | false_ (t : Word .false_)
  | name (t : Name)
  | call (f : Name) (opening : Mark .lparen) (args : Contents) (closing : Mark .rparen)
  | element (a : Name) (opening : Mark .lbracket) (index : Contents) (closing : Mark .rbracket)
  | member (s : Name) (dot : Mark .dot) (m : Name)
  | group (opening : Mark .lparen) (items : Row) (closing : Mark .rparen)

/-- Operands with operators between them. -/
inductive Operation where
  | operand (a : Primary)
  | join (a : Primary) (op : Joiner) (rest : Operation)

/-- Expressions with commas between them. -/
inductive Row where
  | single (e : Operation)
  | cons (e : Operation) (comma : Mark .comma) (rest : Row)

/-- What stands between brackets or in front of a semicolon: a row of expressions or nothing. -/
inductive Contents where
  | empty
  | row (items : Row)

end

/-- The first token of an operand. -/
def Primary.first : Primary → Token
  | .number t => t.toToken
  | .string t => t.toToken
  | .char t => t.toToken
  | .true_ t => t.toToken
  | .false_ t => t.toToken
  | .name t => t.toToken
  | .call f _ _ _ => f.toToken
  | .element a _ _ _ => a.toToken
  | .member s _ _ => s.toToken
  | .group opening _ _ => opening.toToken

/-- The first token of an expression. -/
def Operation.first : Operation → Token
  | .operand a => a.first
  | .join a _ _ => a.first

mutual

/-- The tokens of an operand. -/
def Primary.tokens : Primary → List Token
  | .number t => [t.toToken]
  | .string t => [t.toToken]
  | .char t => [t.toToken]
  | .true_ t => [t.toToken]
  | .false_ t => [t.toToken]
  | .name t => [t.toToken]
  | .call f opening args closing =>
    f.toToken :: opening.toToken :: (args.tokens ++ [closing.toToken])
  | .element a opening index closing =>
    a.toToken :: opening.toToken :: (index.tokens ++ [closing.toToken])
  | .member s dot m => [s.toToken, dot.toToken, m.toToken]
  | .group opening items closing => opening.toToken :: (items.tokens ++ [closing.toToken])

/-- The tokens of an expression. -/
def Operation.tokens : Operation → List Token
  | .operand a => a.tokens
  | .join a op rest => a.tokens ++ op.toToken :: rest.tokens

/-- The tokens of a row. -/
def Row.tokens : Row → List Token
  | .single e => e.tokens
  | .cons e comma rest => e.tokens ++ comma.toToken :: rest.tokens

/-- The tokens of a row that may be missing. -/
def Contents.tokens : Contents → List Token
  | .empty => []
  | .row items => items.tokens

end

/-- The expression of a name. -/
def Name.tree (t : Name) : Expr := .identifier (.ofPayload t.value) t.pos

mutual

/-- The expression of an operand. A group is what it holds. -/
def Primary.tree : Primary → Expr
  | .number t => { kind := .int, value := .ofPayload t.value, pos := t.pos }
  | .string t => { kind := .string, value := .ofPayload t.value, pos := t.pos }
  | .char t => { kind := .char, value := .ofPayload t.value, pos := t.pos }
  | .true_ t => { kind := .bool, value := .bool true, pos := t.pos }
  | .false_ t => { kind := .bool, value := .bool false, pos := t.pos }
  | .name t => t.tree
  | .call f _ args closing =>
    { kind := .call, value := .ofPayload f.value, args := [args.tree closing.pos], pos := f.pos }
  | .element a _ index closing =>
    { kind := .arrayAcc, value := .ofPayload a.value, args := [index.tree closing.pos],
      pos := a.pos }
  | .member s _ m =>
    { kind := .structAcc, value := .ofPayload s.value, args := [m.tree], pos := s.pos }
  | .group _ items _ => items.tree

/-- Operators are of one precedence and associate to the right. -/
def Operation.tree : Operation → Expr
  | .operand a => a.tree
  | .join a op rest => .operation op.operator a.tree rest.tree op.pos

/-- A single expression is itself, more of them are a list. -/
def Row.tree : Row → Expr
  | .single e => e.tree
  | .cons e _ rest => { kind := .list, items := e.tree :: rest.trees, pos := e.first.pos }

/-- The expressions of a row. -/
def Row.trees : Row → List Expr
  | .single e => [e.tree]
  | .cons e _ rest => e.tree :: rest.trees

/-- Where nothing stands in front of a token at `pos`, the mark of an absent expression does. -/
def Contents.tree (pos : Pos) : Contents → Expr
  | .empty => .none pos
  | .row items => items.tree

end

/-! ## Declarations with a type -/

/-- A name with its type. -/
structure Typed where
  name : Name
  colon : Mark .colon
  type : TypeName

namespace Typed

/-- The name in the tree. -/
def text (t : Typed) : String := t.name.value.display

/-- The type in the tree. -/
def dataType (t : Typed) : DataType := .scalar t.type.scalar

/-- The tokens of a typed name. -/
def tokens (t : Typed) : List Token := [t.name.toToken, t.colon.toToken, t.type.toToken]

end Typed

/-- An initial value, if there is one. -/
inductive Initializer where
  | absent
  | assign (op : Assign) (value : Operation)

namespace Initializer

/-- The tokens of an initial value. -/
def tokens : Initializer → List Token
  | absent => []
  | assign op value => op.toToken :: value.tokens

/-- The assignment of an initial value to `target`; without one, the mark of an absent expression in
front of the token at `pos`. -/
def tree (target : Expr) (pos : Pos) : Initializer → Expr
  | absent => .none pos
  | assign op value => .operation .assign target value.tree op.pos

end Initializer

/-- A constant. -/
structure Constant where
  keyword : Word .const_
  head : Typed
  op : Assign
  value : Row
  semicolon : Mark .semicolon

namespace Constant

/-- The tokens of a constant. -/
def tokens (c : Constant) : List Token :=
  c.keyword.toToken :: (c.head.tokens ++ c.op.toToken :: (c.value.tokens ++ [c.semicolon.toToken]))

/-- The constant. -/
def tree (c : Constant) : TypedName := ⟨c.head.text, c.head.dataType, c.value.tree⟩

end Constant

/-! ## Statements -/

/-- What is assigned to. -/
inductive Target where
  | name (t : Name)
  | element (a : Name) (opening : Mark .lbracket) (index : Contents) (closing : Mark .rbracket)
  | member (s : Name) (dot : Mark .dot) (m : Name)

namespace Target

/-- The name that a target starts with. -/
def head : Target → Name
  | name t => t
  | element a _ _ _ => a
  | member s _ _ => s

/-- The tokens behind that name. -/
def suffix : Target → List Token
  | name _ => []
  | element _ opening index closing => opening.toToken :: (index.tokens ++ [closing.toToken])
  | member _ dot m => [dot.toToken, m.toToken]

/-- The expression of a target. -/
def tree : Target → Expr
  | name t => .identifier (.text t.value.display) t.pos
  | element a _ index closing =>
    { kind := .arrayAcc, value := .text a.value.display, args := [index.tree closing.pos],
      pos := a.pos }
  | member s _ m =>
    { kind := .structAcc, value := .text s.value.display, args := [m.tree], pos := s.pos }

end Target

mutual

/-- A statement. -/
inductive Statement where
  | variable_ (keyword : Word .var_) (head : Typed) (init : Initializer)
      (semicolon : Mark .semicolon)
  | array (keyword : Word .var_) (head : Typed) (opening : Mark .lbracket) (size : Contents)
      (closing : Mark .rbracket) (semicolon : Mark .semicolon)
  | constant (c : Constant)
  | struct (keyword : Word .struct_) (name : Name) (colon : Mark .colon) (type : Name)
      (semicolon : Mark .semicolon)
  | assignment (target : Target) (op : Assign) (value : Operation) (semicolon : Mark .semicolon)
  | call (name : Name) (opening : Mark .lparen) (args : Contents) (closing : Mark .rparen)
      (semicolon : Mark .semicolon)
  | return_ (keyword : Word .return_) (value : Contents) (semicolon : Mark .semicolon)
  | while_ (keyword : Word .while_) (condition : Row) (do_ : Word .do_) (body : Body)
      (end_ : Word .end_)
  | if_ (keyword : Word .if_) (condition : Row) (then_ : Word .then_) (body : Body)
      (clauses : Clauses)
  | break_ (keyword : Word .break_) (semicolon : Mark .semicolon)
  | continue_ (keyword : Word .continue_) (semicolon : Mark .semicolon)

/-- A row of statements. -/
inductive Body where
  | nil
  | cons (s : Statement) (rest : Body)

/-- The clauses of a conditional and its end. -/
inductive Clauses where
  | end_ (keyword : Word .end_)
  | else_ (keyword : Word .else_) (body : Body) (end_ : Word .end_)
  | elif (keyword : Word .elif_) (condition : Row) (then_ : Word .then_) (body : Body)
      (rest : Clauses)

end

mutual

/-- The tokens of a statement. -/
def Statement.tokens : Statement → List Token
  | .variable_ keyword head init semicolon =>
    keyword.toToken :: (head.tokens ++ (init.tokens ++ [semicolon.toToken]))
  | .array keyword head opening size closing semicolon =>
    keyword.toToken :: (head.tokens ++
      opening.toToken :: (size.tokens ++ [closing.toToken, semicolon.toToken]))
  | .constant c => c.tokens
  | .struct keyword name colon type semicolon =>
    [keyword.toToken, name.toToken, colon.toToken, type.toToken, semicolon.toToken]
  | .assignment target op value semicolon =>
    target.head.toToken :: (target.suffix ++ op.toToken :: (value.tokens ++ [semicolon.toToken]))
  | .call name opening args closing semicolon =>
    name.toToken :: opening.toToken :: (args.tokens ++ [closing.toToken, semicolon.toToken])
  | .return_ keyword value semicolon => keyword.toToken :: (value.tokens ++ [semicolon.toToken])
  | .while_ keyword condition do_ body end_ =>
    keyword.toToken :: (condition.tokens ++ do_.toToken :: (body.tokens ++ [end_.toToken]))
  | .if_ keyword condition then_ body clauses =>
    keyword.toToken :: (condition.tokens ++ then_.toToken :: (body.tokens ++ clauses.tokens))
  | .break_ keyword semicolon => [keyword.toToken, semicolon.toToken]
  | .continue_ keyword semicolon => [keyword.toToken, semicolon.toToken]

/-- The tokens of a row of statements. -/
def Body.tokens : Body → List Token
  | .nil => []
  | .cons s rest => s.tokens ++ rest.tokens

/-- The tokens of a chain of clauses. -/
def Clauses.tokens : Clauses → List Token
  | .end_ keyword => [keyword.toToken]
  | .else_ keyword body end_ => keyword.toToken :: (body.tokens ++ [end_.toToken])
  | .elif keyword condition then_ body rest =>
    keyword.toToken :: (condition.tokens ++ then_.toToken :: (body.tokens ++ rest.tokens))

end

mutual

/-- The statement, except that a constant leaves none. -/
def Statement.tree : Statement → Option Stmt
  | .variable_ keyword head init semicolon =>
    let target := Expr.identifier (.text head.text) head.name.pos
    some { kind := .varDec, name := head.text, dataType := head.dataType,
           expr := init.tree target semicolon.pos, pos := keyword.pos }
  | .array keyword head _ size closing _ =>
    some { kind := .arrayDec, name := head.text, dataType := head.dataType,
           expr := size.tree closing.pos, pos := keyword.pos }
  | .constant _ => none
  | .struct keyword name _ type _ =>
    some { kind := .structDec, name := name.value.display, expr := type.tree, pos := keyword.pos }
  | .assignment target op value _ =>
    some { kind := .exprStmt, expr := .operation .assign target.tree value.tree op.pos,
           pos := target.head.pos }
  | .call name _ args closing _ =>
    some { kind := .callStmt, name := name.value.display, expr := args.tree closing.pos,
           pos := name.pos }
  | .return_ keyword value semicolon =>
    some { kind := .return_, expr := value.tree semicolon.pos, pos := keyword.pos }
  | .while_ keyword condition _ body _ =>
    some { kind := .while_, expr := condition.tree, statements := [.block body.trees],
           pos := keyword.pos }
  | .if_ keyword condition _ body clauses =>
    some { kind := .if_, expr := condition.tree, statements := [.block body.trees],
           branches := clauses.trees, pos := keyword.pos }
  | .break_ keyword _ => some { kind := .break_, pos := keyword.pos }
  | .continue_ keyword _ => some { kind := .continue_, pos := keyword.pos }

/-- The statements of a row. -/
def Body.trees : Body → List Stmt
  | .nil => []
  | .cons s rest => s.tree.toList ++ rest.trees

/-- The clauses of a chain. -/
def Clauses.trees : Clauses → List Stmt
  | .end_ _ => []
  | .else_ keyword body _ =>
    [{ kind := .else_, statements := [.block body.trees], pos := keyword.pos }]
  | .elif keyword condition _ body rest =>
    { kind := .elif_, expr := condition.tree, statements := [.block body.trees],
      pos := keyword.pos } :: rest.trees

end

mutual

/-- The constants in a statement, in order. -/
def Statement.consts : Statement → List TypedName
  | .constant c => [c.tree]
  | .while_ _ _ _ body _ => body.consts
  | .if_ _ _ _ body clauses => body.consts ++ clauses.consts
  | .variable_ .. | .array .. | .struct .. | .assignment .. | .call .. | .return_ .. | .break_ ..
  | .continue_ .. => []

/-- The constants in a row of statements. -/
def Body.consts : Body → List TypedName
  | .nil => []
  | .cons s rest => s.consts ++ rest.consts

/-- The constants in a chain of clauses. -/
def Clauses.consts : Clauses → List TypedName
  | .end_ _ => []
  | .else_ _ body _ => body.consts
  | .elif _ _ _ body rest => body.consts ++ rest.consts

end

/-! ## Files -/

/-- Parameters with commas between them. -/
inductive Params where
  | single (p : Typed)
  | cons (p : Typed) (comma : Mark .comma) (rest : Params)

namespace Params

/-- The tokens of a row of parameters. -/
def tokens : Params → List Token
  | single p => p.tokens
  | cons p comma rest => p.tokens ++ comma.toToken :: rest.tokens

/-- The parameters. -/
def trees : Params → List TypedName
  | single p => [{ name := p.text, dataType := p.dataType }]
  | cons p _ rest => { name := p.text, dataType := p.dataType } :: rest.trees

end Params

/-- A parameter list, if there is one. -/
inductive ParamList where
  | absent
  | empty (opening : Mark .lparen) (closing : Mark .rparen)
  | params (opening : Mark .lparen) (row : Params) (closing : Mark .rparen)

namespace ParamList

/-- The tokens of a parameter list. -/
def tokens : ParamList → List Token
  | absent => []
  | empty opening closing => [opening.toToken, closing.toToken]
  | params opening row closing => opening.toToken :: (row.tokens ++ [closing.toToken])

/-- The parameters. -/
def trees : ParamList → List TypedName
  | absent | empty .. => []
  | params _ row _ => row.trees

end ParamList

/-- The type of a result, if there is one. -/
inductive ResultType where
  | absent
  | arrow (arrow : Mark .arrow) (type : TypeName)

namespace ResultType

/-- The tokens of a result type. -/
def tokens : ResultType → List Token
  | absent => []
  | arrow a type => [a.toToken, type.toToken]

/-- The type. -/
def tree : ResultType → DataType
  | absent => .void
  | arrow _ type => .scalar type.scalar

end ResultType

/-- A function. -/
structure FunctionDecl where
  keyword : Word .func_
  name : Name
  params : ParamList
  result : ResultType
  is_ : Word .is_
  body : Body
  end_ : Word .end_

namespace FunctionDecl

/-- The tokens of a function. -/
def tokens (f : FunctionDecl) : List Token :=
  f.keyword.toToken :: f.name.toToken :: (f.params.tokens ++ (f.result.tokens ++
    f.is_.toToken :: (f.body.tokens ++ [f.end_.toToken])))

/-- The function, with all constants of its body. -/
def tree (f : FunctionDecl) : Function :=
  { name := f.name.value.display, dataType := f.result.tree, args := f.params.trees,
    consts := f.body.consts, block := .block f.body.trees }

end FunctionDecl

/-- An item of a structure. -/
structure StructItem where
  head : Typed
  init : Initializer
  semicolon : Mark .semicolon

namespace StructItem

/-- The tokens of an item. -/
def tokens (i : StructItem) : List Token :=
  i.head.tokens ++ (i.init.tokens ++ [i.semicolon.toToken])

/-- The item. -/
def tree (i : StructItem) : TypedName :=
  ⟨i.head.text, i.head.dataType, i.init.tree i.head.name.tree i.semicolon.pos⟩

end StructItem

/-- A structure. -/
structure StructDecl where
  keyword : Word .struct_
  name : Name
  is_ : Word .is_
  items : List StructItem
  end_ : Word .end_

namespace StructDecl

/-- The tokens of a structure. -/
def tokens (s : StructDecl) : List Token :=
  s.keyword.toToken :: s.name.toToken :: s.is_.toToken ::
    (s.items.flatMap StructItem.tokens ++ [s.end_.toToken])

/-- The structure. -/
def tree (s : StructDecl) : Struct := ⟨s.name.value.display, s.items.map StructItem.tree⟩

end StructDecl

/-- Names with dots between them. -/
inductive Path where
  | single (n : Name)
  | cons (n : Name) (dot : Mark .dot) (rest : Path)

namespace Path

/-- The tokens of a path. -/
def tokens : Path → List Token
  | single n => [n.toToken]
  | cons n dot rest => n.toToken :: dot.toToken :: rest.tokens

/-- The names of a path. -/
def names : Path → List String
  | single n => [n.value.display]
  | cons n _ rest => n.value.display :: rest.names

end Path

/-- An import. -/
structure ImportDecl where
  keyword : Word .import_
  path : Path
  semicolon : Mark .semicolon

namespace ImportDecl

/-- The tokens of an import. -/
def tokens (i : ImportDecl) : List Token :=
  i.keyword.toToken :: (i.path.tokens ++ [i.semicolon.toToken])

/-- The path, with slashes. -/
def tree (i : ImportDecl) : String := "/".intercalate i.path.names

end ImportDecl

/-- A declaration. -/
inductive Declaration where
  | function (f : FunctionDecl)
  | struct (s : StructDecl)
  | constant (c : Constant)
  | importing (i : ImportDecl)

namespace Declaration

/-- The tokens of a declaration. -/
def tokens : Declaration → List Token
  | function f => f.tokens
  | struct s => s.tokens
  | constant c => c.tokens
  | importing i => i.tokens

/-- The function that is declared, if one is. -/
def function? : Declaration → Option Function
  | function f => some f.tree
  | _ => none

/-- The structure that is declared, if one is. -/
def struct? : Declaration → Option Struct
  | struct s => some s.tree
  | _ => none

/-- The constant that is declared, if one is. -/
def constant? : Declaration → Option TypedName
  | constant c => some c.tree
  | _ => none

/-- The path that is imported, if one is. -/
def path? : Declaration → Option String
  | importing i => some i.tree
  | _ => none

end Declaration

/-- A whole file: its declarations. -/
structure SourceFile where
  declarations : List Declaration

namespace SourceFile

/-- The tokens of a file. -/
def tokens (d : SourceFile) : List Token := d.declarations.flatMap Declaration.tokens

/-- The file, under a name: each class of declarations in order. -/
def tree (d : SourceFile) (name : String) : File :=
  { name
    functions := d.declarations.filterMap Declaration.function?
    structs := d.declarations.filterMap Declaration.struct?
    consts := d.declarations.filterMap Declaration.constant?
    imports := d.declarations.filterMap Declaration.path? }

end SourceFile

/-! ## No end mark

No token of a derivation is an end mark. -/

mutual

theorem Primary.ne_eof : (a : Primary) → ∀ t ∈ a.tokens, t.kind ≠ .eof
  | .number _ | .string _ | .char _ | .true_ _ | .false_ _ | .name _ | .member .. => by
    simp [Primary.tokens]
  | .call _ _ args _ => by
    have := args.ne_eof
    simpa [Primary.tokens, or_imp, forall_and] using this
  | .element _ _ index _ => by
    have := index.ne_eof
    simpa [Primary.tokens, or_imp, forall_and] using this
  | .group _ items _ => by
    have := items.ne_eof
    simpa [Primary.tokens, or_imp, forall_and] using this

theorem Operation.ne_eof : (e : Operation) → ∀ t ∈ e.tokens, t.kind ≠ .eof
  | .operand a => a.ne_eof
  | .join a _ rest => by
    have ha := a.ne_eof
    have hrest := rest.ne_eof
    simpa [Operation.tokens, or_imp, forall_and] using ⟨ha, hrest⟩

theorem Row.ne_eof : (r : Row) → ∀ t ∈ r.tokens, t.kind ≠ .eof
  | .single e => e.ne_eof
  | .cons e _ rest => by
    have he := e.ne_eof
    have hrest := rest.ne_eof
    simpa [Row.tokens, or_imp, forall_and] using ⟨he, hrest⟩

theorem Contents.ne_eof : (c : Contents) → ∀ t ∈ c.tokens, t.kind ≠ .eof
  | .empty => by simp [Contents.tokens]
  | .row items => items.ne_eof

end

theorem Typed.ne_eof (t : Typed) : ∀ u ∈ t.tokens, u.kind ≠ .eof := by simp [Typed.tokens]

theorem Initializer.ne_eof (i : Initializer) : ∀ u ∈ i.tokens, u.kind ≠ .eof := by
  cases i with
  | absent => simp [Initializer.tokens]
  | assign op value =>
    have := value.ne_eof
    simpa [Initializer.tokens] using this

theorem Constant.ne_eof (c : Constant) : ∀ u ∈ c.tokens, u.kind ≠ .eof := by
  have hhead := c.head.ne_eof
  have hvalue := c.value.ne_eof
  simpa [Constant.tokens, or_imp, forall_and] using ⟨hhead, hvalue⟩

theorem Target.ne_eof (t : Target) : ∀ u ∈ t.suffix, u.kind ≠ .eof := by
  cases t with
  | name t => simp [Target.suffix]
  | element a opening index closing =>
    have := index.ne_eof
    simpa [Target.suffix, or_imp, forall_and] using this
  | member s dot m => simp [Target.suffix]

mutual

theorem Statement.ne_eof : (s : Statement) → ∀ t ∈ s.tokens, t.kind ≠ .eof
  | .variable_ _ head init _ => by
    have hhead := head.ne_eof
    have hinit := init.ne_eof
    simpa [Statement.tokens, or_imp, forall_and] using ⟨hhead, hinit⟩
  | .array _ head _ size _ _ => by
    have hhead := head.ne_eof
    have hsize := size.ne_eof
    simpa [Statement.tokens, or_imp, forall_and] using ⟨hhead, hsize⟩
  | .constant c => c.ne_eof
  | .assignment target _ value _ => by
    have htarget := target.ne_eof
    have hvalue := value.ne_eof
    simpa [Statement.tokens, or_imp, forall_and] using ⟨htarget, hvalue⟩
  | .call _ _ args _ _ => by
    have := args.ne_eof
    simpa [Statement.tokens, or_imp, forall_and] using this
  | .return_ _ value _ => by
    have := value.ne_eof
    simpa [Statement.tokens, or_imp, forall_and] using this
  | .while_ _ condition _ body _ => by
    have hcondition := condition.ne_eof
    have hbody := body.ne_eof
    simpa [Statement.tokens, or_imp, forall_and] using ⟨hcondition, hbody⟩
  | .if_ _ condition _ body clauses => by
    have hcondition := condition.ne_eof
    have hbody := body.ne_eof
    have hclauses := clauses.ne_eof
    simpa [Statement.tokens, or_imp, forall_and] using ⟨hcondition, hbody, hclauses⟩
  | .struct .. | .break_ .. | .continue_ .. => by simp [Statement.tokens]

theorem Body.ne_eof : (b : Body) → ∀ t ∈ b.tokens, t.kind ≠ .eof
  | .nil => by simp [Body.tokens]
  | .cons s rest => by
    have hs := s.ne_eof
    have hrest := rest.ne_eof
    simpa [Body.tokens, or_imp, forall_and] using ⟨hs, hrest⟩

theorem Clauses.ne_eof : (c : Clauses) → ∀ t ∈ c.tokens, t.kind ≠ .eof
  | .end_ _ => by simp [Clauses.tokens]
  | .else_ _ body _ => by
    have := body.ne_eof
    simpa [Clauses.tokens, or_imp, forall_and] using this
  | .elif _ condition _ body rest => by
    have hcondition := condition.ne_eof
    have hbody := body.ne_eof
    have hrest := rest.ne_eof
    simpa [Clauses.tokens, or_imp, forall_and] using ⟨hcondition, hbody, hrest⟩

end

theorem Params.ne_eof (ps : Params) : ∀ t ∈ ps.tokens, t.kind ≠ .eof := by
  induction ps with
  | single p => exact p.ne_eof
  | cons p comma ps ih =>
    have := p.ne_eof
    simpa [Params.tokens, or_imp, forall_and] using ⟨this, ih⟩

theorem ParamList.ne_eof (l : ParamList) : ∀ t ∈ l.tokens, t.kind ≠ .eof := by
  cases l with
  | absent | empty => simp [ParamList.tokens]
  | params opening row closing =>
    have := row.ne_eof
    simpa [ParamList.tokens, or_imp, forall_and] using this

theorem ResultType.ne_eof (r : ResultType) : ∀ t ∈ r.tokens, t.kind ≠ .eof := by
  cases r <;> simp [ResultType.tokens]

theorem StructItem.ne_eof (i : StructItem) : ∀ t ∈ i.tokens, t.kind ≠ .eof := by
  have hhead := i.head.ne_eof
  have hinit := i.init.ne_eof
  simpa [StructItem.tokens, or_imp, forall_and] using ⟨hhead, hinit⟩

theorem Path.ne_eof (p : Path) : ∀ t ∈ p.tokens, t.kind ≠ .eof := by
  induction p with
  | single n => simp [Path.tokens]
  | cons n dot p ih => simpa [Path.tokens] using ih

theorem Declaration.ne_eof (d : Declaration) : ∀ t ∈ d.tokens, t.kind ≠ .eof := by
  cases d with
  | function f =>
    have hparams := f.params.ne_eof
    have hresult := f.result.ne_eof
    have hbody := f.body.ne_eof
    simpa [Declaration.tokens, FunctionDecl.tokens, or_imp, forall_and] using
      ⟨hparams, hresult, hbody⟩
  | struct s =>
    have hitems : ∀ t, ∀ i ∈ s.items, t ∈ i.tokens → t.kind ≠ .eof :=
      fun t i _ ht => i.ne_eof t ht
    simpa [Declaration.tokens, StructDecl.tokens, or_imp, forall_and] using hitems
  | constant c => exact c.ne_eof
  | importing i =>
    have := i.path.ne_eof
    simpa [Declaration.tokens, ImportDecl.tokens, or_imp, forall_and] using this

theorem SourceFile.ne_eof (d : SourceFile) : ∀ t ∈ d.tokens, t.kind ≠ .eof := by
  intro t ht
  obtain ⟨e, -, he⟩ := List.mem_flatMap.1 ht
  exact e.ne_eof t he

end ToyLang.Grammar
