import ToyLang.DataType
import ToyLang.Tree.Expr

/-!
# Statements

A statement is a node with a kind, a name, a data type, an expression, the statements inside it, the
clauses of its chain (`branches`) and a position. As with expressions nothing restricts what a kind
holds, and a kind is determined by its name.
-/

set_option autoImplicit false

namespace ToyLang

/-! ## Kinds -/

/-- The names of the kinds with a meaning. -/
def StmtKind.fixedNames : List String :=
  ["block", "var_dec", "array_dec", "struct_dec", "expr_stmt", "call_stmt", "return", "while", "if",
   "elif", "else", "break", "continue", "none", "const"]

/-- What a statement is. `none` marks a place where none could be read. -/
inductive StmtKind where
  | block | varDec | arrayDec | structDec | exprStmt | callStmt | return_ | while_ | if_ | elif_
  | else_ | break_ | continue_ | none | const_
  | other (name : String) (fresh : name ∉ StmtKind.fixedNames)
deriving DecidableEq

namespace StmtKind

/-- The name of the kind. -/
def name : StmtKind → String
  | block => "block"
  | varDec => "var_dec"
  | arrayDec => "array_dec"
  | structDec => "struct_dec"
  | exprStmt => "expr_stmt"
  | callStmt => "call_stmt"
  | return_ => "return"
  | while_ => "while"
  | if_ => "if"
  | elif_ => "elif"
  | else_ => "else"
  | break_ => "break"
  | continue_ => "continue"
  | none => "none"
  | const_ => "const"
  | other name _ => name

/-- Every kind with a meaning, in the order of their names. -/
def fixed : List StmtKind :=
  [block, varDec, arrayDec, structDec, exprStmt, callStmt, return_, while_, if_, elif_, else_,
   break_, continue_, none, const_]

/-- The kind with a given name. -/
def ofName (s : String) : StmtKind := Lexicon.named fixed name other s

theorem name_ofName (s : String) : (ofName s).name = s :=
  Lexicon.name_named (fun _ _ => rfl) s

theorem ofName_name (k : StmtKind) : ofName k.name = k := by
  cases k with
  | other n fresh => exact Lexicon.named_of_not_mem fresh
  | _ => exact Lexicon.named_name_of_find? (by decide)

theorem name_injective {k l : StmtKind} (h : k.name = l.name) : k = l := by
  rw [← ofName_name k, h, ofName_name]

end StmtKind

/-! ## Nodes -/

/-- A statement. -/
structure Stmt where
  kind : StmtKind
  name : String := ""
  dataType : DataType := .void
  expr : Expr := .none
  statements : List Stmt := []
  branches : List Stmt := []
  pos : Pos := ⟨0, 0⟩

namespace Stmt

/-- A row of statements as one. -/
def block (statements : List Stmt) : Stmt := { kind := .block, statements }

/-- The mark of a statement that could not be read. -/
def none (pos : Pos) : Stmt := { kind := .none, pos }

instance : Inhabited Stmt := ⟨none ⟨0, 0⟩⟩

mutual

/-- Equality of statements, position and all, is decidable. -/
def decideEq : (a b : Stmt) → Decidable (a = b)
  | ⟨k, n, t, e, ss, bs, p⟩, ⟨k', n', t', e', ss', bs', p'⟩ =>
    match decEq (k, n, t, e, p) (k', n', t', e', p'), decideEqAll ss ss', decideEqAll bs bs' with
    | isTrue h, isTrue hs, isTrue hb => isTrue (by cases h; rw [hs, hb])
    | isFalse h, _, _ => isFalse fun e => h (by cases e; rfl)
    | _, isFalse h, _ => isFalse fun e => h (congrArg Stmt.statements e)
    | _, _, isFalse h => isFalse fun e => h (congrArg Stmt.branches e)

/-- Equality of rows of statements is decidable. -/
def decideEqAll : (as bs : List Stmt) → Decidable (as = bs)
  | [], [] => isTrue rfl
  | [], _ :: _ => isFalse fun h => nomatch h
  | _ :: _, [] => isFalse fun h => nomatch h
  | a :: as, b :: bs =>
    match decideEq a b, decideEqAll as bs with
    | isTrue h, isTrue hs => isTrue (by rw [h, hs])
    | isFalse h, _ => isFalse fun e => h (List.cons.inj e).1
    | _, isFalse h => isFalse fun e => h (List.cons.inj e).2

end

instance : DecidableEq Stmt := decideEq

/-- The body of a loop or a clause. -/
def body (s : Stmt) : Except MissingPart Stmt :=
  match s.statements with
  | b :: _ => .ok b
  | [] => .error .child

end Stmt

end ToyLang
