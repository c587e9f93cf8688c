import ToyLang.Tree.Value

/-!
# Expressions

An expression is a node with a kind, a value, operands (`args`), the members of a list (`items`) and
a position. Nodes are not restricted: any kind may hold anything, and a kind from outside is held by
its name, which is none of the fixed ones, so that a kind is determined by its name. `arg` and
`operand` read the operands that a kind promises and say what is missing.
-/

set_option autoImplicit false

namespace ToyLang

/-! ## Kinds -/

/-- The names of the kinds with a meaning. -/
def ExprKind.fixedNames : List String :=
  Operator.all.map Operator.name ++
    ["none", "int", "string", "char", "bool", "identifier", "list", "call", "array_acc",
     "struct_acc", "binary"]

/-- What an expression is. `none` marks the absence of one; `binary` names operations as such and
stands for no operator. -/
inductive ExprKind where
  | operation (o : Operator)
  | none
  | int
  | string
  | char
  | bool
  | identifier
  | list
  | call
  | arrayAcc
  | structAcc
  | binary
  | other (name : String) (fresh : name ∉ ExprKind.fixedNames)
deriving DecidableEq

namespace ExprKind

/-- The name of the kind. -/
def name : ExprKind → String
  | operation o => o.name
  | none => "none"
  | int => "int"
  | string => "string"
  | char => "char"
  | bool => "bool"
  | identifier => "identifier"
  | list => "list"
  | call => "call"
  | arrayAcc => "array_acc"
  | structAcc => "struct_acc"
  | binary => "binary"
  | other name _ => name

/-- Every kind with a meaning, in the order of their names. -/
def fixed : List ExprKind :=
  Operator.all.map operation ++
    [none, int, string, char, bool, identifier, list, call, arrayAcc, structAcc, binary]

/-- The kind with a given name. -/
def ofName (s : String) : ExprKind := Lexicon.named fixed name other s

theorem name_ofName (s : String) : (ofName s).name = s :=
  Lexicon.name_named (fun _ _ => rfl) s

theorem ofName_name (k : ExprKind) : ofName k.name = k := by
  cases k with
  | operation o => exact Lexicon.named_name_of_find? (by cases o <;> decide)
  | other n fresh => exact Lexicon.named_of_not_mem fresh
  | _ => exact Lexicon.named_name_of_find? (by decide)

theorem name_injective {k l : ExprKind} (h : k.name = l.name) : k = l := by
  rw [← ofName_name k, h, ofName_name]

end ExprKind

/-! ## Nodes -/

/-- An expression. -/
structure Expr where
  kind : ExprKind
  value : Value := .absent
  args : List Expr := []
  items : List Expr := []
  pos : Pos := ⟨0, 0⟩

namespace Expr

/-- The mark of an absent expression. -/
def none (pos : Pos := ⟨0, 0⟩) : Expr := { kind := .none, pos }

/-- Whether the expression is the mark of an absent one. -/
def isNone (e : Expr) : Bool := e.kind = .none

instance : Inhabited Expr := ⟨none⟩

/-- An identifier. -/
def identifier (name : Value) (pos : Pos) : Expr := { kind := .identifier, value := name, pos }

/-- An operator with its two operands. -/
def operation (o : Operator) (left right : Expr) (pos : Pos) : Expr :=
  { kind := .operation o, args := [left, right], pos }

mutual

/-- Equality of expressions, position and all, is decidable. -/
def decideEq : (a b : Expr) → Decidable (a = b)
  | ⟨k, v, as, is, p⟩, ⟨k', v', as', is', p'⟩ =>
    match decEq k k', decEq v v', decEq p p', decideEqAll as as', decideEqAll is is' with
    | isTrue hk, isTrue hv, isTrue hp, isTrue ha, isTrue hi => isTrue (by subst_vars; rfl)
    | isFalse h, _, _, _, _ => isFalse fun e => h (congrArg Expr.kind e)
    | _, isFalse h, _, _, _ => isFalse fun e => h (congrArg Expr.value e)
    | _, _, isFalse h, _, _ => isFalse fun e => h (congrArg Expr.pos e)
    | _, _, _, isFalse h, _ => isFalse fun e => h (congrArg Expr.args e)
    | _, _, _, _, isFalse h => isFalse fun e => h (congrArg Expr.items e)

/-- Equality of rows of expressions is decidable. -/
def decideEqAll : (as bs : List Expr) → Decidable (as = bs)
  | [], [] => isTrue rfl
  | [], _ :: _ => isFalse fun h => nomatch h
  | _ :: _, [] => isFalse fun h => nomatch h
  | a :: as, b :: bs =>
    match decideEq a b, decideEqAll as bs with
    | isTrue h, isTrue hs => isTrue (by rw [h, hs])
    | isFalse h, _ => isFalse fun e => h (List.cons.inj e).1
    | _, isFalse h => isFalse fun e => h (List.cons.inj e).2

end

instance : DecidableEq Expr := decideEq

end Expr

/-! ## Operands -/

/-- A side of an operator. -/
inductive Side where
  | left | right
deriving DecidableEq

/-- The word for what stands on a side. -/
def Side.name : Side → String
  | left => "lval"
  | right => "rval"

/-- What a node does not hold. -/
inductive MissingPart where
  | child
  | operand (kind : ExprKind) (count : Nat) (side : Side)
deriving DecidableEq

/-- The error in words. -/
def MissingPart.message : MissingPart → String
  | child => "tuple index out of range"
  | operand kind count side => s!"{kind.name} node has {count} operand(s), {side.name} needs 2"

namespace Expr

/-- The argument of a call or an access. -/
def arg (e : Expr) : Except MissingPart Expr :=
  match e.args with
  | a :: _ => .ok a
  | [] => .error .child

/-- The operand on one side of an operator; a node with fewer than two has neither. -/
def operand (e : Expr) (side : Side) : Except MissingPart Expr :=
  match e.args, side with
  | l :: _ :: _, .left => .ok l
  | _ :: r :: _, .right => .ok r
  | args, side => .error (.operand e.kind args.length side)

end Expr

end ToyLang
