import ToyLang.Printer.Page
import ToyLang.Text.Blank

/-!
# Texts of expressions

The canonical text of an expression, on one line. An operand that is an operation or a list of its
own, and a list inside a list, stand in parentheses: operators have no precedence among each other.
-/

set_option autoImplicit false

namespace ToyLang

/-- Text in parentheses. -/
def parenthesised (text : String) : String := "(" ++ text ++ ")"

namespace ExprKind

/-- Whether an operand of the kind needs parentheses. -/
def isCompound : ExprKind → Bool
  | operation _ | list => true
  | _ => false

/-- The symbol between the two operands of a node. -/
def symbol : ExprKind → Except PrintError String
  | operation o => .ok o.spelling
  | kind => .error (.noOperator kind)

end ExprKind

namespace Expr

/-- The text of an operand of a kind. -/
def asOperand (kind : ExprKind) (text : String) : String :=
  if kind.isCompound then parenthesised text else text

/-- The text of a list item of a kind. -/
def asItem (kind : ExprKind) (text : String) : String :=
  if kind = .list then parenthesised text else text

mutual

/-- The text of an expression. -/
def print : Expr → Except PrintError String
  | ⟨kind, value, args, items, _⟩ =>
    match kind with
    | .operation _ | .binary => do
      let (left, right) ← printOperands kind args
      return Text.trim (left ++ " " ++ (← kind.symbol) ++ " " ++ right)
    | .none => return ""
    | .int => return value.toText
    | .string => return "\x22" ++ value.toText ++ "\x22"
    | .char => return "\x27" ++ value.toText ++ "\x27"
    | .bool => return if value.isTrue then "true" else "false"
    | .identifier => return value.name
    | .list => return ", ".intercalate (← printItems items)
    | .call => return value.name ++ parenthesised (← printArg args)
    | .arrayAcc => return value.name ++ "[" ++ (← printArg args) ++ "]"
    | .structAcc =>
      match args with
      | member :: _ => return value.name ++ "." ++ member.value.name
      | [] => .error (.missing .child)
    | .other .. => .error (.noExprForm kind)

/-- The text of the first of a row. -/
def printArg : List Expr → Except PrintError String
  | [] => .error (.missing .child)
  | e :: _ => print e

/-- The texts of the two operands of a node. -/
def printOperands (kind : ExprKind) : List Expr → Except PrintError (String × String)
  | [] => .error (.missing (.operand kind 0 .left))
  | [_] => .error (.missing (.operand kind 1 .left))
  | left :: right :: _ => do
    return (asOperand left.kind (← print left), asOperand right.kind (← print right))

/-- The texts of the items of a list. -/
def printItems : List Expr → Except PrintError (List String)
  | [] => return []
  | e :: es => do return asItem e.kind (← print e) :: (← printItems es)

end

/-- The text of an expression as an operand. -/
def printOperand (e : Expr) : Except PrintError String := return asOperand e.kind (← e.print)

/-- The text of an expression as a list item. -/
def printItem (e : Expr) : Except PrintError String := return asItem e.kind (← e.print)

/-- One operand of a node, to be printed. -/
def operandToPrint (e : Expr) (side : Side) : Except PrintError Expr :=
  (e.operand side).mapError .missing

/-- The text of the value that a declaration gives, if it gives one. -/
def printInitializer (e : Expr) : Except PrintError String := do
  if e.isNone then return ""
  let value ← if e.kind = .operation .assign then e.operandToPrint .right else pure e
  return " := " ++ (← value.print)

end Expr

end ToyLang
