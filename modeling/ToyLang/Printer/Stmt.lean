import ToyLang.Printer.Expr

/-!
# Printing statements

One statement a line; the body of a loop or a clause is one level deeper. A chain of clauses has one
end. The mark of a statement that could not be read prints nothing.
-/

set_option autoImplicit false

namespace ToyLang

open Printing

/-- The text of a typed name with a value. -/
def constText (name : String) (dataType : DataType) (value : String) : String :=
  s!"const {name} : {dataType.text} := {value};"

namespace Stmt

mutual

/-- Prints a statement. -/
def print : Stmt → Printing Unit
  | ⟨kind, name, dataType, expr, statements, branches, pos⟩ =>
    match kind with
    | .none => return ()
    | .block => printAll statements
    | .varDec => do line s!"var {name} : {dataType.text}{← expr.printInitializer};"
    | .arrayDec => do line s!"var {name} : {dataType.text}[{← expr.print}];"
    | .structDec => do line s!"struct {name} : {← expr.print};"
    | .exprStmt => do
      let target ← (← expr.operandToPrint .left).print
      let value ← (← expr.operandToPrint .right).print
      line s!"{target} := {value};"
    | .callStmt => do line s!"{name}({← expr.print});"
    | .return_ =>
      if expr.isNone then line "return;" else do line s!"return {← expr.print};"
    | .break_ => line "break;"
    | .continue_ => line "continue;"
    | .const_ => do line (constText name dataType (← expr.print))
    | .while_ => do
      line s!"while {← expr.print} do"
      printBody statements
      line "end"
    | .if_ => do
      line s!"if {← expr.print} then"
      printBody statements
      printAll branches
      line "end"
    | .elif_ => do
      line s!"elif {← expr.print} then"
      printBody statements
    | .else_ => do
      line "else"
      printBody statements
    | .other .. => throw (.noStmtForm kind pos)

/-- Prints a row of statements. -/
def printAll : List Stmt → Printing Unit
  | [] => return ()
  | s :: ss => do
    print s
    printAll ss

/-- Prints the first of a row as a body. -/
def printBody : List Stmt → Printing Unit
  | [] => throw (.missing .child)
  | s :: _ => nested (print s)

end

theorem printAll_eq_forM (ss : List Stmt) : printAll ss = ss.forM print := by
  induction ss with
  | nil => rfl
  | cons s ss ih =>
    rw [printAll, ih]
    rfl

end Stmt

end ToyLang
