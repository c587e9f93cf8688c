import ToyLang.Tree.File

/-!
# Displays of trees

A short text for every node, for messages and inspection: the class and in parentheses what the node
holds. Absent parts are left out; a statement shows the first three statements inside it.
-/

set_option autoImplicit false

namespace ToyLang

/-- A class and its parts. -/
def displayParts (class_ : String) (parts : List String) : String :=
  class_ ++ "(" ++ ", ".intercalate parts ++ ")"

namespace Expr

mutual

/-- The display of an expression. -/
def display : Expr → String
  | ⟨kind, value, args, items, _⟩ =>
    displayParts "AstExpression" <|
      [kind.name] ++
      (if value = .absent then [] else ["value=" ++ value.display]) ++
      (if args.isEmpty then [] else ["args=" ++ Text.bracketed (displayAll args)]) ++
      (if items.isEmpty then [] else ["items=" ++ Text.bracketed (displayAll items)])

/-- The displays of a row of expressions. -/
def displayAll : List Expr → List String
  | [] => []
  | e :: es => display e :: displayAll es

end

end Expr

namespace Stmt

/-- The first three displays of a row, and a mark where there are more. -/
def preview (displays : List String) : List String :=
  displays.take 3 ++ (if 3 < displays.length then ["..."] else [])

mutual

/-- The display of a statement. -/
def display : Stmt → String
  | ⟨kind, name, dataType, expr, statements, branches, _⟩ =>
    displayParts "AstStatement" <|
      [kind.name] ++
      (if name = "" then [] else ["name=" ++ Text.quoted name]) ++
      (if dataType = .void then [] else ["data_type=" ++ dataType.name]) ++
      (if expr.isNone then [] else ["expr=" ++ expr.display]) ++
      (if statements.isEmpty then []
        else ["statements=" ++ Text.bracketed (preview (displayAll statements))]) ++
      (if branches.isEmpty then [] else ["branches=" ++ Text.bracketed (displayAll branches)])

/-- The displays of a row of statements. -/
def displayAll : List Stmt → List String
  | [] => []
  | s :: ss => display s :: displayAll ss

end

end Stmt

/-- The display of a typed name. -/
def TypedName.display (t : TypedName) : String :=
  displayParts "AstArg" [Text.quoted t.name, t.dataType.name, t.expr.display]

/-- The display of a function. -/
def Function.display (f : Function) : String :=
  displayParts "AstFunction"
    [Text.quoted f.name, "data_type=" ++ f.dataType.name,
     "args=" ++ Text.bracketed (f.args.map TypedName.display), "block=" ++ f.block.display]

/-- The display of a structure. -/
def Struct.display (s : Struct) : String :=
  displayParts "AstStruct"
    [Text.quoted s.name, "items=" ++ Text.bracketed (s.items.map TypedName.display)]

/-- The display of a file: its name and those of its functions. -/
def File.display (f : File) : String :=
  displayParts "AstFile"
    [Text.quoted f.name,
     "functions=" ++ Text.bracketed (f.functions.map fun g => Text.quoted g.name)]

end ToyLang
