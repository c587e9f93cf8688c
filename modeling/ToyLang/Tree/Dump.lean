import ToyLang.Json.Basic
import ToyLang.Tree.File

/-!
# Dumps of trees

Every node as a JSON object. Kinds and types are dumped by name; the rows of operands, items,
statements and clauses only where they are not empty.
-/

set_option autoImplicit false

namespace ToyLang

/-- The dump of a value. -/
def Value.toJson : Value → Json
  | absent => .null
  | bool b => .bool b
  | int n => .int n
  | text s => .str s

/-- A field for a row, if the row is not empty. -/
def rowField (name : String) (row : List Json) : List (String × Json) :=
  if row.isEmpty then [] else [(name, .arr row)]

/-- The fields for a position. -/
def Pos.fields (p : Pos) : List (String × Json) := [("line", .int p.line), ("col", .int p.col)]

namespace Expr

mutual

/-- The dump of an expression. -/
def toJson : Expr → Json
  | ⟨kind, value, args, items, pos⟩ =>
    .obj ([("kind", .str kind.name), ("value", value.toJson)] ++ pos.fields ++
      rowField "args" (toJsonAll args) ++ rowField "items" (toJsonAll items))

/-- The dumps of a row of expressions. -/
def toJsonAll : List Expr → List Json
  | [] => []
  | e :: es => toJson e :: toJsonAll es

end

theorem toJsonAll_eq_map (es : List Expr) : toJsonAll es = es.map toJson := by
  induction es with
  | nil => rfl
  | cons e es ih => rw [toJsonAll, ih, List.map_cons]

end Expr

namespace Stmt

mutual

/-- The dump of a statement. -/
def toJson : Stmt → Json
  | ⟨kind, name, dataType, expr, statements, branches, pos⟩ =>
    .obj ([("kind", .str kind.name), ("name", .str name), ("data_type", .str dataType.text),
        ("expr", expr.toJson)] ++ pos.fields ++
      rowField "statements" (toJsonAll statements) ++ rowField "branches" (toJsonAll branches))

/-- The dumps of a row of statements. -/
def toJsonAll : List Stmt → List Json
  | [] => []
  | s :: ss => toJson s :: toJsonAll ss

end

theorem toJsonAll_eq_map (ss : List Stmt) : toJsonAll ss = ss.map toJson := by
  induction ss with
  | nil => rfl
  | cons s ss ih => rw [toJsonAll, ih, List.map_cons]

end Stmt

/-- The dump of a typed name. -/
def TypedName.toJson (t : TypedName) : Json :=
  .obj [("name", .str t.name), ("data_type", .str t.dataType.text), ("expr", t.expr.toJson)]

/-- The dump of a function. -/
def Function.toJson (f : Function) : Json :=
  .obj [("name", .str f.name), ("data_type", .str f.dataType.text),
    ("args", .arr (f.args.map TypedName.toJson)), ("consts", .arr (f.consts.map TypedName.toJson)),
    ("block", f.block.toJson)]

/-- The dump of a structure. -/
def Struct.toJson (s : Struct) : Json :=
  .obj [("name", .str s.name), ("items", .arr (s.items.map TypedName.toJson))]

/-- The dump of a file. -/
def File.toJson (f : File) : Json :=
  .obj [("name", .str f.name), ("imports", .arr (f.imports.map .str)),
    ("consts", .arr (f.consts.map TypedName.toJson)),
    ("structs", .arr (f.structs.map Struct.toJson)),
    ("functions", .arr (f.functions.map Function.toJson))]

end ToyLang
