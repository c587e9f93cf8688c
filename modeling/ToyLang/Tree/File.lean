import ToyLang.Tree.Stmt

/-!
# Declarations and files

A file holds functions, structures, constants and imported paths, each kind in the order of
declaration. A constant of a function belongs to the function, wherever in its body it stands.
-/

set_option autoImplicit false

namespace ToyLang

/-- A name with a type and perhaps a value: a parameter, a structure item or a constant. -/
structure TypedName where
  name : String
  dataType : DataType
  expr : Expr := .none
deriving DecidableEq, Inhabited

/-- A function. -/
structure Function where
  name : String
  dataType : DataType := .void
  args : List TypedName := []
  consts : List TypedName := []
  block : Stmt
deriving DecidableEq, Inhabited

/-- A structure. -/
structure Struct where
  name : String
  items : List TypedName := []
deriving DecidableEq, Inhabited

/-- A whole source file. An imported path is written with slashes. -/
structure File where
  name : String := ""
  functions : List Function := []
  structs : List Struct := []
  consts : List TypedName := []
  imports : List String := []
deriving DecidableEq, Inhabited

end ToyLang
