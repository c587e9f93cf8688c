import ToyLang.Printer.Stmt

/-!
# Printing files

Imports come first, then constants, structures and functions, each in their order, with an empty
line behind the first two together and behind every structure and function but the last one. The
constants of a function stand at the top of its body.
-/

set_option autoImplicit false

namespace ToyLang

open Printing

/-- Prints a constant. -/
def TypedName.printConst (t : TypedName) : Printing Unit := do
  line (constText t.name t.dataType (← t.expr.print))

/-- The text of a name and its type. -/
def TypedName.typed (t : TypedName) : String := s!"{t.name} : {t.dataType.text}"

/-- Prints an item of a structure. -/
def TypedName.printItem (t : TypedName) : Printing Unit := do
  line (t.typed ++ (← t.expr.printInitializer) ++ ";")

/-- Prints a structure. -/
def Struct.print (s : Struct) : Printing Unit := do
  line s!"struct {s.name} is"
  nested (s.items.forM TypedName.printItem)
  line "end"

/-- The first line of a function. -/
def Function.header (f : Function) : String :=
  let params :=
    if f.args.isEmpty then "" else parenthesised (", ".intercalate (f.args.map TypedName.typed))
  let result := if f.dataType = .void then "" else " -> " ++ f.dataType.text
  s!"func {f.name}{params}{result} is"

/-- Prints a function. -/
def Function.print (f : Function) : Printing Unit := do
  line f.header
  nested do
    f.consts.forM TypedName.printConst
    f.block.print
  line "end"

/-- The text of an import. -/
def importText (path : String) : String :=
  "import " ++ path.map (fun c => if c = '/' then '.' else c) ++ ";"

/-- Prints a file. -/
def File.print (f : File) : Printing Unit := do
  f.imports.forM fun path => line (importText path)
  f.consts.forM TypedName.printConst
  unless f.imports.isEmpty && f.consts.isEmpty do gap
  f.structs.forM fun s => do
    s.print
    gap
  f.functions.forM fun g => do
    g.print
    gap
  modify Page.dropGaps

/-- The canonical text of a file. -/
def File.unparse (f : File) : Except PrintError String :=
  let r := f.print.runOn {}
  r.1.map fun _ => r.2.text

end ToyLang
