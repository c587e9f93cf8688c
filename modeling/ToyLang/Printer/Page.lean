import ToyLang.Tree.File

/-!
# Pages

A page is what has been printed so far: its lines and the indentation of the next one. Printing is
a computation on a page that may fail; the page then stays as it is at the failure.
-/

set_option autoImplicit false

namespace ToyLang

/-- Why a tree cannot be printed. -/
inductive PrintError where
  | missing (part : MissingPart)
  | noExprForm (kind : ExprKind)
  | noStmtForm (kind : StmtKind) (pos : Pos)
  | noOperator (kind : ExprKind)
deriving DecidableEq

/-- The error in words. -/
def PrintError.message : PrintError → String
  | missing part => part.message
  | noExprForm kind => s!"No expression emitter for kind '{kind.name}'"
  | noStmtForm kind pos =>
    s!"No emitter method for node kind '{kind.name}' (line {pos.line}, col {pos.col})"
  | noOperator kind => Text.quoted kind.name

/-- What has been printed: the lines, and how many levels the next one is indented. -/
structure Page where
  lines : Array String := #[]
  indent : Int := 0
deriving DecidableEq

/-- A computation on a page. -/
abbrev Printing := ExceptT PrintError (StateM Page)

namespace Page

/-- The blanks at the start of an indented line: four a level. -/
def indentation (p : Page) : String := String.ofList (List.replicate (4 * p.indent.toNat) ' ')

/-- The page with one more line, indented. -/
def addLine (p : Page) (text : String) : Page :=
  { p with lines := p.lines.push (p.indentation ++ text) }

/-- The page with one more line, empty whatever the indentation. -/
def addGap (p : Page) : Page := { p with lines := p.lines.push "" }

/-- The lines without the empty ones at the end. -/
def dropGaps (p : Page) : Page := { p with lines := p.lines.popWhile (· = "") }

/-- The page with its indentation moved by some levels. -/
def shift (p : Page) (levels : Int) : Page := { p with indent := p.indent + levels }

/-- The text of the page. -/
def text (p : Page) : String :=
  if p.lines.isEmpty then "" else "\n".intercalate p.lines.toList ++ "\n"

end Page

namespace Printing

/-- Prints an indented line. -/
def line (text : String) : Printing Unit := modify (·.addLine text)

/-- Prints an empty line. -/
def gap : Printing Unit := modify Page.addGap

/-- Prints one level deeper. -/
def nested (body : Printing Unit) : Printing Unit := do
  modify (·.shift 1)
  body
  modify (·.shift (-1))

/-- Runs a computation on a page. -/
def runOn {α : Type} (p : Printing α) (page : Page) : Except PrintError α × Page := p.run.run page

end Printing

end ToyLang
