import ToyLang.Token.Basic

/-!
# Diagnostics

A diagnostic is a problem of some kind with a message, a position and perhaps the token it was seen
at. A collector keeps diagnostics in the order of their report; a collector that fails fast refuses
to go on after a report, which it keeps as well.
-/

set_option autoImplicit false

namespace ToyLang

/-- What is wrong. -/
inductive ProblemKind where
  | unexpectedToplevel | malformedFunction | malformedStruct | malformedStatement
  | malformedExpression | unknownDataType
deriving DecidableEq, Repr

namespace ProblemKind

/-- Every kind, in the order of their numbers. -/
def all : List ProblemKind :=
  [unexpectedToplevel, malformedFunction, malformedStruct, malformedStatement, malformedExpression,
   unknownDataType]

/-- The name of the kind. -/
def name : ProblemKind → String
  | unexpectedToplevel => "UNEXPECTED_TOPLEVEL"
  | malformedFunction => "MALFORMED_FUNCTION"
  | malformedStruct => "MALFORMED_STRUCT"
  | malformedStatement => "MALFORMED_STATEMENT"
  | malformedExpression => "MALFORMED_EXPRESSION"
  | unknownDataType => "UNKNOWN_DATA_TYPE"

/-- The kind in messages. -/
def label : ProblemKind → String
  | unexpectedToplevel => "unexpected-toplevel"
  | malformedFunction => "malformed-function"
  | malformedStruct => "malformed-struct"
  | malformedStatement => "malformed-statement"
  | malformedExpression => "malformed-expression"
  | unknownDataType => "unknown-data-type"

/-- The number of the kind, from one. -/
def number (k : ProblemKind) : Nat := all.idxOf k + 1

/-- The kind with a given name. -/
def ofName? (s : String) : Option ProblemKind := Lexicon.find? all name s

theorem ofName?_name (k : ProblemKind) : ofName? k.name = some k := by cases k <;> decide

theorem ofName?_eq_some_iff {s : String} {k : ProblemKind} : ofName? s = some k ↔ k.name = s :=
  Lexicon.find?_eq_some_iff ofName?_name

end ProblemKind

/-- A reported problem. -/
structure Diagnostic where
  kind : ProblemKind
  message : String
  pos : Pos := ⟨0, 0⟩
  token : Option Token := none
deriving DecidableEq

namespace Diagnostic

/-- A problem seen at a token, or at no position. -/
def seenAt (kind : ProblemKind) (message : String) (token : Option Token) : Diagnostic :=
  ⟨kind, message, (token.map Token.pos).getD ⟨0, 0⟩, token⟩

/-- The diagnostic in words. -/
def text (d : Diagnostic) : String :=
  let got := match d.token with
    | some t => s!" (got {t.display})"
    | none => ""
  s!"{d.pos.line}:{d.pos.col}: error[{d.kind.label}]: {d.message}{got}"

end Diagnostic

/-- The diagnostics reported so far. -/
structure Diagnostics where
  failFast : Bool := false
  items : Array Diagnostic := #[]

namespace Diagnostics

/-- Keeps a diagnostic. -/
def record (ds : Diagnostics) (d : Diagnostic) : Diagnostics :=
  { ds with items := ds.items.push d }

/-- Keeps a diagnostic, and refuses to go on if the collector fails fast. -/
def report (ds : Diagnostics) (d : Diagnostic) : Except Diagnostic Unit × Diagnostics :=
  (if ds.failFast then .error d else .ok (), ds.record d)

/-- Whether anything was reported. -/
def hasErrors (ds : Diagnostics) : Bool := !ds.items.isEmpty

/-- The diagnostics as lines of output. -/
def render (ds : Diagnostics) : String :=
  "\n".intercalate (ds.items.toList.map fun d => "Error: " ++ d.text)

/-- The diagnostic at an index; a negative index counts from the end. -/
def get? (ds : Diagnostics) (index : Int) : Option Diagnostic :=
  let i := if index < 0 then ds.items.size + index else index
  if 0 ≤ i then ds.items[i.toNat]? else none

end Diagnostics

end ToyLang
