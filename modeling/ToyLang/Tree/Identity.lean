import ToyLang.Tree.File

/-!
# Sameness and fingerprints

Two trees are the same if they agree in everything but positions and the name of a file: `unplaced`
erases these, and `same` compares what is left. A fingerprint is a coarser view of a tree, for
finding it among others: it identifies truth values with numbers, and leaves out the clauses of
statements and the constants and bodies of functions. Trees that are the same have one fingerprint,
because `fingerprint` does not see what `unplaced` erases.
-/

set_option autoImplicit false

namespace ToyLang

/-! ## Expressions -/

namespace Expr

mutual

/-- The expression with every value and every position changed. -/
def mapNodes (onValue : Value → Value) (onPos : Pos → Pos) : Expr → Expr
  | ⟨kind, value, args, items, pos⟩ =>
    ⟨kind, onValue value, mapNodesAll onValue onPos args, mapNodesAll onValue onPos items, onPos pos⟩

/-- The same for every expression of a row. -/
def mapNodesAll (onValue : Value → Value) (onPos : Pos → Pos) : List Expr → List Expr
  | [] => []
  | e :: es => mapNodes onValue onPos e :: mapNodesAll onValue onPos es

end

theorem mapNodesAll_eq_map (f : Value → Value) (g : Pos → Pos) (es : List Expr) :
    mapNodesAll f g es = es.map (mapNodes f g) := by
  induction es with
  | nil => rfl
  | cons e es ih => rw [mapNodesAll, ih, List.map_cons]

/-- The expression without positions. -/
def unplaced (e : Expr) : Expr := e.mapNodes id fun _ => ⟨0, 0⟩

/-- Whether two expressions differ in positions only. -/
def same (a b : Expr) : Bool := a.unplaced = b.unplaced

/-- The coarse view of an expression. -/
def fingerprint (e : Expr) : Expr := e.mapNodes Value.numeric fun _ => ⟨0, 0⟩

end Expr

/-! ## Statements -/

namespace Stmt

mutual

/-- The statement without positions. -/
def unplaced : Stmt → Stmt
  | ⟨kind, name, dataType, expr, statements, branches, _⟩ =>
    ⟨kind, name, dataType, expr.unplaced, unplacedAll statements, unplacedAll branches, ⟨0, 0⟩⟩

/-- The same for every statement of a row. -/
def unplacedAll : List Stmt → List Stmt
  | [] => []
  | s :: ss => unplaced s :: unplacedAll ss

end

theorem unplacedAll_eq_map (ss : List Stmt) : unplacedAll ss = ss.map unplaced := by
  induction ss with
  | nil => rfl
  | cons s ss ih => rw [unplacedAll, ih, List.map_cons]

/-- Whether two statements differ in positions only. -/
def same (a b : Stmt) : Bool := a.unplaced = b.unplaced

mutual

/-- The coarse view of a statement. -/
def fingerprint : Stmt → Stmt
  | ⟨kind, name, dataType, expr, statements, _, _⟩ =>
    ⟨kind, name, dataType, expr.fingerprint, fingerprintAll statements, [], ⟨0, 0⟩⟩

/-- The same for every statement of a row. -/
def fingerprintAll : List Stmt → List Stmt
  | [] => []
  | s :: ss => fingerprint s :: fingerprintAll ss

end

theorem fingerprintAll_eq_map (ss : List Stmt) : fingerprintAll ss = ss.map fingerprint := by
  induction ss with
  | nil => rfl
  | cons s ss ih => rw [fingerprintAll, ih, List.map_cons]

end Stmt

/-! ## Declarations and files -/

namespace TypedName

/-- The typed name without positions. -/
def unplaced (t : TypedName) : TypedName := { t with expr := t.expr.unplaced }

/-- Whether two typed names differ in positions only. -/
def same (a b : TypedName) : Bool := a.unplaced = b.unplaced

/-- The coarse view of a typed name. -/
def fingerprint (t : TypedName) : TypedName := { t with expr := t.expr.fingerprint }

end TypedName

namespace Function

/-- The function without positions. -/
def unplaced (f : Function) : Function :=
  { f with
    args := f.args.map TypedName.unplaced
    consts := f.consts.map TypedName.unplaced
    block := f.block.unplaced }

/-- Whether two functions differ in positions only. -/
def same (a b : Function) : Bool := a.unplaced = b.unplaced

/-- The coarse view of a function: its name, type and parameters. -/
def fingerprint (f : Function) : Function :=
  { f with args := f.args.map TypedName.fingerprint, consts := [], block := .block [] }

end Function

namespace Struct

/-- The structure without positions. -/
def unplaced (s : Struct) : Struct := { s with items := s.items.map TypedName.unplaced }

/-- Whether two structures differ in positions only. -/
def same (a b : Struct) : Bool := a.unplaced = b.unplaced

/-- The coarse view of a structure. -/
def fingerprint (s : Struct) : Struct := { s with items := s.items.map TypedName.fingerprint }

end Struct

namespace File

/-- The file without positions and without its name. -/
def unplaced (f : File) : File :=
  { f with
    name := ""
    functions := f.functions.map Function.unplaced
    structs := f.structs.map Struct.unplaced
    consts := f.consts.map TypedName.unplaced }

/-- Whether two files differ in positions and their names only. -/
def same (a b : File) : Bool := a.unplaced = b.unplaced

/-- The coarse view of a file. -/
def fingerprint (f : File) : File :=
  { f with
    name := ""
    functions := f.functions.map Function.fingerprint
    structs := f.structs.map Struct.fingerprint
    consts := f.consts.map TypedName.fingerprint }

end File

/-! ## Nodes of any class -/

/-- A node of any class, so that nodes of different classes can be compared. -/
inductive Node where
  | expr (e : Expr)
  | stmt (s : Stmt)
  | typedName (t : TypedName)
  | function (f : Function)
  | struct (s : Struct)
  | file (f : File)
deriving DecidableEq

namespace Node

/-- The node without positions. -/
def unplaced : Node → Node
  | expr e => expr e.unplaced
  | stmt s => stmt s.unplaced
  | typedName t => typedName t.unplaced
  | function f => function f.unplaced
  | struct s => struct s.unplaced
  | file f => file f.unplaced

/-- Whether two nodes are of one class and differ in positions only. -/
def same (a b : Node) : Bool := a.unplaced = b.unplaced

/-- The coarse view of a node. -/
def fingerprint : Node → Node
  | expr e => expr e.fingerprint
  | stmt s => stmt s.fingerprint
  | typedName t => typedName t.fingerprint
  | function f => function f.fingerprint
  | struct s => struct s.fingerprint
  | file f => file f.fingerprint

end Node

end ToyLang
