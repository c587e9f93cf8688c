import Mathlib.Data.List.Forall2
import ToyLang.Proofs.Placement.Builder

/-!
# Agreement of trees, field by field

Two trees are compared at a `Precision`: everything counts, or everything but positions and the
names of files, or only what a fingerprint sees. `Node.Agrees p` compares the fields of two nodes
and those of their parts, at every level. The view of a tree at a precision is the tree itself, the
tree without positions (`unplaced`), or its `fingerprint`.

* `Node.agrees_iff`: two nodes agree if and only if they have one view;
* `Node.Agrees.coarsen`: nodes that are the same agree in all that fingerprints see.
-/

set_option autoImplicit false

namespace ToyLang

/-- How closely two trees are compared. -/
inductive Precision where
  /-- Everything counts. -/
  | identical
  /-- Everything counts but positions and the names of files. -/
  | same
  /-- Nor do the clauses of statements count, nor the constants and bodies of functions, and truth
  values count as numbers. -/
  | coarse
deriving DecidableEq

namespace Precision

/-- What counts of a value. -/
def value : Precision → Value → Value
  | coarse => Value.numeric
  | _ => id

/-- What counts of a position. -/
def pos : Precision → Pos → Pos
  | identical => id
  | _ => fun _ => ⟨0, 0⟩

/-- What counts of the name of a file. -/
def name : Precision → String → String
  | identical => id
  | _ => fun _ => ""

end Precision

/-! ## Rows -/

section
variable {α β : Type} {as bs : List α}

/-- Rows that are related member by member are related by whatever is implied. -/
theorem forall₂_mono_mem {R S : α → α → Prop} (h : ∀ a ∈ as, ∀ b, R a b → S a b)
    (hr : List.Forall₂ R as bs) : List.Forall₂ S as bs := by
  induction hr with
  | nil => exact .nil
  | cons hab _ ih =>
    exact .cons (h _ List.mem_cons_self _ hab) (ih fun c hc => h c (List.mem_cons_of_mem _ hc))

theorem forall₂_congr_mem {R S : α → α → Prop} (h : ∀ a ∈ as, ∀ b, R a b ↔ S a b) :
    List.Forall₂ R as bs ↔ List.Forall₂ S as bs :=
  ⟨forall₂_mono_mem fun a ha b => (h a ha b).1, forall₂_mono_mem fun a ha b => (h a ha b).2⟩

/-- Rows whose members are related as their images under `f` are equal. -/
theorem forall₂_iff_map_eq {R : α → α → Prop} {f : α → β} (h : ∀ a ∈ as, ∀ b, R a b ↔ f a = f b) :
    List.Forall₂ R as bs ↔ as.map f = bs.map f := by
  rw [forall₂_congr_mem h, ← List.forall₂_eq_eq_eq, List.forall₂_map_left_iff,
    List.forall₂_map_right_iff]

end

variable {p : Precision}

/-! ## Expressions -/

namespace Expr

mutual

/-- The expressions agree in every field that counts, and so do their parts. -/
def Agrees (p : Precision) : Expr → Expr → Prop
  | ⟨kind, value, args, items, pos⟩, ⟨kind', value', args', items', pos'⟩ =>
    kind = kind' ∧ p.value value = p.value value' ∧ AgreesAll p args args' ∧
      AgreesAll p items items' ∧ p.pos pos = p.pos pos'

/-- The same for every two expressions at one place of two rows of one length. -/
def AgreesAll (p : Precision) : List Expr → List Expr → Prop
  | [], [] => True
  | a :: as, b :: bs => Agrees p a b ∧ AgreesAll p as bs
  | _, _ => False

end

theorem agreesAll_iff {as bs : List Expr} : AgreesAll p as bs ↔ List.Forall₂ (Agrees p) as bs := by
  induction as generalizing bs with
  | nil => cases bs <;> simp [AgreesAll]
  | cons a as ih => cases bs <;> simp [AgreesAll, ih]

theorem agrees_mk {kind kind' : ExprKind} {value value' : Value}
    {args args' items items' : List Expr} {pos pos' : Pos} :
    Agrees p ⟨kind, value, args, items, pos⟩ ⟨kind', value', args', items', pos'⟩ ↔
      kind = kind' ∧ p.value value = p.value value' ∧ List.Forall₂ (Agrees p) args args' ∧
        List.Forall₂ (Agrees p) items items' ∧ p.pos pos = p.pos pos' := by
  rw [Agrees, agreesAll_iff, agreesAll_iff]

/-- What counts of an expression. -/
def view : Precision → Expr → Expr
  | .identical => id
  | .same => unplaced
  | .coarse => fingerprint

theorem fingerprint_mk (kind : ExprKind) (value : Value) (args items : List Expr) (pos : Pos) :
    (mk kind value args items pos).fingerprint =
      ⟨kind, value.numeric, args.map fingerprint, items.map fingerprint, ⟨0, 0⟩⟩ := by
  simp only [fingerprint, mapNodes, mapNodesAll_eq_map]
  rfl

theorem view_mk (kind : ExprKind) (value : Value) (args items : List Expr) (pos : Pos) :
    (mk kind value args items pos).view p =
      ⟨kind, p.value value, args.map (view p), items.map (view p), p.pos pos⟩ := by
  cases p with
  | identical => simp [view, Precision.value, Precision.pos]
  | same => exact unplaced_mk ..
  | coarse => exact fingerprint_mk ..

/-- Expressions agree if and only if they have one view. -/
theorem agrees_iff : (a b : Expr) → (a.Agrees p b ↔ a.view p = b.view p)
  | ⟨kind, value, args, items, pos⟩, ⟨kind', value', args', items', pos'⟩ => by
    have hargs : List.Forall₂ (Agrees p) args args' ↔ args.map (view p) = args'.map (view p) :=
      forall₂_iff_map_eq fun a _ b => agrees_iff a b
    have hitems : List.Forall₂ (Agrees p) items items' ↔ items.map (view p) = items'.map (view p) :=
      forall₂_iff_map_eq fun a _ b => agrees_iff a b
    rw [agrees_mk, view_mk, view_mk, mk.injEq, hargs, hitems]

theorem Agrees.coarsen : (a b : Expr) → a.Agrees .same b → a.Agrees .coarse b
  | ⟨_, _, args, items, _⟩, ⟨_, _, args', items', _⟩, h => by
    obtain ⟨hkind, hvalue, hargs, hitems, hpos⟩ := agrees_mk.1 h
    have hargs' : List.Forall₂ (Agrees .coarse) args args' :=
      forall₂_mono_mem (fun a _ b => coarsen a b) hargs
    have hitems' : List.Forall₂ (Agrees .coarse) items items' :=
      forall₂_mono_mem (fun a _ b => coarsen a b) hitems
    exact agrees_mk.2 ⟨hkind, congrArg Value.numeric hvalue, hargs', hitems', hpos⟩

end Expr

/-! ## Statements -/

namespace Stmt

mutual

/-- The statements agree in every field that counts, and so do their parts. -/
def Agrees (p : Precision) : Stmt → Stmt → Prop
  | ⟨kind, name, dataType, expr, statements, branches, pos⟩,
    ⟨kind', name', dataType', expr', statements', branches', pos'⟩ =>
    kind = kind' ∧ name = name' ∧ dataType = dataType' ∧ expr.Agrees p expr' ∧
      AgreesAll p statements statements' ∧ (p ≠ .coarse → AgreesAll p branches branches') ∧
      p.pos pos = p.pos pos'

/-- The same for every two statements at one place of two rows of one length. -/
def AgreesAll (p : Precision) : List Stmt → List Stmt → Prop
  | [], [] => True
  | a :: as, b :: bs => Agrees p a b ∧ AgreesAll p as bs
  | _, _ => False

end

theorem agreesAll_iff {as bs : List Stmt} : AgreesAll p as bs ↔ List.Forall₂ (Agrees p) as bs := by
  induction as generalizing bs with
  | nil => cases bs <;> simp [AgreesAll]
  | cons a as ih => cases bs <;> simp [AgreesAll, ih]

theorem agrees_mk {kind kind' : StmtKind} {name name' : String} {dataType dataType' : DataType}
    {expr expr' : Expr} {statements statements' branches branches' : List Stmt} {pos pos' : Pos} :
    Agrees p ⟨kind, name, dataType, expr, statements, branches, pos⟩
        ⟨kind', name', dataType', expr', statements', branches', pos'⟩ ↔
      kind = kind' ∧ name = name' ∧ dataType = dataType' ∧ expr.Agrees p expr' ∧
        List.Forall₂ (Agrees p) statements statements' ∧
        (p ≠ .coarse → List.Forall₂ (Agrees p) branches branches') ∧ p.pos pos = p.pos pos' := by
  rw [Agrees, agreesAll_iff, agreesAll_iff]

/-- What counts of a statement. -/
def view : Precision → Stmt → Stmt
  | .identical => id
  | .same => unplaced
  | .coarse => fingerprint

theorem view_mk (kind : StmtKind) (name : String) (dataType : DataType) (expr : Expr)
    (statements branches : List Stmt) (pos : Pos) :
    (mk kind name dataType expr statements branches pos).view p =
      ⟨kind, name, dataType, expr.view p, statements.map (view p),
        if p = .coarse then [] else branches.map (view p), p.pos pos⟩ := by
  cases p with
  | identical => simp [view, Expr.view, Precision.pos]
  | same => exact unplaced_mk _ _ _ _ _ _ pos
  | coarse => simp [view, Expr.view, Precision.pos, fingerprint, fingerprintAll_eq_map]

/-- Statements agree if and only if they have one view. -/
theorem agrees_iff : (a b : Stmt) → (a.Agrees p b ↔ a.view p = b.view p)
  | ⟨kind, name, dataType, expr, statements, branches, pos⟩,
    ⟨kind', name', dataType', expr', statements', branches', pos'⟩ => by
    have hstatements : List.Forall₂ (Agrees p) statements statements' ↔
        statements.map (view p) = statements'.map (view p) :=
      forall₂_iff_map_eq fun a _ b => agrees_iff a b
    have hbranches : List.Forall₂ (Agrees p) branches branches' ↔
        branches.map (view p) = branches'.map (view p) :=
      forall₂_iff_map_eq fun a _ b => agrees_iff a b
    rw [agrees_mk, view_mk, view_mk, mk.injEq, hstatements, hbranches, Expr.agrees_iff]
    by_cases hp : p = .coarse <;> simp [hp]

theorem Agrees.coarsen : (a b : Stmt) → a.Agrees .same b → a.Agrees .coarse b
  | ⟨_, _, _, _, statements, _, _⟩, ⟨_, _, _, _, statements', _, _⟩, h => by
    obtain ⟨hkind, hname, hdataType, hexpr, hstatements, -, hpos⟩ := agrees_mk.1 h
    have hstatements' : List.Forall₂ (Agrees .coarse) statements statements' :=
      forall₂_mono_mem (fun a _ b => coarsen a b) hstatements
    exact agrees_mk.2 ⟨hkind, hname, hdataType, hexpr.coarsen, hstatements',
      fun h => absurd rfl h, hpos⟩

end Stmt

/-! ## Declarations -/

namespace TypedName

/-- The typed names agree in every field that counts. -/
def Agrees (p : Precision) (a b : TypedName) : Prop :=
  a.name = b.name ∧ a.dataType = b.dataType ∧ a.expr.Agrees p b.expr

/-- What counts of a typed name. -/
def view : Precision → TypedName → TypedName
  | .identical => id
  | .same => unplaced
  | .coarse => fingerprint

theorem view_eq (t : TypedName) : t.view p = ⟨t.name, t.dataType, t.expr.view p⟩ := by
  cases p <;> rfl

theorem agrees_iff (a b : TypedName) : a.Agrees p b ↔ a.view p = b.view p := by
  rw [Agrees, Expr.agrees_iff, view_eq, view_eq, mk.injEq]

theorem agreesAll_iff {as bs : List TypedName} :
    List.Forall₂ (Agrees p) as bs ↔ as.map (view p) = bs.map (view p) :=
  forall₂_iff_map_eq fun a _ b => agrees_iff a b

theorem Agrees.coarsen {a b : TypedName} (h : a.Agrees .same b) : a.Agrees .coarse b :=
  ⟨h.1, h.2.1, h.2.2.coarsen⟩

end TypedName

namespace Function

/-- The functions agree in every field that counts. -/
def Agrees (p : Precision) (a b : Function) : Prop :=
  a.name = b.name ∧ a.dataType = b.dataType ∧ List.Forall₂ (TypedName.Agrees p) a.args b.args ∧
    (p ≠ .coarse →
      List.Forall₂ (TypedName.Agrees p) a.consts b.consts ∧ a.block.Agrees p b.block)

/-- What counts of a function. -/
def view : Precision → Function → Function
  | .identical => id
  | .same => unplaced
  | .coarse => fingerprint

theorem view_eq (f : Function) :
    f.view p = ⟨f.name, f.dataType, f.args.map (TypedName.view p),
      if p = .coarse then [] else f.consts.map (TypedName.view p),
      if p = .coarse then .block [] else f.block.view p⟩ := by
  cases p with
  | identical => simp [view, TypedName.view, Stmt.view]
  | same | coarse => rfl

theorem agrees_iff (a b : Function) : a.Agrees p b ↔ a.view p = b.view p := by
  rw [Agrees, TypedName.agreesAll_iff, TypedName.agreesAll_iff, Stmt.agrees_iff, view_eq, view_eq,
    mk.injEq]
  by_cases hp : p = .coarse <;> simp [hp]

theorem Agrees.coarsen {a b : Function} (h : a.Agrees .same b) : a.Agrees .coarse b :=
  ⟨h.1, h.2.1, h.2.2.1.imp fun _ _ => TypedName.Agrees.coarsen, fun hp => absurd rfl hp⟩

end Function

namespace Struct

/-- The structures agree in every field that counts. -/
def Agrees (p : Precision) (a b : Struct) : Prop :=
  a.name = b.name ∧ List.Forall₂ (TypedName.Agrees p) a.items b.items

/-- What counts of a structure. -/
def view : Precision → Struct → Struct
  | .identical => id
  | .same => unplaced
  | .coarse => fingerprint

theorem view_eq (s : Struct) : s.view p = ⟨s.name, s.items.map (TypedName.view p)⟩ := by
  cases p with
  | identical => simp [view, TypedName.view]
  | same | coarse => rfl

theorem agrees_iff (a b : Struct) : a.Agrees p b ↔ a.view p = b.view p := by
  rw [Agrees, TypedName.agreesAll_iff, view_eq, view_eq, mk.injEq]

theorem Agrees.coarsen {a b : Struct} (h : a.Agrees .same b) : a.Agrees .coarse b :=
  ⟨h.1, h.2.imp fun _ _ => TypedName.Agrees.coarsen⟩

end Struct

/-! ## Files -/

namespace File

/-- The files agree in every field that counts. -/
def Agrees (p : Precision) (a b : File) : Prop :=
  p.name a.name = p.name b.name ∧ List.Forall₂ (Function.Agrees p) a.functions b.functions ∧
    List.Forall₂ (Struct.Agrees p) a.structs b.structs ∧
    List.Forall₂ (TypedName.Agrees p) a.consts b.consts ∧ a.imports = b.imports

/-- What counts of a file. -/
def view : Precision → File → File
  | .identical => id
  | .same => unplaced
  | .coarse => fingerprint

theorem view_eq (f : File) :
    f.view p = ⟨p.name f.name, f.functions.map (Function.view p), f.structs.map (Struct.view p),
      f.consts.map (TypedName.view p), f.imports⟩ := by
  cases p with
  | identical => simp [view, Precision.name, Function.view, Struct.view, TypedName.view]
  | same | coarse => rfl

theorem agrees_iff (a b : File) : a.Agrees p b ↔ a.view p = b.view p := by
  rw [Agrees, forall₂_iff_map_eq fun f _ g => Function.agrees_iff f g,
    forall₂_iff_map_eq fun s _ t => Struct.agrees_iff s t, TypedName.agreesAll_iff, view_eq,
    view_eq, mk.injEq]

theorem Agrees.coarsen {a b : File} (h : a.Agrees .same b) : a.Agrees .coarse b :=
  ⟨h.1, h.2.1.imp fun _ _ => Function.Agrees.coarsen, h.2.2.1.imp fun _ _ => Struct.Agrees.coarsen,
    h.2.2.2.1.imp fun _ _ => TypedName.Agrees.coarsen, h.2.2.2.2⟩

end File

/-! ## Nodes of any class -/

namespace Node

/-- The nodes are of one class and agree in every field that counts. -/
def Agrees (p : Precision) : Node → Node → Prop
  | expr a, expr b => a.Agrees p b
  | stmt a, stmt b => a.Agrees p b
  | typedName a, typedName b => a.Agrees p b
  | function a, function b => a.Agrees p b
  | struct a, struct b => a.Agrees p b
  | file a, file b => a.Agrees p b
  | _, _ => False

/-- What counts of a node. -/
def view : Precision → Node → Node
  | .identical => id
  | .same => unplaced
  | .coarse => fingerprint

theorem view_expr (e : Expr) : (expr e).view p = expr (e.view p) := by cases p <;> rfl

theorem view_stmt (s : Stmt) : (stmt s).view p = stmt (s.view p) := by cases p <;> rfl

theorem view_typedName (t : TypedName) : (typedName t).view p = typedName (t.view p) := by
  cases p <;> rfl

theorem view_function (f : Function) : (function f).view p = function (f.view p) := by
  cases p <;> rfl

theorem view_struct (s : Struct) : (struct s).view p = struct (s.view p) := by cases p <;> rfl

theorem view_file (f : File) : (file f).view p = file (f.view p) := by cases p <;> rfl

/-- **Nodes agree if and only if they have one view.** -/
theorem agrees_iff (a b : Node) : a.Agrees p b ↔ a.view p = b.view p := by
  cases a <;> cases b <;>
    simp only [Agrees, view_expr, view_stmt, view_typedName, view_function, view_struct, view_file,
      reduceCtorEq, expr.injEq, stmt.injEq, typedName.injEq, function.injEq, struct.injEq,
      file.injEq, Expr.agrees_iff, Stmt.agrees_iff, TypedName.agrees_iff, Function.agrees_iff,
      Struct.agrees_iff, File.agrees_iff]

/-- **Nodes that are the same agree in all that fingerprints see.** -/
theorem Agrees.coarsen {a b : Node} (h : a.Agrees .same b) : a.Agrees .coarse b := by
  match a, b, h with
  | expr _, expr _, h => exact Expr.Agrees.coarsen _ _ h
  | stmt _, stmt _, h => exact Stmt.Agrees.coarsen _ _ h
  | typedName _, typedName _, h => exact TypedName.Agrees.coarsen h
  | function _, function _, h => exact Function.Agrees.coarsen h
  | struct _, struct _, h => exact Struct.Agrees.coarsen h
  | file _, file _, h => exact File.Agrees.coarsen h

end Node

end ToyLang
