import ToyLang.Proofs.Roundtrip.Regular

/-!
# Well-formed trees

A node has its shape (`HasShape`) if it holds what its kind promises and nothing else: two operands,
one argument, items, one block as a body, clauses. A tree is well formed if every node of it has its
shape. Shapes say nothing about names, values and positions, and allow any operand to be the mark of
an absent one.
-/

set_option autoImplicit false

namespace ToyLang

/-! ## Expressions -/

namespace Expr

/-- The expression is written without parts. -/
def IsLeaf (e : Expr) : Prop := e.args = [] ∧ e.items = []

/-- The node holds what its kind promises. -/
def HasShape (e : Expr) : Prop :=
  match e.kind with
  | .operation _ => e.args.length = 2 ∧ e.items = []
  | .call | .arrayAcc => e.args.length = 1 ∧ e.items = []
  | .structAcc => (∃ m, e.args = [m] ∧ m.kind = .identifier) ∧ e.items = []
  | .list => e.args = []
  | .none | .int | .string | .char | .bool | .identifier => e.IsLeaf
  | .binary | .other .. => False

/-- Every node of the expression has its shape. -/
inductive WellFormed : Expr → Prop
  | node (e : Expr) (shape : e.HasShape) (args : ∀ a ∈ e.args, WellFormed a)
      (items : ∀ i ∈ e.items, WellFormed i) : WellFormed e

/-- The expression assigns something to a target. -/
def Assigns (e : Expr) : Prop :=
  e.kind = .operation .assign ∧ ∃ target value, e.args = [target, value] ∧ target.IsTarget

variable {e l r : Expr} {pos : Pos}

theorem WellFormed.shape (h : e.WellFormed) : e.HasShape := by
  cases h with
  | node _ shape => exact shape

theorem WellFormed.arg (h : e.WellFormed) : ∀ a ∈ e.args, a.WellFormed := by
  cases h with
  | node _ _ args => exact args

/-- A node without parts, of a kind that has none. -/
theorem wellFormed_leaf {kind : ExprKind} (value : Value) (pos : Pos)
    (h : kind ∈ [.none, .int, .string, .char, .bool, .identifier]) :
    WellFormed { kind, value, pos } := by
  refine .node _ ?_ (fun _ h => absurd h List.not_mem_nil) fun _ h => absurd h List.not_mem_nil
  simp only [List.mem_cons, List.not_mem_nil, or_false] at h
  rcases h with rfl | rfl | rfl | rfl | rfl | rfl <;> exact ⟨rfl, rfl⟩

theorem wellFormed_none (pos : Pos) : (none pos).WellFormed := wellFormed_leaf _ _ (by simp)

theorem wellFormed_identifier (name : Value) (pos : Pos) : (identifier name pos).WellFormed :=
  wellFormed_leaf _ _ (by simp)

theorem wellFormed_operation (o : Operator) (hl : l.WellFormed) (hr : r.WellFormed) :
    (operation o l r pos).WellFormed := by
  refine .node _ ⟨rfl, rfl⟩ ?_ fun _ h => absurd h List.not_mem_nil
  exact List.forall_mem_cons.2 ⟨hl, List.forall_mem_singleton.2 hr⟩

/-- A name with one argument. -/
theorem wellFormed_access {kind : ExprKind} {name : Value} {arg : Expr}
    (h : kind ∈ [.call, .arrayAcc]) (harg : arg.WellFormed) :
    (Parser.accessExpr kind name arg pos).WellFormed := by
  refine .node _ ?_ (List.forall_mem_singleton.2 harg) fun _ h => absurd h List.not_mem_nil
  simp only [List.mem_cons, List.not_mem_nil, or_false] at h
  rcases h with rfl | rfl <;> exact ⟨rfl, rfl⟩

theorem wellFormed_structAcc {name : Value} {m : Expr} (hm : m.WellFormed)
    (hk : m.kind = .identifier) : (Parser.accessExpr .structAcc name m pos).WellFormed :=
  .node _ ⟨⟨m, rfl, hk⟩, rfl⟩ (List.forall_mem_singleton.2 hm) fun _ h => absurd h List.not_mem_nil

theorem wellFormed_list {items : List Expr} (h : ∀ e ∈ items, e.WellFormed) :
    WellFormed { kind := .list, items, pos } :=
  .node _ rfl (fun _ h => absurd h List.not_mem_nil) h

end Expr

/-! ## Statements -/

namespace Stmt

/-- The statement holds no others. -/
def IsLeaf (s : Stmt) : Prop := s.statements = [] ∧ s.branches = []

/-- The statement holds one other, which is a block. -/
def HasBody (s : Stmt) : Prop := ∃ b, s.statements = [b] ∧ b.kind = .block

/-- The statement is neither a block nor a clause. -/
def StandsInRow (s : Stmt) : Prop := s.kind ∉ [.block, .elif_, .else_]

/-- The node holds what its kind promises. Blocks stand as bodies only, and clauses in chains
only. -/
def HasShape (s : Stmt) : Prop :=
  match s.kind with
  | .block => (∀ t ∈ s.statements, t.kind ∉ [.block, .elif_, .else_]) ∧ s.branches = []
  | .while_ | .elif_ | .else_ => s.HasBody ∧ s.branches = []
  | .if_ => s.HasBody ∧ ∀ b ∈ s.branches, b.kind ∈ [.elif_, .else_]
  | .exprStmt => s.expr.Assigns ∧ s.IsLeaf
  | .varDec | .arrayDec | .structDec | .callStmt | .return_ | .break_ | .continue_ | .none =>
    s.IsLeaf
  | .const_ | .other .. => False

/-- Every node of the statement has its shape, those of expressions as well. -/
inductive WellFormed : Stmt → Prop
  | node (s : Stmt) (shape : s.HasShape) (expr : s.expr.WellFormed)
      (statements : ∀ t ∈ s.statements, WellFormed t)
      (branches : ∀ b ∈ s.branches, WellFormed b) : WellFormed s

variable {s body : Stmt} {ss bs : List Stmt}

/-- A statement without others, of a kind that has none and assigns nothing. -/
theorem wellFormed_leaf {kind : StmtKind} {name : String} {dataType : DataType} {e : Expr}
    {pos : Pos} (he : e.WellFormed)
    (h : kind ∈ [.varDec, .arrayDec, .structDec, .callStmt, .return_, .break_, .continue_, .none]) :
    WellFormed { kind, name, dataType, expr := e, pos } := by
  refine .node _ ?_ he (fun _ h => absurd h List.not_mem_nil) fun _ h => absurd h List.not_mem_nil
  simp only [List.mem_cons, List.not_mem_nil, or_false] at h
  rcases h with rfl | rfl | rfl | rfl | rfl | rfl | rfl | rfl <;> exact ⟨rfl, rfl⟩

/-- An assignment to a target. -/
theorem wellFormed_exprStmt {target value : Expr} {pos apos : Pos} (ht : target.WellFormed)
    (htarget : target.IsTarget) (hv : value.WellFormed) :
    WellFormed { kind := .exprStmt, expr := .operation .assign target value apos, pos } :=
  .node _ ⟨⟨rfl, target, value, rfl, htarget⟩, rfl, rfl⟩ (Expr.wellFormed_operation _ ht hv)
    (fun _ h => absurd h List.not_mem_nil) fun _ h => absurd h List.not_mem_nil

theorem wellFormed_block (h : ∀ s ∈ ss, s.WellFormed) (hrow : ∀ s ∈ ss, s.StandsInRow) :
    (block ss).WellFormed :=
  .node _ ⟨hrow, rfl⟩ (Expr.wellFormed_none _) h fun _ h => absurd h List.not_mem_nil

/-- A block as a body. -/
structure IsBody (b : Stmt) : Prop where
  wellFormed : b.WellFormed
  kind : b.kind = .block

/-- A clause of a chain. -/
structure IsClause (b : Stmt) : Prop where
  wellFormed : b.WellFormed
  kind : b.kind ∈ [.elif_, .else_]

/-- A statement with a body and no chain. -/
theorem wellFormed_bodied {kind : StmtKind} {e : Expr} {pos : Pos} (he : e.WellFormed)
    (hbody : body.IsBody) (h : kind ∈ [.while_, .elif_, .else_]) :
    WellFormed { kind, expr := e, statements := [body], pos } := by
  refine .node _ ?_ he (List.forall_mem_singleton.2 hbody.wellFormed)
    fun _ h => absurd h List.not_mem_nil
  simp only [List.mem_cons, List.not_mem_nil, or_false] at h
  rcases h with rfl | rfl | rfl <;> exact ⟨⟨body, rfl, hbody.kind⟩, rfl⟩

theorem wellFormed_if {e : Expr} {pos : Pos} (he : e.WellFormed) (hbody : body.IsBody)
    (hb : ∀ b ∈ bs, b.IsClause) :
    WellFormed { kind := .if_, expr := e, statements := [body], branches := bs, pos } :=
  .node _ ⟨⟨body, rfl, hbody.kind⟩, fun b h => (hb b h).kind⟩ he
    (List.forall_mem_singleton.2 hbody.wellFormed) fun b h => (hb b h).wellFormed

end Stmt

/-! ## Declarations and files -/

/-- The value of the typed name is well formed. -/
def TypedName.WellFormed (t : TypedName) : Prop := t.expr.WellFormed

/-- Everything in the function is well formed, and its body is a block. -/
structure Function.WellFormed (f : Function) : Prop where
  args : ∀ a ∈ f.args, a.WellFormed
  consts : ∀ c ∈ f.consts, c.WellFormed
  body : f.block.IsBody

/-- The values of the items are well formed. -/
def Struct.WellFormed (s : Struct) : Prop := ∀ i ∈ s.items, i.WellFormed

/-- Everything in the file is well formed. -/
structure File.WellFormed (f : File) : Prop where
  functions : ∀ g ∈ f.functions, g.WellFormed
  structs : ∀ s ∈ f.structs, s.WellFormed
  consts : ∀ c ∈ f.consts, c.WellFormed

end ToyLang
