import ToyLang.Tree.File

/-!
# The nodes of a tree

`Expr.nodes` lists every node of an expression, `Stmt.nodes` every node of a statement, blocks and
clauses among them. `File.stmts` and `File.exprs` are the nodes of a whole file, `File.constants`
its constants, those of functions included. A statement about all of them is a statement about every
depth of the file.
-/

set_option autoImplicit false

namespace ToyLang

/-! ## Expressions -/

namespace Expr

mutual

/-- Every node of an expression, the expression itself first. -/
def nodes : Expr → List Expr
  | ⟨kind, value, args, items, pos⟩ =>
    ⟨kind, value, args, items, pos⟩ :: (nodesAll args ++ nodesAll items)

/-- Every node of the expressions of a row. -/
def nodesAll : List Expr → List Expr
  | [] => []
  | e :: es => nodes e ++ nodesAll es

end

theorem nodesAll_eq_flatMap (es : List Expr) : nodesAll es = es.flatMap nodes := by
  induction es with
  | nil => rfl
  | cons e es ih => rw [nodesAll, ih, List.flatMap_cons]

/-- An expression has itself and the nodes of its parts. -/
theorem nodes_eq (e : Expr) : e.nodes = e :: (e.args.flatMap nodes ++ e.items.flatMap nodes) := by
  obtain ⟨kind, value, args, items, pos⟩ := e
  rw [nodes, nodesAll_eq_flatMap, nodesAll_eq_flatMap]

/-- What holds of an expression and of all nodes of its parts holds of all its nodes. -/
theorem forall_nodes {P : Expr → Prop} {e : Expr} (h : P e)
    (hargs : ∀ a ∈ e.args, ∀ n ∈ a.nodes, P n) (hitems : ∀ i ∈ e.items, ∀ n ∈ i.nodes, P n) :
    ∀ n ∈ e.nodes, P n := by
  rw [nodes_eq]
  refine List.forall_mem_cons.2 ⟨h, List.forall_mem_append.2 ⟨?_, ?_⟩⟩
  · intro n hn
    obtain ⟨a, ha, hn⟩ := List.mem_flatMap.1 hn
    exact hargs a ha n hn
  · intro n hn
    obtain ⟨i, hi, hn⟩ := List.mem_flatMap.1 hn
    exact hitems i hi n hn

/-- A node without parts. -/
theorem forall_nodes_leaf {P : Expr → Prop} (kind : ExprKind) (value : Value) (pos : Pos)
    (h : P { kind, value, pos }) : ∀ n ∈ ({ kind, value, pos } : Expr).nodes, P n :=
  forall_nodes h (fun _ ha => absurd ha List.not_mem_nil) fun _ hi => absurd hi List.not_mem_nil

/-- A node with one operand, such as a call or an access. -/
theorem forall_nodes_access {P : Expr → Prop} {kind : ExprKind} {value : Value} {arg : Expr}
    {pos : Pos} (h : P { kind, value, args := [arg], pos }) (harg : ∀ n ∈ arg.nodes, P n) :
    ∀ n ∈ ({ kind, value, args := [arg], pos } : Expr).nodes, P n :=
  forall_nodes h (List.forall_mem_singleton.2 harg) fun _ hi => absurd hi List.not_mem_nil

/-- An operation has its operands. -/
theorem forall_nodes_operation {P : Expr → Prop} {o : Operator} {l r : Expr} {pos : Pos}
    (h : P (operation o l r pos)) (hl : ∀ n ∈ l.nodes, P n) (hr : ∀ n ∈ r.nodes, P n) :
    ∀ n ∈ (operation o l r pos).nodes, P n :=
  forall_nodes h (List.forall_mem_cons.2 ⟨hl, List.forall_mem_singleton.2 hr⟩)
    fun _ hi => absurd hi List.not_mem_nil

end Expr

/-! ## Statements -/

namespace Stmt

mutual

/-- Every node of a statement, the statement itself first. -/
def nodes : Stmt → List Stmt
  | ⟨kind, name, dataType, expr, statements, branches, pos⟩ =>
    ⟨kind, name, dataType, expr, statements, branches, pos⟩ ::
      (nodesAll statements ++ nodesAll branches)

/-- Every node of the statements of a row. -/
def nodesAll : List Stmt → List Stmt
  | [] => []
  | s :: ss => nodes s ++ nodesAll ss

end

theorem nodesAll_eq_flatMap (ss : List Stmt) : nodesAll ss = ss.flatMap nodes := by
  induction ss with
  | nil => rfl
  | cons s ss ih => rw [nodesAll, ih, List.flatMap_cons]

/-- A statement has itself and the nodes of its parts. -/
theorem nodes_eq (s : Stmt) :
    s.nodes = s :: (s.statements.flatMap nodes ++ s.branches.flatMap nodes) := by
  obtain ⟨kind, name, dataType, expr, statements, branches, pos⟩ := s
  rw [nodes, nodesAll_eq_flatMap, nodesAll_eq_flatMap]

/-- What holds of a statement and of all nodes of its parts holds of all its nodes. -/
theorem forall_nodes {P : Stmt → Prop} {s : Stmt} (h : P s)
    (hstatements : ∀ t ∈ s.statements, ∀ n ∈ t.nodes, P n)
    (hbranches : ∀ b ∈ s.branches, ∀ n ∈ b.nodes, P n) : ∀ n ∈ s.nodes, P n := by
  rw [nodes_eq]
  refine List.forall_mem_cons.2 ⟨h, List.forall_mem_append.2 ⟨?_, ?_⟩⟩
  · intro n hn
    obtain ⟨t, ht, hn⟩ := List.mem_flatMap.1 hn
    exact hstatements t ht n hn
  · intro n hn
    obtain ⟨b, hb, hn⟩ := List.mem_flatMap.1 hn
    exact hbranches b hb n hn

/-- A statement without parts. -/
theorem forall_nodes_leaf {P : Stmt → Prop} {s : Stmt} (h : P s) (hs : s.statements = [])
    (hb : s.branches = []) : ∀ n ∈ s.nodes, P n :=
  forall_nodes h (by simp [hs]) (by simp [hb])

end Stmt

/-! ## Files -/

namespace File

/-- The constants of a file and of its functions. -/
def constants (f : File) : List TypedName := f.consts ++ f.functions.flatMap Function.consts

/-- The constants, the items of structures and the parameters of a file. -/
def typedNames (f : File) : List TypedName :=
  f.constants ++ (f.structs.flatMap Struct.items ++ f.functions.flatMap Function.args)

/-- Every statement in a file. -/
def stmts (f : File) : List Stmt := f.functions.flatMap fun g => g.block.nodes

/-- Every expression in a file. -/
def exprs (f : File) : List Expr :=
  (f.typedNames.map TypedName.expr ++ f.stmts.map Stmt.expr).flatMap Expr.nodes

end File

end ToyLang
