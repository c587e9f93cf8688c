import ToyLang.Parser.File
import ToyLang.Proofs.Shape.Tree

/-!
# Trees from tokens

A tree is from the tokens in `T` if its names and literals are theirs and its nodes stand where they
do. This is what the parser builds whatever it reports: what could not be read leaves an empty name,
the mark of an absent expression or a statement of no kind, at the place of a token that was read.
Only a block, which has no token of its own, and the expressions of statements and parameters that
have none, stand at no position.

* `Expr.From`, `Stmt.From`, `File.From`: trees from the tokens in `T`.
-/

set_option autoImplicit false

namespace ToyLang

variable (T : Token → Prop)

/-- A name from `T`: that of an identifier, or the empty one where none stood. -/
def Value.IsNameFrom (v : Value) : Prop :=
  v = .text "" ∨
    ∃ t, T t ∧ t.kind = .ident ∧ (v = .ofPayload t.value ∨ v = .text t.value.display)

/-- An expression from `T`. -/
inductive Expr.From : Expr → Prop
  | none (t : Token) (ht : T t) : From (.none t.pos)
  | number (t : Token) (ht : T t) (hk : t.kind = .number) : From (Parser.literalExpr .int t)
  | string (t : Token) (ht : T t) (hk : t.kind = .string) : From (Parser.literalExpr .string t)
  | char (t : Token) (ht : T t) (hk : t.kind = .char) : From (Parser.literalExpr .char t)
  | bool (b : Bool) (t : Token) (ht : T t) : From (Parser.boolExpr b t)
  | identifier (name : Value) (t : Token) (ht : T t) (hname : name.IsNameFrom T) :
      From (.identifier name t.pos)
  | operation (o : Operator) (l r : Expr) (t : Token) (ht : T t) (hl : From l) (hr : From r) :
      From (.operation o l r t.pos)
  | list (items : List Expr) (t : Token) (ht : T t) (h : ∀ e ∈ items, From e) :
      From { kind := .list, items, pos := t.pos }
  | access (kind : ExprKind) (name : Value) (arg : Expr) (t : Token)
      (hkind : kind ∈ [.call, .arrayAcc]) (ht : T t) (hname : name.IsNameFrom T) (harg : From arg) :
      From (Parser.accessExpr kind name arg t.pos)
  | structAcc (name member : Value) (t u : Token) (ht : T t) (hu : T u)
      (hname : name.IsNameFrom T) (hmember : member.IsNameFrom T) :
      From (Parser.accessExpr .structAcc name (.identifier member u.pos) t.pos)

/-- A statement from `T`. The expression of one that has none stands at no position. -/
inductive Stmt.From : Stmt → Prop
  | none (t : Token) (ht : T t) : From (.none t.pos)
  | declared (kind : StmtKind) (name : String) (dataType : DataType) (expr : Expr) (t : Token)
      (hkind : kind ∈ [.varDec, .arrayDec]) (ht : T t) (hname : (Value.text name).IsNameFrom T)
      (he : expr.From T) : From { kind, name, dataType, expr, pos := t.pos }
  | structDec (name : String) (expr : Expr) (t : Token) (ht : T t)
      (hname : (Value.text name).IsNameFrom T) (he : expr.From T) :
      From { kind := .structDec, name, expr, pos := t.pos }
  | exprStmt (target value : Expr) (t u : Token) (ht : T t) (hu : T u) (htarget : target.From T)
      (hkind : target.IsTarget) (hvalue : value.From T) :
      From { kind := .exprStmt, expr := .operation .assign target value u.pos, pos := t.pos }
  | callStmt (name : String) (expr : Expr) (t : Token) (ht : T t)
      (hname : (Value.text name).IsNameFrom T) (he : expr.From T) :
      From { kind := .callStmt, name, expr, pos := t.pos }
  | return_ (expr : Expr) (t : Token) (ht : T t) (he : expr.From T) :
      From { kind := .return_, expr, pos := t.pos }
  | keyword (kind : StmtKind) (t : Token) (hkind : kind ∈ [.break_, .continue_]) (ht : T t) :
      From { kind, pos := t.pos }
  | clause (kind : StmtKind) (condition : Expr) (ss : List Stmt) (t : Token)
      (hkind : kind ∈ [.while_, .elif_]) (ht : T t) (hc : condition.From T)
      (hs : ∀ s ∈ ss, From s) (hm : ∀ s ∈ ss, s.StandsInRow) :
      From (Parser.clause kind condition (.block ss) t.pos)
  | else_ (ss : List Stmt) (t : Token) (ht : T t) (hs : ∀ s ∈ ss, From s)
      (hm : ∀ s ∈ ss, s.StandsInRow) : From (Parser.clause .else_ .none (.block ss) t.pos)
  | if_ (condition : Expr) (ss branches : List Stmt) (t : Token) (ht : T t)
      (hc : condition.From T) (hs : ∀ s ∈ ss, From s) (hm : ∀ s ∈ ss, s.StandsInRow)
      (hb : ∀ b ∈ branches, From b) (hk : ∀ b ∈ branches, b.kind ∈ [.elif_, .else_]) :
      From { Parser.clause .if_ condition (.block ss) t.pos with branches }

/-- A statement from `T` that can stand in a row. -/
structure Stmt.MemberFrom (s : Stmt) : Prop where
  made : s.From T
  row : s.StandsInRow

/-- A row of statements from `T`, as a block holds it. -/
structure Stmt.RowFrom (ss : List Stmt) : Prop where
  members : ∀ s ∈ ss, s.From T
  row : ∀ s ∈ ss, s.StandsInRow

/-- A chain of clauses from `T`. -/
structure Stmt.ChainFrom (bs : List Stmt) : Prop where
  members : ∀ b ∈ bs, b.From T
  chain : ∀ b ∈ bs, b.kind ∈ [.elif_, .else_]

/-- A constant or an item from `T`. -/
structure TypedName.From (t : TypedName) : Prop where
  name : (Value.text t.name).IsNameFrom T
  value : t.expr.From T

/-- A parameter from `T`. -/
structure TypedName.ParamFrom (t : TypedName) : Prop where
  name : (Value.text t.name).IsNameFrom T
  bare : t.expr = .none

/-- A function from `T`. -/
structure Function.From (f : Function) : Prop where
  name : (Value.text f.name).IsNameFrom T
  args : ∀ a ∈ f.args, a.ParamFrom T
  consts : ∀ c ∈ f.consts, c.From T
  block : ∃ ss, f.block = .block ss ∧ Stmt.RowFrom T ss

/-- A structure from `T`. -/
structure Struct.From (s : Struct) : Prop where
  name : (Value.text s.name).IsNameFrom T
  items : ∀ i ∈ s.items, i.From T

/-- A path from `T`: names and slashes. -/
inductive IsPathFrom : String → Prop
  | empty : IsPathFrom ""
  | name (t : Token) (path : String) (ht : T t) (hk : t.kind = .ident) (h : IsPathFrom path) :
      IsPathFrom (t.value.display ++ path)
  | slash (path : String) (h : IsPathFrom path) : IsPathFrom ("/" ++ path)

/-- A file from `T`. -/
structure File.From (f : File) : Prop where
  functions : ∀ g ∈ f.functions, g.From T
  structs : ∀ s ∈ f.structs, s.From T
  consts : ∀ c ∈ f.consts, c.From T
  imports : ∀ path ∈ f.imports, IsPathFrom T path

variable {T} {t : Token}

/-! ## Names -/

theorem isNameFrom_empty : (Value.text "").IsNameFrom T := .inl rfl

theorem isNameFrom_payload (ht : T t) (hk : t.kind = .ident) :
    (Value.ofPayload t.value).IsNameFrom T := .inr ⟨t, ht, hk, .inl rfl⟩

theorem isNameFrom_display (ht : T t) (hk : t.kind = .ident) :
    (Value.text t.value.display).IsNameFrom T := .inr ⟨t, ht, hk, .inr rfl⟩

/-! ## Rows and chains -/

namespace Stmt

theorem rowFrom_nil : RowFrom T [] :=
  ⟨fun _ h => absurd h List.not_mem_nil, fun _ h => absurd h List.not_mem_nil⟩

theorem MemberFrom.row_singleton {s : Stmt} (h : s.MemberFrom T) : RowFrom T [s] :=
  ⟨List.forall_mem_singleton.2 h.made, List.forall_mem_singleton.2 h.row⟩

theorem RowFrom.append {ss ss' : List Stmt} (h : RowFrom T ss) (h' : RowFrom T ss') :
    RowFrom T (ss ++ ss') :=
  ⟨List.forall_mem_append.2 ⟨h.members, h'.members⟩, List.forall_mem_append.2 ⟨h.row, h'.row⟩⟩

theorem chainFrom_nil : ChainFrom T [] :=
  ⟨fun _ h => absurd h List.not_mem_nil, fun _ h => absurd h List.not_mem_nil⟩

theorem ChainFrom.cons {b : Stmt} {bs : List Stmt} (hb : b.From T)
    (hk : b.kind ∈ [.elif_, .else_]) (h : ChainFrom T bs) : ChainFrom T (b :: bs) :=
  ⟨List.forall_mem_cons.2 ⟨hb, h.members⟩, List.forall_mem_cons.2 ⟨hk, h.chain⟩⟩

end Stmt

/-! ## Shapes -/

/-- **An expression from tokens is well formed.** -/
theorem Expr.From.wellFormed {e : Expr} (h : e.From T) : e.WellFormed := by
  induction h with
  | none t => exact wellFormed_none _
  | number t | string t | char t | bool b t => exact wellFormed_leaf _ _ (by simp)
  | identifier name t => exact wellFormed_identifier _ _
  | operation o l r t _ _ _ hl hr => exact wellFormed_operation o hl hr
  | list items t _ _ ih => exact wellFormed_list ih
  | access kind name arg t hkind _ _ _ ih => exact wellFormed_access hkind ih
  | structAcc name member t u => exact wellFormed_structAcc (wellFormed_identifier _ _) rfl

/-- **A statement from tokens is well formed.** -/
theorem Stmt.From.wellFormed {s : Stmt} (h : s.From T) : s.WellFormed := by
  have body {ss : List Stmt} (hs : ∀ s ∈ ss, s.WellFormed) (hm : ∀ s ∈ ss, s.StandsInRow) :
      (block ss).IsBody := ⟨wellFormed_block hs hm, rfl⟩
  induction h with
  | none t => exact wellFormed_leaf (Expr.wellFormed_none _) (by simp)
  | declared kind name d e t hkind _ _ he =>
    simp only [List.mem_cons, List.not_mem_nil, or_false] at hkind
    rcases hkind with rfl | rfl <;> exact wellFormed_leaf he.wellFormed (by simp)
  | structDec name e t _ _ he | callStmt name e t _ _ he | return_ e t _ he =>
    exact wellFormed_leaf he.wellFormed (by simp)
  | exprStmt target value t u _ _ ht hk hv =>
    exact wellFormed_exprStmt ht.wellFormed hk hv.wellFormed
  | keyword kind t hkind =>
    simp only [List.mem_cons, List.not_mem_nil, or_false] at hkind
    rcases hkind with rfl | rfl <;> exact wellFormed_leaf (Expr.wellFormed_none _) (by simp)
  | clause kind condition ss t hkind _ hc _ hm ih =>
    simp only [List.mem_cons, List.not_mem_nil, or_false] at hkind
    rcases hkind with rfl | rfl <;> exact wellFormed_bodied hc.wellFormed (body ih hm) (by simp)
  | else_ ss t _ _ hm ih => exact wellFormed_bodied (Expr.wellFormed_none _) (body ih hm) (by simp)
  | if_ condition ss branches t _ hc _ hm _ hk ih ihb =>
    exact wellFormed_if hc.wellFormed (body ih hm) fun b hb => ⟨ihb b hb, hk b hb⟩

theorem Function.From.wellFormed {f : Function} (h : f.From T) : f.WellFormed := by
  obtain ⟨ss, hblock, hss⟩ := h.block
  refine ⟨fun a ha => ?_, fun c hc => (h.consts c hc).value.wellFormed, ?_⟩
  · rw [TypedName.WellFormed, (h.args a ha).bare]
    exact Expr.wellFormed_none _
  · rw [hblock]
    exact ⟨Stmt.wellFormed_block (fun s hs => (hss.members s hs).wellFormed) hss.row, rfl⟩

/-- **A file from tokens is well formed.** -/
theorem File.From.wellFormed {f : File} (h : f.From T) : f.WellFormed where
  functions := fun g hg => (h.functions g hg).wellFormed
  structs := fun s hs i hi => ((h.structs s hs).items i hi).value.wellFormed
  consts := fun c hc => (h.consts c hc).value.wellFormed

end ToyLang
