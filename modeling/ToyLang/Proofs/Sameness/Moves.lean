import ToyLang.Proofs.Sameness.Agree

/-!
# Sameness and fingerprints are consistent

One change of a position somewhere in a tree is a relation of its own, `Node.Moves`: it gives a node
at any depth another position, or a file another name. Neither sameness nor fingerprints see such a
change (`Node.Moves.same_eq`, `Node.Moves.fingerprint_eq`). Together with agreement field by field
this comes to `sameness_consistent`: sameness is an equivalence that keeps the classes apart, and
nodes that are the same have one fingerprint.
-/

set_option autoImplicit false

namespace ToyLang

/-! ## Changes of one position -/

/-- The second expression is the first with another position at one of its nodes. -/
inductive Expr.Moves : Expr → Expr → Prop
  | here (e : Expr) (pos : Pos) : Moves e { e with pos }
  | arg (e : Expr) (before behind : List Expr) {a b : Expr} (h : Moves a b) :
      Moves { e with args := before ++ a :: behind } { e with args := before ++ b :: behind }
  | item (e : Expr) (before behind : List Expr) {a b : Expr} (h : Moves a b) :
      Moves { e with items := before ++ a :: behind } { e with items := before ++ b :: behind }

/-- The second statement is the first with another position at one of its nodes. -/
inductive Stmt.Moves : Stmt → Stmt → Prop
  | here (s : Stmt) (pos : Pos) : Moves s { s with pos }
  | expr (s : Stmt) {a b : Expr} (h : a.Moves b) : Moves { s with expr := a } { s with expr := b }
  | statement (s : Stmt) (before behind : List Stmt) {a b : Stmt} (h : Moves a b) :
      Moves { s with statements := before ++ a :: behind }
        { s with statements := before ++ b :: behind }
  | branch (s : Stmt) (before behind : List Stmt) {a b : Stmt} (h : Moves a b) :
      Moves { s with branches := before ++ a :: behind }
        { s with branches := before ++ b :: behind }

/-- The second typed name is the first with another position in its value. -/
inductive TypedName.Moves : TypedName → TypedName → Prop
  | expr (t : TypedName) {a b : Expr} (h : a.Moves b) :
      Moves { t with expr := a } { t with expr := b }

/-- The second function is the first with another position at one of its nodes. -/
inductive Function.Moves : Function → Function → Prop
  | arg (f : Function) (before behind : List TypedName) {a b : TypedName} (h : a.Moves b) :
      Moves { f with args := before ++ a :: behind } { f with args := before ++ b :: behind }
  | const (f : Function) (before behind : List TypedName) {a b : TypedName} (h : a.Moves b) :
      Moves { f with consts := before ++ a :: behind } { f with consts := before ++ b :: behind }
  | block (f : Function) {a b : Stmt} (h : a.Moves b) :
      Moves { f with block := a } { f with block := b }

/-- The second structure is the first with another position at one of its nodes. -/
inductive Struct.Moves : Struct → Struct → Prop
  | item (s : Struct) (before behind : List TypedName) {a b : TypedName} (h : a.Moves b) :
      Moves { s with items := before ++ a :: behind } { s with items := before ++ b :: behind }

/-- The second file is the first with another name, or with another position at one of its nodes. -/
inductive File.Moves : File → File → Prop
  | name (f : File) (name : String) : Moves f { f with name }
  | function (f : File) (before behind : List Function) {a b : Function} (h : a.Moves b) :
      Moves { f with functions := before ++ a :: behind }
        { f with functions := before ++ b :: behind }
  | struct (f : File) (before behind : List Struct) {a b : Struct} (h : a.Moves b) :
      Moves { f with structs := before ++ a :: behind } { f with structs := before ++ b :: behind }
  | const (f : File) (before behind : List TypedName) {a b : TypedName} (h : a.Moves b) :
      Moves { f with consts := before ++ a :: behind } { f with consts := before ++ b :: behind }

/-- The second node is the first with another position, or another name of the file, at one place.
-/
inductive Node.Moves : Node → Node → Prop
  | expr {a b : Expr} (h : a.Moves b) : Moves (expr a) (expr b)
  | stmt {a b : Stmt} (h : a.Moves b) : Moves (stmt a) (stmt b)
  | typedName {a b : TypedName} (h : a.Moves b) : Moves (typedName a) (typedName b)
  | function {a b : Function} (h : a.Moves b) : Moves (function a) (function b)
  | struct {a b : Struct} (h : a.Moves b) : Moves (struct a) (struct b)
  | file {a b : File} (h : a.Moves b) : Moves (file a) (file b)

/-! ## Sameness does not see them -/

theorem Expr.Moves.unplaced_eq {a b : Expr} (h : a.Moves b) : a.unplaced = b.unplaced := by
  induction h with
  | here e pos =>
    cases e
    rw [unplaced_mk, unplaced_mk]
  | arg e before behind _ ih | item e before behind _ ih =>
    cases e
    simp only [unplaced_mk, List.map_append, List.map_cons, ih]

theorem Stmt.Moves.unplaced_eq {a b : Stmt} (h : a.Moves b) : a.unplaced = b.unplaced := by
  induction h with
  | here s pos =>
    cases s
    simp only [unplaced_mk]
  | expr s h =>
    cases s
    simp only [unplaced_mk, h.unplaced_eq]
  | statement s before behind _ ih | branch s before behind _ ih =>
    cases s
    simp only [unplaced_mk, List.map_append, List.map_cons, ih]

theorem TypedName.Moves.unplaced_eq {a b : TypedName} (h : a.Moves b) :
    a.unplaced = b.unplaced := by
  obtain ⟨t, h⟩ := h
  simp only [unplaced, h.unplaced_eq]

theorem Function.Moves.unplaced_eq {a b : Function} (h : a.Moves b) : a.unplaced = b.unplaced := by
  cases h with
  | arg f before behind h | const f before behind h =>
    simp only [unplaced, List.map_append, List.map_cons, h.unplaced_eq]
  | block f h => simp only [unplaced, h.unplaced_eq]

theorem Struct.Moves.unplaced_eq {a b : Struct} (h : a.Moves b) : a.unplaced = b.unplaced := by
  obtain ⟨s, before, behind, h⟩ := h
  simp only [unplaced, List.map_append, List.map_cons, h.unplaced_eq]

theorem File.Moves.unplaced_eq {a b : File} (h : a.Moves b) : a.unplaced = b.unplaced := by
  cases h with
  | name f name => rfl
  | function f before behind h | struct f before behind h | const f before behind h =>
    simp only [unplaced, List.map_append, List.map_cons, h.unplaced_eq]

namespace Node

variable {a b : Node}

theorem Moves.unplaced_eq (h : a.Moves b) : a.unplaced = b.unplaced := by
  cases h with
  | expr h | stmt h | typedName h | function h | struct h | file h =>
    simp only [unplaced, h.unplaced_eq]

/-! ## Classes -/

/-- The class of a node. -/
inductive Class where
  | expr | stmt | typedName | function | struct | file
deriving DecidableEq

/-- The class of the node. -/
def class_ : Node → Class
  | expr _ => .expr
  | stmt _ => .stmt
  | typedName _ => .typedName
  | function _ => .function
  | struct _ => .struct
  | file _ => .file

theorem class_unplaced (n : Node) : n.unplaced.class_ = n.class_ := by cases n <;> rfl

/-! ## Consistency -/

theorem same_iff : a.same b = true ↔ a.unplaced = b.unplaced := decide_eq_true_iff

/-- Nodes are the same if and only if all their fields agree but positions and the names of files.
-/
theorem same_iff_agrees : a.same b = true ↔ a.Agrees .same b :=
  same_iff.trans (agrees_iff (p := .same) a b).symm

/-- Nodes have one fingerprint if and only if what fingerprints see of their fields agrees. -/
theorem fingerprint_eq_iff_agrees : a.fingerprint = b.fingerprint ↔ a.Agrees .coarse b :=
  (agrees_iff (p := .coarse) a b).symm

/-- Nodes that are the same have one fingerprint. -/
theorem fingerprint_eq_of_same (h : a.same b = true) : a.fingerprint = b.fingerprint :=
  fingerprint_eq_iff_agrees.2 (same_iff_agrees.1 h).coarsen

theorem same_equivalence : Equivalence fun a b : Node => a.same b = true where
  refl _ := same_iff.2 rfl
  symm h := same_iff.2 (same_iff.1 h).symm
  trans h h' := same_iff.2 ((same_iff.1 h).trans (same_iff.1 h'))

/-- Nodes of different classes are not the same. -/
theorem same_of_class_ne (h : a.class_ ≠ b.class_) : a.same b = false := by
  refine Bool.eq_false_iff.2 fun hsame => h ?_
  rw [← class_unplaced a, same_iff.1 hsame, class_unplaced]

/-- A node with another position somewhere is the same as the same nodes as before. -/
theorem Moves.same_eq (h : a.Moves b) (c : Node) : a.same c = b.same c ∧ c.same a = c.same b := by
  simp only [same, h.unplaced_eq, and_self]

theorem Moves.fingerprint_eq (h : a.Moves b) : a.fingerprint = b.fingerprint :=
  fingerprint_eq_of_same (same_iff.2 h.unplaced_eq)

/-- **Sameness and fingerprints are consistent.** Sameness is an equivalence that keeps classes
apart. It is agreement in all fields, at every level, but positions and the names of files; so
another position somewhere in a node, or another name of a file, changes neither what the node is
the same as nor its fingerprint. Nodes that are the same have one fingerprint, which is to say that
they agree at every level in all that fingerprints see: truth values count as numbers there, and the
clauses of statements and the constants and bodies of functions do not count. -/
theorem sameness_consistent :
    Equivalence (fun a b : Node => a.same b = true) ∧
    (∀ a b : Node, a.class_ ≠ b.class_ → a.same b = false) ∧
    (∀ a b : Node, a.same b = true ↔ a.Agrees .same b) ∧
    (∀ a b : Node, a.Moves b →
      a.fingerprint = b.fingerprint ∧ ∀ c : Node, a.same c = b.same c ∧ c.same a = c.same b) ∧
    (∀ a b : Node, a.same b = true → a.Agrees .coarse b) ∧
    ∀ a b : Node, a.fingerprint = b.fingerprint ↔ a.Agrees .coarse b :=
  ⟨same_equivalence, fun _ _ => same_of_class_ne, fun _ _ => same_iff_agrees,
    fun _ _ h => ⟨h.fingerprint_eq, h.same_eq⟩, fun _ _ h => (same_iff_agrees.1 h).coarsen,
    fun _ _ => fingerprint_eq_iff_agrees⟩

/-- The item `x : bool := true` of a structure, on two lines, and the item `x : bool := 1`: the
first two are the same, and all three have one fingerprint. -/
theorem item_consistent :
    let item (value : Value) (pos : Pos) : Node := struct
      { name := "s"
        items := [{ name := "x", dataType := .scalar .bool, expr := { kind := .bool, value, pos } }] }
    let here := item (.bool true) ⟨1, 22⟩
    let there := item (.bool true) ⟨2, 15⟩
    let one := item (.int 1) ⟨1, 22⟩
    here.Moves there ∧ here.fingerprint = there.fingerprint ∧ here.same there = true ∧
      here.Agrees .coarse there ∧ here.class_ ≠ (expr .none).class_ ∧
      here.same (expr .none) = false ∧ here.same one = false ∧ here.Agrees .coarse one := by
  intro item here there one
  obtain ⟨equivalence, apart, -, moves, agree, prints⟩ := sameness_consistent
  have hmoves : here.Moves there :=
    .struct (.item { name := "s" } [] [] (.expr { name := "x", dataType := .scalar .bool }
      (.here { kind := .bool, value := .bool true, pos := ⟨1, 22⟩ } ⟨2, 15⟩)))
  have hsame : here.same there = true := by
    rw [((moves here there hmoves).2 there).1]
    exact equivalence.refl there
  have hclass : here.class_ ≠ (expr .none).class_ := by decide
  exact ⟨hmoves, (moves here there hmoves).1, hsame, agree here there hsame, hclass,
    apart here _ hclass, by decide, (prints here one).1 (by decide)⟩

end Node

end ToyLang
