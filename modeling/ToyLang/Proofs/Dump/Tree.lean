import ToyLang.Proofs.Dump.Json
import ToyLang.Proofs.Sameness.Moves
import ToyLang.Tree.Dump

/-!
# Dumps show what sameness compares

The dump of a tree holds every field, so that no two trees have dumps that are one as JSON. Without
the positions, and without the name of a file, it holds just what sameness compares. Both are one
statement about a `Precision` and the fields that it hides: what is left of two dumps is equivalent
if and only if the trees agree at that precision (`Expr.toJson_iff` and its like for every class). A
row that is left out of a dump is an empty one (`Json.FieldsEquivalent.row_iff`), and a name that
stands for a kind or a type stands for one only.

The main result is `Node.dump_faithful`.
-/

set_option autoImplicit false

namespace ToyLang

open Json (Equivalent EquivalentWithout FieldsEquivalent equivalentWithout_str_iff
  equivalentWithout_int_iff equivalentWithout_arr_iff equivalentWithout_obj_iff)

/-! ## What a precision hides -/

namespace Precision

/-- The fields of dumps that do not count. -/
def hidden : Precision → List String
  | identical => []
  | _ => ["line", "col"]

variable {p : Precision}

theorem mem_hidden {name : String} :
    name ∈ p.hidden ↔ p ≠ .identical ∧ (name = "line" ∨ name = "col") := by
  cases p <;> simp [hidden]

theorem pos_eq_iff {pos pos' : Pos} :
    p.pos pos = p.pos pos' ↔
      (p = .identical → pos.line = pos'.line) ∧ (p = .identical → pos.col = pos'.col) := by
  obtain ⟨line, col⟩ := pos
  obtain ⟨line', col'⟩ := pos'
  cases p <;> simp [Precision.pos]

theorem value_of_ne_coarse (hp : p ≠ .coarse) (v : Value) : p.value v = v := by
  cases p with
  | coarse => exact absurd rfl hp
  | identical | same => rfl

end Precision

/-! ## Fields of dumps -/

section
variable {names : List String} {fs gs : List (String × Json)} {name : String} {js ks : List Json}

theorem lookup_rowField (name n : String) (js : List Json) :
    (rowField name js).lookup n = if n = name ∧ js ≠ [] then some (Json.arr js) else none := by
  cases js with
  | nil => simp [rowField]
  | cons j js =>
    by_cases hn : n = name
    · simp [rowField, hn]
    · simp [rowField, List.lookup_cons, hn, beq_eq_false_iff_ne.2 hn]

namespace Json.FieldsEquivalent

/-- A field that counts, in front of others of other names. -/
theorem field_iff {j k : Json} (hname : name ∉ names) (hf : fs.lookup name = none)
    (hg : gs.lookup name = none) :
    FieldsEquivalent names ((name, j) :: fs) ((name, k) :: gs) ↔
      EquivalentWithout names j k ∧ FieldsEquivalent names fs gs := by
  rw [cons_iff hf hg, forall_prop_of_true hname]

/-- A field that counts, at the end. -/
theorem last_field_iff {j k : Json} (hname : name ∉ names) :
    FieldsEquivalent names [(name, j)] [(name, k)] ↔ EquivalentWithout names j k := by
  rw [field_iff hname rfl rfl, and_iff_left nil]

/-- A row that counts, in front of fields of other names. A row that is left out is an empty one. -/
theorem row_iff (hname : name ∉ names) (hf : fs.lookup name = none) (hg : gs.lookup name = none) :
    FieldsEquivalent names (rowField name js ++ fs) (rowField name ks ++ gs) ↔
      List.Forall₂ (EquivalentWithout names) js ks ∧ FieldsEquivalent names fs gs := by
  have lookup (js : List Json) {fs : List (String × Json)} (hf : fs.lookup name = none)
      (n : String) : (rowField name js ++ fs).lookup n =
        if n = name then (if js = [] then none else some (Json.arr js)) else fs.lookup n := by
    rw [List.lookup_append, lookup_rowField]
    by_cases hn : n = name <;> by_cases hjs : js = [] <;> simp [hn, hjs, hf]
  have hrow : Option.Rel (EquivalentWithout names)
      (if js = [] then none else some (Json.arr js))
      (if ks = [] then none else some (Json.arr ks)) ↔
        List.Forall₂ (EquivalentWithout names) js ks := by
    cases js <;> cases ks <;> simp
  rw [slot_iff hf hg (lookup js hf) (lookup ks hg), hrow, forall_prop_of_true hname]

/-- A row that counts, at the end. -/
theorem last_row_iff (hname : name ∉ names) :
    FieldsEquivalent names (rowField name js) (rowField name ks) ↔
      List.Forall₂ (EquivalentWithout names) js ks := by
  have h : FieldsEquivalent names (rowField name js ++ []) (rowField name ks ++ []) ↔
      _ ∧ FieldsEquivalent names [] [] := row_iff hname rfl rfl
  rwa [List.append_nil, List.append_nil, and_iff_left nil] at h

/-- A position in front of fields of other names. -/
theorem pos_iff {p : Precision} {pos pos' : Pos}
    (hline : fs.lookup "line" = none ∧ gs.lookup "line" = none)
    (hcol : fs.lookup "col" = none ∧ gs.lookup "col" = none) :
    FieldsEquivalent p.hidden (pos.fields ++ fs) (pos'.fields ++ gs) ↔
      p.pos pos = p.pos pos' ∧ FieldsEquivalent p.hidden fs gs := by
  have cons (fs : List (String × Json)) (h : fs.lookup "line" = none) (col : Json) :
      (("col", col) :: fs).lookup "line" = none := by simpa [List.lookup_cons] using h
  simp only [Pos.fields, List.cons_append, List.nil_append]
  rw [cons_iff (cons fs hline.1 _) (cons gs hline.2 _), cons_iff hcol.1 hcol.2,
    Precision.pos_eq_iff]
  simp [Precision.mem_hidden, and_assoc]

end Json.FieldsEquivalent

/-- Rows of dumps of things that are related as what is left of their dumps. -/
theorem dumps_iff {α : Type} {toJson : α → Json} {R : α → α → Prop} {as bs : List α}
    (h : ∀ a ∈ as, ∀ b, EquivalentWithout names (toJson a) (toJson b) ↔ R a b) :
    List.Forall₂ (EquivalentWithout names) (as.map toJson) (bs.map toJson) ↔
      List.Forall₂ R as bs := by
  rw [List.forall₂_map_left_iff, List.forall₂_map_right_iff]
  exact forall₂_congr_mem h

end

variable {p : Precision}

theorem Value.toJson_iff {names : List String} (v w : Value) :
    EquivalentWithout names v.toJson w.toJson ↔ v = w := by
  have hwithout (v : Value) : v.toJson.without names = v.toJson := by cases v <;> rfl
  rw [EquivalentWithout, hwithout, hwithout]
  constructor
  · intro h
    cases v <;> cases w <;> cases h <;> rfl
  · rintro rfl
    exact .refl _

theorem ExprKind.name_inj {k l : ExprKind} : k.name = l.name ↔ k = l :=
  ⟨name_injective, congrArg name⟩

theorem StmtKind.name_inj {k l : StmtKind} : k.name = l.name ↔ k = l :=
  ⟨name_injective, congrArg name⟩

theorem DataType.text_inj {t u : DataType} : t.text = u.text ↔ t = u :=
  ⟨Lexicon.text_injective ofText?_text, congrArg text⟩

/-! ## Expressions and statements -/

theorem Expr.toJson_iff (hp : p ≠ .coarse) : (a b : Expr) →
    (EquivalentWithout p.hidden a.toJson b.toJson ↔ a.Agrees p b)
  | ⟨kind, value, args, items, pos⟩, ⟨kind', value', args', items', pos'⟩ => by
    have hargs : List.Forall₂ (EquivalentWithout p.hidden) (args.map toJson) (args'.map toJson) ↔
        List.Forall₂ (Agrees p) args args' :=
      dumps_iff fun a _ b => toJson_iff hp a b
    have hitems : List.Forall₂ (EquivalentWithout p.hidden) (items.map toJson) (items'.map toJson) ↔
        List.Forall₂ (Agrees p) items items' :=
      dumps_iff fun a _ b => toJson_iff hp a b
    rw [toJson, toJson, toJsonAll_eq_map, toJsonAll_eq_map, toJsonAll_eq_map, toJsonAll_eq_map,
      equivalentWithout_obj_iff]
    simp only [List.append_assoc, List.cons_append, List.nil_append]
    -- one field after the other is split off, since none behind it has its name
    simp (disch := simp [Precision.mem_hidden, Pos.fields, List.lookup_cons, List.lookup_append,
      lookup_rowField]) only
      [FieldsEquivalent.field_iff, FieldsEquivalent.pos_iff, FieldsEquivalent.row_iff,
        FieldsEquivalent.last_row_iff]
    rw [equivalentWithout_str_iff, ExprKind.name_inj, Value.toJson_iff, hargs, hitems, agrees_mk,
      Precision.value_of_ne_coarse hp, Precision.value_of_ne_coarse hp]
    tauto

theorem Stmt.toJson_iff (hp : p ≠ .coarse) : (a b : Stmt) →
    (EquivalentWithout p.hidden a.toJson b.toJson ↔ a.Agrees p b)
  | ⟨kind, name, dataType, expr, statements, branches, pos⟩,
    ⟨kind', name', dataType', expr', statements', branches', pos'⟩ => by
    have hstatements : List.Forall₂ (EquivalentWithout p.hidden) (statements.map toJson)
        (statements'.map toJson) ↔ List.Forall₂ (Agrees p) statements statements' :=
      dumps_iff fun a _ b => toJson_iff hp a b
    have hbranches : List.Forall₂ (EquivalentWithout p.hidden) (branches.map toJson)
        (branches'.map toJson) ↔ List.Forall₂ (Agrees p) branches branches' :=
      dumps_iff fun a _ b => toJson_iff hp a b
    rw [toJson, toJson, toJsonAll_eq_map, toJsonAll_eq_map, toJsonAll_eq_map, toJsonAll_eq_map,
      equivalentWithout_obj_iff]
    simp only [List.append_assoc, List.cons_append, List.nil_append]
    simp (disch := simp [Precision.mem_hidden, Pos.fields, List.lookup_cons, List.lookup_append,
      lookup_rowField]) only
      [FieldsEquivalent.field_iff, FieldsEquivalent.pos_iff, FieldsEquivalent.row_iff,
        FieldsEquivalent.last_row_iff]
    rw [equivalentWithout_str_iff, equivalentWithout_str_iff, equivalentWithout_str_iff,
      StmtKind.name_inj, DataType.text_inj, Expr.toJson_iff hp, hstatements, hbranches, agrees_mk]
    tauto

/-! ## Declarations -/

theorem TypedName.toJson_iff (hp : p ≠ .coarse) (a b : TypedName) :
    EquivalentWithout p.hidden a.toJson b.toJson ↔ a.Agrees p b := by
  rw [toJson, toJson, equivalentWithout_obj_iff]
  simp (disch := simp [Precision.mem_hidden, List.lookup_eq_none_iff]) only
    [FieldsEquivalent.field_iff, FieldsEquivalent.last_field_iff]
  rw [equivalentWithout_str_iff, equivalentWithout_str_iff, DataType.text_inj, Expr.toJson_iff hp,
    Agrees]

theorem TypedName.dumps_iff (hp : p ≠ .coarse) {as bs : List TypedName} :
    EquivalentWithout p.hidden (.arr (as.map toJson)) (.arr (bs.map toJson)) ↔
      List.Forall₂ (Agrees p) as bs :=
  equivalentWithout_arr_iff.trans (ToyLang.dumps_iff fun a _ b => toJson_iff hp a b)

theorem Function.toJson_iff (hp : p ≠ .coarse) (a b : Function) :
    EquivalentWithout p.hidden a.toJson b.toJson ↔ a.Agrees p b := by
  rw [toJson, toJson, equivalentWithout_obj_iff]
  simp (disch := simp [Precision.mem_hidden, List.lookup_eq_none_iff]) only
    [FieldsEquivalent.field_iff, FieldsEquivalent.last_field_iff]
  rw [equivalentWithout_str_iff, equivalentWithout_str_iff, DataType.text_inj,
    TypedName.dumps_iff hp, TypedName.dumps_iff hp, Stmt.toJson_iff hp, Agrees,
    forall_prop_of_true hp]

theorem Struct.toJson_iff (hp : p ≠ .coarse) (a b : Struct) :
    EquivalentWithout p.hidden a.toJson b.toJson ↔ a.Agrees p b := by
  rw [toJson, toJson, equivalentWithout_obj_iff]
  simp (disch := simp [Precision.mem_hidden, List.lookup_eq_none_iff]) only
    [FieldsEquivalent.field_iff, FieldsEquivalent.last_field_iff]
  rw [equivalentWithout_str_iff, TypedName.dumps_iff hp, Agrees]

/-! ## Nodes of any class -/

/-- The dump of a file, with its name only where this counts. -/
def File.toJsonAt : Precision → File → Json
  | .identical, f => f.toJson
  | _, f => f.toJson.dropField "name"

theorem File.toJsonAt_iff (hp : p ≠ .coarse) (a b : File) :
    EquivalentWithout p.hidden (a.toJsonAt p) (b.toJsonAt p) ↔ a.Agrees p b := by
  have himports : EquivalentWithout p.hidden (.arr (a.imports.map .str))
      (.arr (b.imports.map .str)) ↔ a.imports = b.imports := by
    rw [equivalentWithout_arr_iff, dumps_iff fun s _ t => equivalentWithout_str_iff,
      List.forall₂_eq_eq_eq]
  have hstructs : EquivalentWithout p.hidden (.arr (a.structs.map Struct.toJson))
      (.arr (b.structs.map Struct.toJson)) ↔ List.Forall₂ (Struct.Agrees p) a.structs b.structs :=
    equivalentWithout_arr_iff.trans (dumps_iff fun s _ t => Struct.toJson_iff hp s t)
  have hfunctions : EquivalentWithout p.hidden (.arr (a.functions.map Function.toJson))
      (.arr (b.functions.map Function.toJson)) ↔
        List.Forall₂ (Function.Agrees p) a.functions b.functions :=
    equivalentWithout_arr_iff.trans (dumps_iff fun f _ g => Function.toJson_iff hp f g)
  cases p with
  | coarse => exact absurd rfl hp
  | identical =>
    rw [toJsonAt, toJsonAt, toJson, toJson, equivalentWithout_obj_iff]
    simp (disch := simp [Precision.mem_hidden, List.lookup_eq_none_iff]) only
      [FieldsEquivalent.field_iff, FieldsEquivalent.last_field_iff]
    rw [equivalentWithout_str_iff, himports, TypedName.dumps_iff hp, hstructs, hfunctions, Agrees]
    tauto
  | same =>
    have hdrop (f : File) : f.toJsonAt .same = .obj
        [("imports", .arr (f.imports.map .str)), ("consts", .arr (f.consts.map TypedName.toJson)),
          ("structs", .arr (f.structs.map Struct.toJson)),
          ("functions", .arr (f.functions.map Function.toJson))] := by
      simp [toJsonAt, toJson, Json.dropField]
    rw [hdrop, hdrop, equivalentWithout_obj_iff]
    simp (disch := simp [Precision.mem_hidden, List.lookup_eq_none_iff]) only
      [FieldsEquivalent.field_iff, FieldsEquivalent.last_field_iff]
    rw [himports, TypedName.dumps_iff hp, hstructs, hfunctions, Agrees]
    tauto

namespace Node

/-- The dump of a node. -/
def toJson : Node → Json
  | expr e => e.toJson
  | stmt s => s.toJson
  | typedName t => t.toJson
  | function f => f.toJson
  | struct s => s.toJson
  | file f => f.toJson

/-- The dump of a node without any position and, of a file, without its name. -/
def bareJson : Node → Json
  | file f => (f.toJson.dropField "name").without ["line", "col"]
  | n => n.toJson.without ["line", "col"]

/-- The dump of a node, of a file with its name only where this counts. -/
def toJsonAt (p : Precision) : Node → Json
  | file f => f.toJsonAt p
  | n => n.toJson

/-- The class of a node as its dump shows it. -/
def Class.ofJson (j : Json) : Class :=
  if j.has "value" then .expr
  else if j.has "kind" then .stmt
  else if j.has "expr" then .typedName
  else if j.has "block" then .function
  else if j.has "imports" then .file
  else .struct

theorem Class.ofJson_toJsonAt (n : Node) : Class.ofJson (n.toJsonAt p) = n.class_ := by
  cases n with
  | expr e =>
    cases e
    simp [ofJson, toJsonAt, toJson, Expr.toJson, Json.has, class_]
  | stmt s =>
    cases s
    simp [ofJson, toJsonAt, toJson, Stmt.toJson, Pos.fields, Json.has, List.lookup_cons,
      List.lookup_append, lookup_rowField, class_]
  | typedName t | function f | struct s => rfl
  | file f => cases p <;> rfl

theorem Class.ofJson_eq {names : List String} {j k : Json} (h : EquivalentWithout names j k)
    (hnames : names ⊆ ["line", "col"]) : Class.ofJson j = Class.ofJson k := by
  have hhas (name : String) (hname : name ∉ ["line", "col"]) : j.has name = k.has name :=
    h.has_eq fun hmem => hname (hnames hmem)
  rw [ofJson, hhas "value" (by decide), hhas "kind" (by decide), hhas "expr" (by decide),
    hhas "block" (by decide), hhas "imports" (by decide), ofJson]

variable {a b : Node}

theorem Agrees.class_eq (h : a.Agrees p b) : a.class_ = b.class_ := by
  match a, b, h with
  | expr _, expr _, _ | stmt _, stmt _, _ | typedName _, typedName _, _ | function _, function _, _
  | struct _, struct _, _ | file _, file _, _ => rfl

theorem toJsonAt_iff (hp : p ≠ .coarse) :
    EquivalentWithout p.hidden (a.toJsonAt p) (b.toJsonAt p) ↔ a.Agrees p b := by
  by_cases hclass : a.class_ = b.class_
  -- nodes of one class are compared field by field, and the dumps of others have other fields
  · cases a <;> cases b <;> simp only [class_, reduceCtorEq] at hclass
    case expr.expr a b => exact Expr.toJson_iff hp a b
    case stmt.stmt a b => exact Stmt.toJson_iff hp a b
    case typedName.typedName a b => exact TypedName.toJson_iff hp a b
    case function.function a b => exact Function.toJson_iff hp a b
    case struct.struct a b => exact Struct.toJson_iff hp a b
    case file.file a b => exact File.toJsonAt_iff hp a b
  · constructor
    · intro h
      have hjson := Class.ofJson_eq h (by cases p <;> simp [Precision.hidden])
      rw [Class.ofJson_toJsonAt, Class.ofJson_toJsonAt] at hjson
      exact absurd hjson hclass
    · intro h
      exact absurd h.class_eq hclass

/-- **Dumps show what sameness compares, and dumps of different trees differ.** Two nodes are the
same if and only if their dumps are one as JSON without the positions and the names of files, and
two nodes whose dumps are one as JSON are one node. -/
theorem dump_faithful (a b : Node) :
    (a.same b = true ↔ a.bareJson.Equivalent b.bareJson) ∧
      (a.toJson.Equivalent b.toJson ↔ a = b) := by
  constructor
  · have hbare (n : Node) : n.bareJson = (n.toJsonAt .same).without Precision.same.hidden := by
      cases n <;> rfl
    rw [same_iff_agrees, hbare, hbare]
    exact (toJsonAt_iff (by decide)).symm
  · have hwhole (n : Node) :
        n.toJson = (n.toJsonAt .identical).without Precision.identical.hidden := by
      cases n <;> exact (Json.without_nil _).symm
    rw [hwhole, hwhole, ← show a.Agrees .identical b ↔ a = b from agrees_iff a b]
    exact toJsonAt_iff (by decide)

end Node

end ToyLang
