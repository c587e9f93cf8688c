import ToyLang.Proofs.Spelling.Text

/-!
# Regular and canonical trees

A tree is regular if it has the shape of trees that are built without a report: names are words that
are not reserved, literals can be written, nodes hold the operands their kind promises, and an
assignment stands only where a statement or a declaration assigns. Such trees can still hold what
their text does not show: an absent operand, a list of one item, a list that is assigned, a reserved
word in the path of an import. Definite trees hold none of this.

All predicates have the parameter `definite`, which adds the conditions of definite trees. A
canonical file is one that is regular and definite (`File.Canonical`).
-/

set_option autoImplicit false

namespace ToyLang

/-- A name: a word that is not reserved. -/
def IsName (s : String) : Prop := IsWord s.toList ∧ s ∉ TokenKind.spellings.map Prod.fst

instance (s : String) : Decidable (IsName s) := inferInstanceAs (Decidable (_ ∧ _))

/-- No symbol is a word. -/
theorem not_isWord_symbol (k : TokenKind) (text : List Char) (h : k.IsSymbol text) :
    ¬IsWord text := by
  rintro ⟨⟨c, cs, rfl, hc⟩, -⟩
  have hplain : "()[];:,.-+*/%&|^=!><".toList.all (!isWordStart ·) = true := by decide
  have := List.all_eq_true.1 hplain c h.head_mem
  rw [hc] at this
  cases this

/-- A word is a name if it makes an identifier. -/
theorem isName_iff {s : String} (h : IsWord s.toList) :
    IsName s ↔ TokenKind.ofWord s = .ident := by
  have hkeys : TokenKind.spellings.map Prod.fst = Keyword.all.map Keyword.spelling ++
      Scalar.all.map Scalar.spelling ++ Punct.all.map Punct.spelling ++
        Operator.all.map Operator.spelling := by decide
  have hpunct : s ∉ Punct.all.map Punct.spelling := fun hs => by
    obtain ⟨p, -, rfl⟩ := List.mem_map.1 hs
    exact not_isWord_symbol (.punct p) _ (.inl ⟨p, rfl, rfl⟩) h
  have hoperator : s ∉ Operator.all.map Operator.spelling := fun hs => by
    obtain ⟨o, -, rfl⟩ := List.mem_map.1 hs
    exact not_isWord_symbol (.operator o) _ (.inr ⟨o, rfl, rfl⟩) h
  have hword : TokenKind.ofWord s = .ident ↔
      Keyword.ofSpelling? s = none ∧ Scalar.ofSpelling? s = none := by
    unfold TokenKind.ofWord
    split <;> simp_all
  rw [hword, Keyword.ofSpelling?, Scalar.ofSpelling?, Lexicon.find?_eq_none_iff,
    Lexicon.find?_eq_none_iff, IsName, hkeys]
  simp only [List.mem_append, hpunct, hoperator, or_false, not_or]
  exact ⟨fun hs => hs.2, fun hs => ⟨h, hs⟩⟩

theorem IsName.kind {s : String} (h : IsName s) : TokenKind.ofWord s = .ident :=
  (isName_iff h.1).1 h

/-! ## Expressions -/

/-- A regular expression. No operation in it is an assignment. -/
inductive Expr.Regular (definite : Prop) : Expr → Prop
  | none (pos : Pos) : Regular definite (.none pos)
  | int (n : Nat) (pos : Pos) (h : n ≤ maxNumber) :
      Regular definite { kind := .int, value := .int n, pos }
  | string (s : String) (pos : Pos) (h : '\x22' ∉ s.toList) :
      Regular definite { kind := .string, value := .text s, pos }
  | char (c : Char) (pos : Pos) (h : c ≠ '\x27') :
      Regular definite { kind := .char, value := .text (String.ofList [c]), pos }
  | bool (b : Bool) (pos : Pos) : Regular definite { kind := .bool, value := .bool b, pos }
  | identifier (s : String) (pos : Pos) (h : IsName s) :
      Regular definite (.identifier (.text s) pos)
  | operation (o : Operator) (l r : Expr) (pos : Pos) (ho : o ≠ .assign)
      (hl : Regular definite l) (hr : Regular definite r)
      (hdef : definite → l.isNone = false ∧ r.isNone = false) :
      Regular definite (.operation o l r pos)
  | list (items : List Expr) (pos : Pos) (h : ∀ e ∈ items, Regular definite e)
      (hdef : definite → 2 ≤ items.length ∧ ∀ e ∈ items, e.isNone = false) :
      Regular definite { kind := .list, items, pos }
  | call (s : String) (arg : Expr) (pos : Pos) (h : IsName s) (harg : Regular definite arg) :
      Regular definite (Parser.accessExpr .call (.text s) arg pos)
  | arrayAcc (s : String) (arg : Expr) (pos : Pos) (h : IsName s) (harg : Regular definite arg) :
      Regular definite (Parser.accessExpr .arrayAcc (.text s) arg pos)
  | structAcc (s m : String) (pos mpos : Pos) (h : IsName s) (hm : IsName m) :
      Regular definite
        (Parser.accessExpr .structAcc (.text s) (.identifier (.text m) mpos) pos)

namespace Expr

/-- A regular value that is assigned. -/
structure Assigned (definite : Prop) (v : Expr) : Prop where
  regular : v.Regular definite
  shown : definite → v.isNone = false ∧ v.kind ≠ .list

/-- What is assigned to in a statement. -/
def IsTarget (e : Expr) : Prop := e.kind = .identifier ∨ e.kind = .arrayAcc ∨ e.kind = .structAcc

/-- The value of a declaration of `name`: none, or an assignment to that name. -/
inductive Initializes (definite : Prop) (name : String) : Expr → Prop
  | absent (pos : Pos) : Initializes definite name (.none pos)
  | assign (v : Expr) (pos tpos : Pos) (h : v.Assigned definite) :
      Initializes definite name (.operation .assign (.identifier (.text name) tpos) v pos)

end Expr

/-! ## Statements -/

namespace Stmt

/-- A block as a body. -/
def bodyOf (ss : List Stmt) (pos : Pos) : List Stmt := [{ Stmt.block ss with pos }]

/-- The statements in the body of a clause. -/
def inner (s : Stmt) : List Stmt := s.statements.flatMap Stmt.statements

/-- The clauses of a chain: some with a condition, then perhaps one without. -/
inductive IsChain : List Stmt → Prop
  | nil : IsChain []
  | elif (condition : Expr) (ss : List Stmt) (pos bpos : Pos) (rest : List Stmt)
      (h : IsChain rest) :
      IsChain ({ kind := .elif_, expr := condition, statements := bodyOf ss bpos, pos } :: rest)
  | else_ (ss : List Stmt) (epos pos bpos : Pos) :
      IsChain [{ kind := .else_, expr := .none epos, statements := bodyOf ss bpos, pos }]

/-- The shapes of clauses. -/
theorem IsChain.mem {bs : List Stmt} (h : IsChain bs) {b : Stmt} (hb : b ∈ bs) :
    (∃ condition ss pos bpos, b =
      { kind := .elif_, expr := condition, statements := bodyOf ss bpos, pos }) ∨
    ∃ ss epos pos bpos, b =
      { kind := .else_, expr := .none epos, statements := bodyOf ss bpos, pos } := by
  induction h with
  | nil => cases hb
  | elif condition ss pos bpos rest _ ih =>
    rcases List.mem_cons.1 hb with rfl | hb
    · exact .inl ⟨_, _, _, _, rfl⟩
    · exact ih hb
  | else_ ss epos pos bpos =>
    rw [List.mem_singleton.1 hb]
    exact .inr ⟨_, _, _, _, rfl⟩

theorem inner_body (kind : StmtKind) (e : Expr) (ss : List Stmt) (pos bpos : Pos) :
    inner { kind, expr := e, statements := bodyOf ss bpos, pos } = ss := by
  simp [inner, bodyOf, block]

/-- A regular statement. -/
inductive Regular (definite : Prop) : Stmt → Prop
  | varDec (name : String) (s : Scalar) (e : Expr) (pos : Pos) (h : IsName name)
      (he : e.Initializes definite name) :
      Regular definite { kind := .varDec, name, dataType := .scalar s, expr := e, pos }
  | arrayDec (name : String) (s : Scalar) (e : Expr) (pos : Pos) (h : IsName name)
      (he : e.Regular definite) :
      Regular definite { kind := .arrayDec, name, dataType := .scalar s, expr := e, pos }
  | structDec (name type : String) (pos tpos : Pos) (h : IsName name) (htype : IsName type) :
      Regular definite { kind := .structDec, name, expr := .identifier (.text type) tpos, pos }
  | exprStmt (target v : Expr) (pos apos : Pos) (htarget : target.IsTarget)
      (ht : target.Regular definite) (hv : v.Assigned definite) :
      Regular definite { kind := .exprStmt, expr := .operation .assign target v apos, pos }
  | callStmt (name : String) (e : Expr) (pos : Pos) (h : IsName name) (he : e.Regular definite) :
      Regular definite { kind := .callStmt, name, expr := e, pos }
  | return_ (e : Expr) (pos : Pos) (he : e.Regular definite) :
      Regular definite { kind := .return_, expr := e, pos }
  | break_ (epos pos : Pos) : Regular definite { kind := .break_, expr := .none epos, pos }
  | continue_ (epos pos : Pos) : Regular definite { kind := .continue_, expr := .none epos, pos }
  | while_ (condition : Expr) (ss : List Stmt) (pos bpos : Pos)
      (hc : condition.Regular definite) (hs : ∀ s ∈ ss, Regular definite s) :
      Regular definite
        { kind := .while_, expr := condition, statements := bodyOf ss bpos, pos }
  | if_ (condition : Expr) (ss branches : List Stmt) (pos bpos : Pos)
      (hc : condition.Regular definite) (hs : ∀ s ∈ ss, Regular definite s)
      (hchain : IsChain branches) (hconditions : ∀ b ∈ branches, b.expr.Regular definite)
      (hbodies : ∀ b ∈ branches, ∀ s ∈ b.inner, Regular definite s) :
      Regular definite
        { kind := .if_, expr := condition, statements := bodyOf ss bpos, branches, pos }

end Stmt

/-! ## Declarations and files -/

namespace TypedName

/-- Name and type of a declaration. -/
structure Declared (t : TypedName) : Prop where
  name : IsName t.name
  type : ∃ s, t.dataType = .scalar s

/-- A parameter. -/
structure IsParam (t : TypedName) : Prop extends t.Declared where
  bare : ∃ pos, t.expr = .none pos

/-- A regular constant. -/
structure IsConstant (definite : Prop) (t : TypedName) : Prop extends t.Declared where
  value : t.expr.Regular definite

/-- A regular item of a structure. -/
structure IsItem (definite : Prop) (t : TypedName) : Prop extends t.Declared where
  value : t.expr.Initializes definite t.name

end TypedName

/-- A regular function. -/
structure Function.Regular (definite : Prop) (f : Function) : Prop where
  name : IsName f.name
  args : ∀ a ∈ f.args, a.IsParam
  consts : ∀ c ∈ f.consts, c.IsConstant definite
  block : ∃ ss pos, f.block = { Stmt.block ss with pos } ∧ ∀ s ∈ ss, s.Regular definite

/-- A regular structure. -/
structure Struct.Regular (definite : Prop) (s : Struct) : Prop where
  name : IsName s.name
  items : ∀ t ∈ s.items, t.IsItem definite

/-- A regular path: words between slashes, or nothing between them. Definite words are names. -/
def IsPath (definite : Prop) (path : String) : Prop :=
  ∀ w ∈ path.toList.splitOn '/', w = [] ∨ IsWord w ∧ (definite → IsName (String.ofList w))

/-- A regular file. -/
structure File.Regular (definite : Prop) (f : File) : Prop where
  functions : ∀ g ∈ f.functions, g.Regular definite
  structs : ∀ s ∈ f.structs, s.Regular definite
  consts : ∀ c ∈ f.consts, c.IsConstant definite
  imports : ∀ path ∈ f.imports, IsPath definite path

/-- **A canonical file**: regular and definite. -/
def File.Canonical (f : File) : Prop := f.Regular True

end ToyLang
