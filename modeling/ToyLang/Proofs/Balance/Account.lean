import ToyLang.Proofs.Balance.File

/-!
# The tokens of an accepted file are accounted for

What holds of all weights says how many nodes there are of each kind: weigh one keyword, one
operator or one literal value with one and everything else with nothing.

* `File.Accounts`: the tokens of each kind against the nodes that stand for them;
* `accepted_tokens_accounted`: no token is lost or duplicated where nothing is reported.
-/

set_option autoImplicit false

namespace ToyLang

/-! ## Counting -/

/-- How many tokens have a kind. -/
def countTokens (k : TokenKind) (ts : List Token) : Nat := ts.countP fun t => t.kind = k

/-- The values of the tokens of a kind. -/
def tokenValues (k : TokenKind) (ts : List Token) : List Value :=
  (ts.filter fun t => t.kind = k).map fun t => .ofPayload t.value

namespace File

/-- How many statements of a file, at every depth, have a kind. -/
def countStmts (f : File) (k : StmtKind) : Nat := f.stmts.countP fun s => s.kind = k

/-- How many expressions of a file, at every depth, have a kind. -/
def countExprs (f : File) (k : ExprKind) : Nat := f.exprs.countP fun e => e.kind = k

/-- How many truth values of a file are `b`. -/
def countBools (f : File) (b : Bool) : Nat :=
  f.exprs.countP fun e => e.kind = .bool ∧ e.value = .bool b

/-- The values of the expressions of a kind. -/
def values (f : File) (k : ExprKind) : List Value :=
  (f.exprs.filter fun e => e.kind = k).map Expr.value

/-- How many parts of a file a keyword stands in. -/
def keywordCount (f : File) : Keyword → Nat
  | .func_ => f.functions.length
  | .import_ => f.imports.length
  | .const_ => f.consts.length + (f.functions.map fun g => g.consts.length).sum
  | .struct_ => f.structs.length + f.countStmts .structDec
  | .var_ => f.countStmts .varDec + f.countStmts .arrayDec
  | .return_ => f.countStmts .return_
  | .break_ => f.countStmts .break_
  | .continue_ => f.countStmts .continue_
  | .if_ => f.countStmts .if_
  | .elif_ => f.countStmts .elif_
  | .else_ => f.countStmts .else_
  | .while_ | .do_ => f.countStmts .while_
  | .then_ => f.countStmts .if_ + f.countStmts .elif_
  | .is_ => f.functions.length + f.structs.length
  | .end_ => f.functions.length + f.structs.length + f.countStmts .while_ + f.countStmts .if_
  | .true_ => f.countBools true
  | .false_ => f.countBools false

/-- **The tokens of each kind and the parts of a file that stand for them.** -/
structure Accounts (f : File) (ts : List Token) : Prop where
  keywords : ∀ k, countTokens (.keyword k) ts = f.keywordCount k
  operators : ∀ o ≠ .assign, countTokens (.operator o) ts = f.countExprs (.operation o)
  assigns : countTokens (.operator .assign) ts =
    f.countExprs (.operation .assign) +
      (f.consts.length + (f.functions.map fun g => g.consts.length).sum)
  numbers : (tokenValues .number ts).Perm (f.values .int)
  strings : (tokenValues .string ts).Perm (f.values .string)
  chars : (tokenValues .char ts).Perm (f.values .char)

end File

/-- A sum of ones and zeros counts the ones. -/
theorem sum_map_eq_countP {α : Type} {f : α → Nat} {p : α → Bool} (l : List α)
    (h : ∀ a, f a = if p a then 1 else 0) : (l.map f).sum = l.countP p := by
  induction l with
  | nil => rfl
  | cons a l ih => rw [List.map_cons, List.sum_cons, ih, h, List.countP_cons, Nat.add_comm]

/-- How often a value is among those of the members that are selected. -/
theorem count_map_filter {α : Type} (v : Value) (p : α → Bool) (g : α → Value) (l : List α) :
    ((l.filter p).map g).count v = l.countP fun a => p a ∧ g a = v := by
  rw [List.count, List.countP_map, List.countP_filter]
  refine List.countP_congr fun a _ => ?_
  simp [and_comm]

theorem File.length_constants (f : File) :
    f.constants.length = f.consts.length + (f.functions.map fun g => g.consts.length).sum := by
  rw [File.constants, List.length_append, List.length_flatMap]

namespace Weighing

/-! ## One keyword -/

/-- The weighing of one keyword. -/
def ofKeyword (k : Keyword) : Weighing := { keyword := fun l => if l = k then 1 else 0 }

theorem tokens_ofKeyword (k : Keyword) (ts : List Token) :
    (ofKeyword k).tokens ts = countTokens (.keyword k) ts := by
  refine sum_map_eq_countP ts fun t => ?_
  unfold token
  cases hk : t.kind <;> simp [kind, ofKeyword]

/-- The weight of the statements of a file, by kind. -/
theorem sum_stmtKind (w : Weighing) (f : File) :
    (f.stmts.map fun s => w.stmtKind s.kind).sum =
      (f.countStmts .varDec + f.countStmts .arrayDec) * w.keyword .var_ +
      f.countStmts .structDec * w.keyword .struct_ + f.countStmts .return_ * w.keyword .return_ +
      f.countStmts .break_ * w.keyword .break_ + f.countStmts .continue_ * w.keyword .continue_ +
      f.countStmts .while_ * (w.keyword .while_ + w.keyword .do_ + w.keyword .end_) +
      f.countStmts .if_ * (w.keyword .if_ + w.keyword .then_ + w.keyword .end_) +
      f.countStmts .elif_ * (w.keyword .elif_ + w.keyword .then_) +
      f.countStmts .else_ * w.keyword .else_ := by
  unfold File.countStmts
  induction f.stmts with
  | nil => simp
  | cons s ss ih =>
    rw [List.map_cons, List.sum_cons, ih]
    cases hk : s.kind <;>
      simp [hk, stmtKind, Nat.add_mul, Nat.mul_add] <;> omega

/-- Among expressions only truth values stand for keywords. -/
theorem sum_node_keyword (g : Keyword → Nat) (f : File) :
    (f.exprs.map ({ keyword := g } : Weighing).node).sum =
      f.countBools true * g .true_ + f.countBools false * g .false_ := by
  unfold File.countBools
  induction f.exprs with
  | nil => simp
  | cons e es ih =>
    rw [List.map_cons, List.sum_cons, ih, node]
    split <;> simp_all [Nat.add_mul] <;> omega

theorem file_ofKeyword (k : Keyword) (f : File) : (ofKeyword k).file f = f.keywordCount k := by
  rw [file_eq, sum_stmtKind, ofKeyword, sum_node_keyword, File.length_constants]
  cases k <;> simp [File.keywordCount, Nat.add_assoc]

/-! ## One operator -/

/-- The weighing of one operator. -/
def ofOperator (o : Operator) : Weighing := { operator := fun p => if p = o then 1 else 0 }

theorem tokens_ofOperator (o : Operator) (ts : List Token) :
    (ofOperator o).tokens ts = countTokens (.operator o) ts := by
  refine sum_map_eq_countP ts fun t => ?_
  unfold token
  cases hk : t.kind <;> simp [kind, ofOperator]

theorem sum_stmtKind_of_keyword {w : Weighing} (h : w.keyword = fun _ => 0) (f : File) :
    (f.stmts.map fun s => w.stmtKind s.kind).sum = 0 := by
  rw [sum_stmtKind]
  simp [h]

theorem file_ofOperator (o : Operator) (f : File) :
    (ofOperator o).file f =
      f.countExprs (.operation o) + if o = .assign then f.constants.length else 0 := by
  have hnodes : (f.exprs.map (ofOperator o).node).sum = f.countExprs (.operation o) := by
    refine sum_map_eq_countP _ fun e => ?_
    unfold node
    split <;> simp_all [ofOperator]
  rw [file_eq, sum_stmtKind_of_keyword rfl, hnodes]
  simp [ofOperator, eq_comm, Nat.add_comm]

/-! ## One literal value -/

/-- The weighing of one value of one kind of literal. -/
def ofLiteral (k : TokenKind) (v : Value) : Weighing where
  int u := if k = .number ∧ u = v then 1 else 0
  string u := if k = .string ∧ u = v then 1 else 0
  char u := if k = .char ∧ u = v then 1 else 0

/-- The kinds of literals, as tokens and as expressions. -/
def literals : List (TokenKind × ExprKind) :=
  [(.number, .int), (.string, .string), (.char, .char)]

theorem tokens_ofLiteral {l : TokenKind × ExprKind} (hl : l ∈ literals) (v : Value)
    (ts : List Token) : (ofLiteral l.1 v).tokens ts = (tokenValues l.1 ts).count v := by
  rw [tokenValues, count_map_filter]
  refine sum_map_eq_countP ts fun t => ?_
  simp only [literals, List.mem_cons, List.not_mem_nil, or_false] at hl
  unfold token
  rcases hl with rfl | rfl | rfl <;> cases hk : t.kind <;> simp [kind, ofLiteral]

theorem file_ofLiteral {l : TokenKind × ExprKind} (hl : l ∈ literals) (v : Value) (f : File) :
    (ofLiteral l.1 v).file f = (f.values l.2).count v := by
  have hnodes : (f.exprs.map (ofLiteral l.1 v).node).sum = (f.values l.2).count v := by
    rw [File.values, count_map_filter]
    refine sum_map_eq_countP _ fun e => ?_
    simp only [literals, List.mem_cons, List.not_mem_nil, or_false] at hl
    unfold node
    rcases hl with rfl | rfl | rfl <;> split <;> simp_all [ofLiteral]
  rw [file_eq, sum_stmtKind_of_keyword rfl, hnodes]
  simp [ofLiteral]

end Weighing

/-! ## Accounts -/

/-- What weighs the same whatever the weights has its tokens accounted for. -/
theorem File.accounts_of_weights {f : File} {ts : List Token}
    (h : ∀ w : Weighing, w.tokens ts = w.file f) : f.Accounts ts := by
  have operator (o : Operator) : countTokens (.operator o) ts =
      f.countExprs (.operation o) + if o = .assign then f.constants.length else 0 := by
    rw [← Weighing.tokens_ofOperator, h, Weighing.file_ofOperator]
  have literal (l : TokenKind × ExprKind) (hl : l ∈ Weighing.literals) :
      (tokenValues l.1 ts).Perm (f.values l.2) := by
    refine List.perm_iff_count.2 fun v => ?_
    rw [← Weighing.tokens_ofLiteral hl, h, Weighing.file_ofLiteral hl]
  constructor
  case keywords =>
    intro k
    rw [← Weighing.tokens_ofKeyword, h, Weighing.file_ofKeyword]
  case operators =>
    intro o ho
    rw [operator o, if_neg ho, Nat.add_zero]
  case assigns => rw [operator .assign, if_pos rfl, File.length_constants]
  case numbers => exact literal (.number, .int) (by decide)
  case strings => exact literal (.string, .string) (by decide)
  case chars => exact literal (.char, .char) (by decide)

/-- **No token is lost or duplicated by an accepted parse.** From any row of tokens a file is built;
where nothing was reported, the tokens of each kind are as many as the parts of the file that stand
for them, and the literals have the values of the tokens. -/
theorem accepted_tokens_accounted (ts : List Token) (hts : ∀ t ∈ ts, t.kind ≠ .eof)
    (name : String) :
    ∃ f s, (Session.over (.ofList ts) false).build (Parser.file name) = (.ok f, s) ∧
      (s.diagnostics.items = #[] → f.Accounts ts) := by
  obtain ⟨f, s, hbuild, -⟩ := build_file_ofList ts name
  refine ⟨f, s, hbuild, fun hquiet => File.accounts_of_weights fun w => ?_⟩
  have hahead : (Stream.ofList ts).view.ahead = ts :=
    congrArg View.ahead (View.upToMark_of_ne_eof hts)
  rw [← weighs_file w rfl rfl hbuild hquiet, hahead]

/-- The tokens of `func f is const k: u8 := 2; while true do x := k * 3; end end`. -/
def tripling : List Token :=
  let word (k : Keyword) : Token := { kind := .keyword k, value := .text k.spelling }
  let mark (p : Punct) : Token := { kind := .punct p, value := .text p.spelling }
  let op (o : Operator) : Token := { kind := .operator o, value := .text o.spelling }
  let ident (s : String) : Token := { kind := .ident, value := .text s }
  let number (n : Int) : Token := { kind := .number, value := .int n }
  [word .func_, ident "f", word .is_,
    word .const_, ident "k", mark .colon, { kind := .type .u8, value := .text "u8" }, op .assign,
      number 2, mark .semicolon,
    word .while_, word .true_, word .do_,
      ident "x", op .assign, ident "k", op .mul, number 3, mark .semicolon, word .end_, word .end_]

theorem tripling_accounted :
    (∀ t ∈ tripling, t.kind ≠ .eof) ∧
      ∃ f s, (Session.over (.ofList tripling) false).build (Parser.file "") = (.ok f, s) ∧
        s.diagnostics.items = #[] ∧ f.Accounts tripling := by
  have hts : ∀ t ∈ tripling, t.kind ≠ .eof := by decide
  have hquiet : ((Session.over (.ofList tripling) false).build
      (Parser.file "")).2.diagnostics.items = #[] := rfl
  obtain ⟨f, s, hbuild, haccounts⟩ := accepted_tokens_accounted tripling hts ""
  rw [hbuild] at hquiet
  exact ⟨hts, f, s, hbuild, hquiet, haccounts hquiet⟩

end ToyLang
