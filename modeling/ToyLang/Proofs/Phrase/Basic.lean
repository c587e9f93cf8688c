import ToyLang.Proofs.Accept.Expression
import ToyLang.Proofs.Grammar.Derivation

/-!
# Phrases

A phrase is what the tokens of an expression are taken for while they are read: operands, operators
and commas, in whatever order they come. A name takes its member, its argument or its index with it,
and brackets hold a phrase of their own. Which orders are accepted is said by `Phrase.run`, which
puts the parts on the piles one by one and gives up where something is to be reported, and by
`ExprState.result` at the end of the phrase.
-/

set_option autoImplicit false

namespace ToyLang

open Grammar (Name Mark)

/-! ## Tokens -/

/-- The expression of a token that is an operand by itself. -/
def Token.literal? (t : Token) : Option Expr :=
  match t.kind with
  | .number => some (Parser.literalExpr .int t)
  | .string => some (Parser.literalExpr .string t)
  | .char => some (Parser.literalExpr .char t)
  | .keyword .true_ => some (Parser.boolExpr true t)
  | .keyword .false_ => some (Parser.boolExpr false t)
  | _ => none

theorem Token.literal?_cases {t : Token} {e : Expr} (h : t.literal? = some e) :
    t.kind = .number ∧ e = Parser.literalExpr .int t ∨
      t.kind = .string ∧ e = Parser.literalExpr .string t ∨
      t.kind = .char ∧ e = Parser.literalExpr .char t ∨
      t.kind = .keyword .true_ ∧ e = Parser.boolExpr true t ∨
      t.kind = .keyword .false_ ∧ e = Parser.boolExpr false t := by
  unfold literal? at h
  split at h
  all_goals
    cases h
    try simp_all

/-- A token that is an operand by itself. -/
structure LiteralToken extends Token where
  tree : Expr
  tree_eq : toToken.literal? = some tree

theorem LiteralToken.kind_cases (t : LiteralToken) :
    t.kind = .number ∨ t.kind = .string ∨ t.kind = .char ∨ t.kind = .keyword .true_ ∨
      t.kind = .keyword .false_ :=
  (Token.literal?_cases t.tree_eq).imp And.left
    (Or.imp And.left (Or.imp And.left (Or.imp And.left And.left)))

/-- An operator; unlike a `Grammar.Joiner` it may be that of an assignment. -/
structure OperatorToken extends Token where
  operator : Operator
  kind_eq : kind = .operator operator

/-- What a name with brackets behind it is. -/
inductive Bracket where
  | call
  | element

namespace Bracket

/-- The bracket behind the name. -/
def opening : Bracket → Punct
  | call => .lparen
  | element => .lbracket

/-- The bracket behind what it holds. -/
def closing : Bracket → Punct
  | call => .rparen
  | element => .rbracket

/-- The expression it makes. -/
def kind : Bracket → ExprKind
  | call => .call
  | element => .arrayAcc

end Bracket

/-! ## States -/

/-- The operand, unless it is an assignment without target. -/
def Operand.plain? : Operand → Option Expr
  | plain e => some e
  | pending _ => none

namespace ExprState

variable {st : ExprState}

/-- The state behind a comma, unless something is to be reported. -/
def item (st : ExprState) : Option ExprState :=
  match Work.reduceQuietly st.work.operators st.work.operands with
  | some [.plain e] => some { items := some (st.items.getD [] ++ [e]) }
  | _ => none

/-- The expression that starts at `pos` and ends here, unless something is to be reported. -/
def result (pos : Pos) (st : ExprState) : Option Operand :=
  match st.items, Work.reduceQuietly st.work.operators st.work.operands with
  | none, some [] => some (.plain (.none pos))
  | none, some [o] => some o
  | some items, some [] => some (.plain { kind := .list, items, pos })
  | some items, some [.plain e] => some (.plain { kind := .list, items := items ++ [e], pos })
  | _, _ => none

end ExprState

/-! ## Phrases -/

/-- The parts of an expression in the order of its tokens. -/
inductive Phrase where
  | nil
  | literal (t : LiteralToken) (rest : Phrase)
  | operator (t : OperatorToken) (rest : Phrase)
  | comma (t : Mark .comma) (rest : Phrase)
  | name (t : Name) (rest : Phrase)
  | member (s : Name) (dot : Mark .dot) (m : Name) (rest : Phrase)
  | argument (f : Name) (b : Bracket) (opening : Mark b.opening) (inside : Phrase)
      (closing : Mark b.closing) (rest : Phrase)
  | group (opening : Mark .lparen) (inside : Phrase) (closing : Mark .rparen) (rest : Phrase)

namespace Phrase

/-- The tokens of a phrase. -/
def tokens : Phrase → List Token
  | nil => []
  | literal t rest => t.toToken :: rest.tokens
  | operator t rest => t.toToken :: rest.tokens
  | comma t rest => t.toToken :: rest.tokens
  | name t rest => t.toToken :: rest.tokens
  | member s dot m rest => s.toToken :: dot.toToken :: m.toToken :: rest.tokens
  | argument f _ opening inside closing rest =>
    f.toToken :: opening.toToken :: (inside.tokens ++ closing.toToken :: rest.tokens)
  | group opening inside closing rest =>
    opening.toToken :: (inside.tokens ++ closing.toToken :: rest.tokens)

/-- The first token of a phrase that ends before `closing`. -/
def first (ph : Phrase) (closing : Token) : Token := ph.tokens.headD closing

/-- Whether the phrase starts with a group. -/
def OpensGroup : Phrase → Prop
  | group .. => True
  | _ => False

/-- No group stands directly behind a name: it would be taken for an argument. -/
def Apart : Phrase → Prop
  | nil => True
  | literal _ rest | operator _ rest | comma _ rest | member _ _ _ rest => rest.Apart
  | name _ rest => ¬rest.OpensGroup ∧ rest.Apart
  | argument _ _ _ inside _ rest | group _ inside _ rest => inside.Apart ∧ rest.Apart

/-- The state behind the phrase, unless something is to be reported. -/
def run : Phrase → ExprState → Option ExprState
  | nil, st => some st
  | literal t rest, st => rest.run (st.push (.plain t.tree))
  | operator t rest, st => rest.run (st.pushOperator t.toToken)
  | comma _ rest, st => st.item.bind rest.run
  | name t rest, st => rest.run (st.push (.plain (.identifier (.ofPayload t.value) t.pos)))
  | member s _ m rest, st =>
    rest.run (st.push (.plain (Parser.accessExpr .structAcc (.ofPayload s.value)
      (.identifier (.ofPayload m.value) m.pos) s.pos)))
  | argument f b _ inside closing rest, st =>
    (((inside.run {}).bind (ExprState.result (inside.first closing.toToken).pos)).bind
      Operand.plain?).bind fun e =>
        rest.run (st.push (.plain (Parser.accessExpr b.kind (.ofPayload f.value) e f.pos)))
  | group _ inside closing rest, st =>
    ((inside.run {}).bind (ExprState.result (inside.first closing.toToken).pos)).bind fun o =>
      rest.run (st.push o)

/-- What a phrase comes to that ends before `closing`, unless something is to be reported. -/
def outcome (ph : Phrase) (closing : Token) : Option Operand :=
  (ph.run {}).bind (ExprState.result (ph.first closing).pos)

variable (ph rest : Phrase) (st : ExprState)

theorem run_argument (f : Name) (b : Bracket) (opening : Mark b.opening)
    (closing : Mark b.closing) :
    (argument f b opening ph closing rest).run st =
      ((ph.outcome closing.toToken).bind Operand.plain?).bind fun e =>
        rest.run (st.push (.plain (Parser.accessExpr b.kind (.ofPayload f.value) e f.pos))) := rfl

theorem run_group (opening : Mark .lparen) (closing : Mark .rparen) :
    (group opening ph closing rest).run st =
      (ph.outcome closing.toToken).bind fun o => rest.run (st.push o) := rfl

/-- What comes first is the first token of the phrase, or the token behind it. -/
theorem exists_first (t : Token) (ts : List Token) :
    ∃ us, ph.tokens ++ t :: ts = ph.first t :: us := by
  unfold first
  cases ph.tokens with
  | nil => exact ⟨ts, rfl⟩
  | cons u us => exact ⟨us ++ t :: ts, rfl⟩

end Phrase

end ToyLang
