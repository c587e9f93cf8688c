import ToyLang.Proofs.Accept.Expression
import ToyLang.Proofs.Roundtrip.Definite

/-!
# Operands are read as foreseen

The accepting run of the expression loop, round by round. What an expression is foreseen to do is
stated for two places: `Reads` for a place of its own, up to a stop token, and `Steps` for that of
an operand among others, which takes one round of the loop. Parentheses turn the first into the
second (`steps_parentheses`); literals, identifiers, calls and accesses step as they are
(`steps_atom`).
-/

set_option autoImplicit false

namespace ToyLang

namespace Parser

open Builder

variable {mark t : Token} {n : Nat} {stop : TokenKind} {first : Token} {st : ExprState}
  {ts rest : List Token} {cs : List TypedName} {e : Expr} {definite : Prop}

/-! ## Operands -/

/-- The expression is accepted as foreseen in a place of its own. -/
def Reads (e : Expr) : Prop :=
  ∀ mark t n stop rest cs, t.kind = stop → t.pos = ⟨0, 0⟩ → IsStop stop →
    (e.tokens ++ t :: rest).length ≤ n →
      (expression n stop).accept mark (e.tokens ++ t :: rest, cs) =
        e.reread.map fun e' => (.plain e', rest, cs)

/-- The expression is accepted as foreseen as an operand, in one round. -/
def Steps (e : Expr) : Prop :=
  ∀ mark n stop first st rest cs, IsStop stop → Follows rest →
    (Expr.operandTokens e.kind e.tokens ++ rest).length ≤ n + 1 →
      (resume (n + 1) stop first st).accept mark
          (Expr.operandTokens e.kind e.tokens ++ rest, cs) =
        e.reread.bind fun e' =>
          (resume n stop first (st.push (.plain e'))).accept mark (rest, cs)

/-- An expression in parentheses takes one round. -/
theorem accept_parentheses (h : Reads e) (hstop : IsStop stop)
    (hn : (inParentheses e.tokens ++ rest).length ≤ n + 1) :
    (resume (n + 1) stop first st).accept mark (inParentheses e.tokens ++ rest, cs) =
      e.reread.bind fun e' =>
        (resume n stop first (st.push (.plain e'))).accept mark (rest, cs) := by
  simp only [inParentheses, List.cons_append, List.append_assoc, List.nil_append,
    List.length_cons] at hn ⊢
  have hread := h mark (.ofPunct .rparen) n (.punct .rparen) rest cs rfl rfl isStop_rparen
    (by omega)
  rw [accept_group (r := e.reread.map .plain) rfl hstop (by rw [hread, Option.map_map]; rfl),
    Option.bind_map]
  rfl

theorem steps_parentheses (h : Reads e) (hk : e.kind.isCompound = true) : Steps e := by
  intro mark n stop first st rest cs hstop hrest hn
  simp only [Expr.operandTokens, hk, if_true] at hn ⊢
  exact accept_parentheses h hstop hn

/-- A token that is an expression of its own. -/
theorem steps_token {e' : Expr} (htokens : Expr.operandTokens e.kind e.tokens = [t])
    (hread : e.reread = some e') (hstop : ¬IsStop t.kind) (heof : t.kind ≠ .eof)
    (hstep : ∀ n st, exprStep (expression n) t st = pure (st.push (.plain e'))) : Steps e := by
  intro mark n stop first st rest cs hs hrest hn
  rw [htokens, hread]
  exact accept_literal hs hstop heof (hstep n st)

/-- An identifier and what follows it step together. -/
theorem steps_identifier {s : String} (suffix : List Token) (h : IsName s)
    (htokens : Expr.operandTokens e.kind e.tokens = .ofWord s :: suffix)
    (hsuffix : ∀ mark n rest cs, Follows rest → (suffix ++ rest).length ≤ n →
      (identifierSuffix (expression n) (.ofWord s)).accept mark (suffix ++ rest, cs) =
        e.reread.map fun e' => (e', rest, cs)) : Steps e := by
  intro mark n stop first st rest cs hstop hrest hn
  rw [htokens, List.cons_append] at hn ⊢
  have hkind : (Token.ofWord s).kind = .ident := by rw [h.token]
  exact accept_name hkind hstop (hsuffix mark n rest cs hrest (by simpa using hn))

theorem steps_call {s : String} {arg : Expr} {pos : Pos} (h : IsName s) (harg : Reads arg) :
    Steps (accessExpr .call (.text s) arg pos) := by
  refine steps_identifier (inParentheses arg.tokens) h rfl fun mark n rest cs hrest hn => ?_
  rw [Expr.reread_access _ (.inl rfl), h.token]
  simp only [inParentheses, List.cons_append, List.append_assoc, List.nil_append,
    List.length_cons] at hn ⊢
  have hread := harg mark (.ofPunct .rparen) n (.punct .rparen) rest cs rfl rfl isStop_rparen
    (by omega)
  rw [accept_suffix_argument rfl (.inl ⟨rfl, rfl, rfl⟩) hread, Option.map_map]
  rfl

theorem steps_arrayAcc {s : String} {arg : Expr} {pos : Pos} (h : IsName s) (harg : Reads arg) :
    Steps (accessExpr .arrayAcc (.text s) arg pos) := by
  refine steps_identifier (.ofPunct .lbracket :: arg.tokens ++ [Token.ofPunct .rbracket]) h rfl
    fun mark n rest cs hrest hn => ?_
  rw [Expr.reread_access _ (.inr rfl), h.token]
  simp only [List.cons_append, List.append_assoc, List.nil_append, List.length_cons] at hn ⊢
  have hread := harg mark (.ofPunct .rbracket) n (.punct .rbracket) rest cs rfl rfl
    isStop_rbracket (by omega)
  rw [accept_suffix_argument rfl (.inr ⟨rfl, rfl, rfl⟩) hread, Option.map_map]
  rfl

/-- The expressions that are no operations or lists, and present, step. -/
theorem steps_atom (h : e.Regular False) (hnone : e.isNone = false)
    (hk : e.kind.isCompound = false)
    (harg : e.kind ≠ .structAcc → ∀ arg ∈ e.args, Reads arg) : Steps e := by
  cases h with
  | none pos => cases hnone
  | int n pos h => exact steps_token rfl rfl (by simp [IsStop]) (by simp) fun _ _ => rfl
  | string s pos h => exact steps_token rfl rfl (by simp [IsStop]) (by simp) fun _ _ => rfl
  | char c pos h => exact steps_token rfl rfl (by simp [IsStop]) (by simp) fun _ _ => rfl
  | bool b pos =>
    cases b with
    | true =>
      exact steps_token (t := .ofKeyword .true_) rfl rfl (by simp [IsStop, Token.ofKeyword])
        (by simp [Token.ofKeyword]) fun _ _ => rfl
    | false =>
      exact steps_token (t := .ofKeyword .false_) rfl rfl (by simp [IsStop, Token.ofKeyword])
        (by simp [Token.ofKeyword]) fun _ _ => rfl
  | identifier s pos h =>
    refine steps_identifier [] h rfl fun mark n rest cs hrest _ => ?_
    rw [List.nil_append, accept_suffix_bare hrest, h.token]
    rfl
  | operation o l r pos => cases hk
  | list items pos => cases hk
  | call s arg pos h => exact steps_call h (harg (by simp [accessExpr]) arg List.mem_cons_self)
  | arrayAcc s arg pos h =>
    exact steps_arrayAcc h (harg (by simp [accessExpr]) arg List.mem_cons_self)
  | structAcc s m pos mpos h hm =>
    refine steps_identifier [.ofPunct .dot, .ofWord m] h rfl
      fun mark n rest cs hrest _ => ?_
    show (identifierSuffix (expression n) (.ofWord s)).accept mark
      (.ofPunct .dot :: .ofWord m :: rest, cs) = _
    rw [accept_suffix_member rfl (by rw [hm.token]), h.token, hm.token]
    rfl

end Parser

end ToyLang
