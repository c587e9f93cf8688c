import ToyLang.Proofs.Accept.Declaration

/-!
# Accepting statements

What a statement and a clause are by their first token (`statement_var` to `clauses_end`), which is
all that accepting runs need to know of them. Then the accepting run of what a statement assigns to,
and of the loop over the statements of a block: the loop goes on at a token that starts a statement
(`accept_blockLoop_start`) and stops at one that ends the block (`accept_blockLoop_end`).
-/

set_option autoImplicit false

namespace ToyLang.Parser

open Builder

variable {mark t u : Token} {n : Nat} {ts rest : List Token} {cs cs' : List TypedName}

/-! ## Statements and clauses by their first token -/

theorem statement_var (n : Nat) (ht : t.kind = .keyword .var_) :
    statement n t = variableDec n t >>= fun s => pure (some s) := by
  simp only [statement, statementWith, ht]

theorem statement_const (n : Nat) (ht : t.kind = .keyword .const_) :
    statement n t = constant n >>= fun c => addConst c >>= fun _ => pure none := by
  simp only [statement, statementWith, ht]

theorem statement_struct (n : Nat) (ht : t.kind = .keyword .struct_) :
    statement n t = structDec n t >>= fun s => pure (some s) := by
  simp only [statement, statementWith, ht]

theorem statement_name (n : Nat) (ht : t.kind = .ident) :
    statement n t = identifierStatement n t >>= fun s => pure (some s) := by
  simp only [statement, statementWith, ht]

theorem statement_return (n : Nat) (ht : t.kind = .keyword .return_) :
    statement n t = plainExpression n (.punct .semicolon) >>= fun expr =>
      pure (some { kind := .return_, expr, pos := t.pos }) := by
  simp only [statement, statementWith, ht]

theorem statement_break (n : Nat) (ht : t.kind = .keyword .break_) :
    statement n t = keywordStatement .break_ t >>= fun s => pure (some s) := by
  simp only [statement, statementWith, ht]

theorem statement_continue (n : Nat) (ht : t.kind = .keyword .continue_) :
    statement n t = keywordStatement .continue_ t >>= fun s => pure (some s) := by
  simp only [statement, statementWith, ht]

theorem statement_while (n : Nat) (ht : t.kind = .keyword .while_) :
    statement n t = plainExpression n (.keyword .do_) >>= fun condition =>
      block n false >>= fun r => pure (some (clause .while_ condition r.1 t.pos)) := by
  simp only [statement, statementWith, ht]

theorem statement_if (n : Nat) (ht : t.kind = .keyword .if_) :
    statement n t = plainExpression n (.keyword .then_) >>= fun condition =>
      block n true >>= fun r => clauses n false r.2 >>= fun branches =>
        pure (some { clause .if_ condition r.1 t.pos with branches }) := by
  simp only [statement, statementWith, ht, conditional, LawfulMonad.bind_assoc, pure_bind]

theorem clauses_elif (n : Nat) (ht : t.kind = .keyword .elif_) :
    clauses (n + 1) false t = plainExpression n (.keyword .then_) >>= fun condition =>
      block n true >>= fun r => clauses n false r.2 >>= fun branches =>
        pure (clause .elif_ condition r.1 t.pos :: branches) := by
  rw [clauses, if_pos ht]
  rfl

theorem clauses_else (n : Nat) (ht : t.kind = .keyword .else_) :
    clauses (n + 1) false t = block n true >>= fun r => clauses n true r.2 >>= fun branches =>
      pure (clause .else_ .none r.1 t.pos :: branches) := by
  rw [clauses, if_neg (by simp [ht]), if_pos ht]
  rfl

theorem clauses_end (n : Nat) (closed : Bool) (ht : t.kind = .keyword .end_) :
    clauses (n + 1) closed t = pure [] := by
  rw [clauses, if_neg (by simp [ht]), if_neg (by simp [ht])]

/-! ## Targets -/

section

variable {name : Token} {r : Option Expr}

theorem accept_target_bare (hbracket : t.kind ≠ .punct .lbracket) (hdot : t.kind ≠ .punct .dot) :
    (target n name).accept mark (t :: ts, cs) =
      some (.identifier (.text name.value.display) name.pos, t :: ts, cs) := by
  unfold target
  dsimp only
  rw [accept_read_bind]
  split
  · next hk => exact absurd hk hbracket
  · next hk => exact absurd hk hdot
  · rfl

theorem accept_target_element (ht : t.kind = .punct .lbracket)
    (hread : (plainExpression n (.punct .rbracket)).accept mark (ts, cs) =
      r.map fun e => (e, rest, cs)) :
    (target n name).accept mark (t :: ts, cs) =
      r.map fun e =>
        (accessExpr .arrayAcc (.text name.value.display) e name.pos, rest, cs) := by
  unfold target
  dsimp only
  rw [accept_read_bind]
  simp only [ht, accept_bind, hread]
  cases r <;> rfl

theorem accept_target_member (hdot : t.kind = .punct .dot) (hu : u.kind = .ident) :
    (target n name).accept mark (t :: u :: ts, cs) =
      some (accessExpr .structAcc (.text name.value.display)
        (.identifier (.ofPayload u.value) u.pos) name.pos, ts, cs) := by
  unfold target
  dsimp only
  rw [accept_read_bind]
  simp only [hdot, accept_bind, accept_member hu]
  rfl

end

/-! ## Blocks -/

/-- A block goes on at such a token. -/
def IsStart (k : TokenKind) : Prop :=
  k ∉ [.keyword .end_, .eof, .keyword .elif_, .keyword .else_]

/-- A block ends at such a token. -/
def IsEnd (chained : Bool) (k : TokenKind) : Prop :=
  k = .keyword .end_ ∨ chained = true ∧ (k = .keyword .elif_ ∨ k = .keyword .else_)

variable {chained : Bool}

theorem IsEnd.ne_eof (h : IsEnd chained t.kind) : t.kind ≠ .eof := by
  rcases h with h | ⟨-, h | h⟩ <;> rw [h] <;> simp

/-- The loop before it has the next token. -/
theorem accept_blockLoop_start (ht : IsStart t.kind) :
    (read >>= blockLoop (n + 1) chained).accept mark (t :: ts, cs) =
      ((statement n t).accept mark (ts, cs)).bind fun r =>
        ((read >>= blockLoop n chained).accept mark r.2).map fun q =>
          ((r.1.toList ++ q.1.1, q.1.2), q.2) := by
  simp only [IsStart, List.mem_cons, List.not_mem_nil, or_false, not_or] at ht
  rw [accept_read_bind, blockLoop, if_neg (by simp [ht]), if_neg (by simp [ht])]
  refine (accept_bind mark (statement n t) _ _).trans (congrArg _ (funext fun r => ?_))
  exact accept_bind_pure mark (read >>= blockLoop n chained)
    (fun q => (r.1.toList ++ q.1, q.2)) r.2

theorem accept_blockLoop_end (ht : IsEnd chained t.kind) :
    (read >>= blockLoop (n + 1) chained).accept mark (t :: ts, cs) = some (([], t), ts, cs) := by
  rw [accept_read_bind, blockLoop]
  rcases ht with ht | ⟨rfl, ht⟩
  · rw [if_pos (.inl ht)]
    rfl
  · rw [if_neg (by rcases ht with ht | ht <;> simp [ht]), if_pos ht, if_pos rfl]
    rfl

theorem block_eq (n : Nat) (chained : Bool) :
    block n chained = (read >>= blockLoop n chained) >>= fun r => do
      if r.2.kind = .eof then note .blockEnd r.2
      return (.block r.1, r.2) := rfl

/-- A block is accepted as its statements are. -/
theorem accept_block_of_loop {r : Option (List Stmt)} (ht : IsEnd chained t.kind)
    (hloop : (read >>= blockLoop n chained).accept mark (ts, cs) =
      r.map fun ss => ((ss, t), rest, cs')) :
    (block n chained).accept mark (ts, cs) = r.map fun ss => ((.block ss, t), rest, cs') := by
  rw [block_eq, accept_bind, hloop]
  cases r with
  | none => rfl
  | some ss =>
    rw [Option.map_some, Option.bind_some, if_neg ht.ne_eof]
    rfl

end ToyLang.Parser
