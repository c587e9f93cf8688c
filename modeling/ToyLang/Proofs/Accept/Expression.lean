import ToyLang.Proofs.Accept

/-!
# Rounds of the expression loop

The accepting run of the expression loop, token by token: what each kind of token does to the piles,
wherever it stands. An operand takes one round; what an identifier, a call, an access or a group
holds is read inside that round (`accept_name`, `accept_group`). At a comma and at the stop token
the piles are reduced, which is accepted where nothing is to be noticed (`Work.accept_reduce`).
-/

set_option autoImplicit false

namespace ToyLang

/-! ## Reducing without a report -/

namespace Work

/-- Every operator reduced, unless something is to be noticed. -/
def reduceQuietly : List Token → List Operand → Option (List Operand)
  | [], os => some os
  | op :: ops, os => do
    let o ← op.kind.operator?
    if (apply op o [] os).2 = [] then reduceQuietly ops (apply op o [] os).1 else none

theorem reduceQuietly_append (a b : List Token) (os : List Operand) :
    reduceQuietly (a ++ b) os = (reduceQuietly a os).bind (reduceQuietly b) := by
  induction a generalizing os with
  | nil => rfl
  | cons op a ih =>
    simp only [List.cons_append, reduceQuietly]
    cases op.kind.operator? with
    | none => rfl
    | some o =>
      simp only [Option.bind_eq_bind, Option.bind_some]
      split
      · exact ih _
      · rfl

theorem take_operators (op : Token) (ops : List Token) (os : List Operand) :
    (take op ops os).1 = (take op [] os).1 ∧ (take op ops os).2.1 = (take op [] os).2.1 ∧
      ((take op ops os).2.2 = [] ↔ (take op [] os).2.2 = []) := by
  cases os with
  | nil => simp [take]
  | cons o os => cases h : o.settled.2 <;> simp [take, h]

/-- The operators below change nothing but what is noticed. -/
theorem apply_operators (op : Token) (o : Operator) (ops : List Token) (os : List Operand) :
    (apply op o ops os).1 = (apply op o [] os).1 ∧
      ((apply op o ops os).2 = [] ↔ (apply op o [] os).2 = []) := by
  obtain ⟨hr, hrest, hrn⟩ := take_operators op ops os
  obtain ⟨hl, hlrest, hln⟩ := take_operators op ops (take op [] os).2.1
  unfold apply
  split <;> simp [hr, hrest, hrn, hl, hlrest, hln]

theorem reduceQuietly_eq (ops : List Token) (os : List Operand) :
    reduceQuietly ops os =
      if (reduceOver ops os).notices = [] ∧ (reduceOver ops os).stopped = none then
        some (reduceOver ops os).work.operands
      else none := by
  induction ops generalizing os with
  | nil => rfl
  | cons op ops ih =>
    rw [reduceQuietly, reduceOver]
    cases op.kind.operator? with
    | none => simp
    | some o =>
      obtain ⟨hresult, hquiet⟩ := apply_operators op o ops os
      simp only [Option.bind_eq_bind, Option.bind_some, ih, hresult, ← hquiet,
        List.append_eq_nil_iff]
      split <;> simp_all

theorem accept_reduce {mark : Token} (w : Work) (s : List Token × List TypedName) :
    w.reduce.accept mark s = (reduceQuietly w.operators w.operands).map fun os => (os, s) := by
  rw [reduceQuietly_eq]
  unfold reduce reduction
  obtain ⟨notices, work, stopped⟩ := reduceOver w.operators w.operands
  rcases notices with _ | ⟨n, ns⟩
  · cases stopped <;> rfl
  · cases stopped <;> rfl

end Work

namespace Parser

open Builder

/-- The tokens that end expressions. -/
def IsStop (k : TokenKind) : Prop :=
  k ∈ [.punct .semicolon, .punct .rparen, .punct .rbracket, .keyword .then_, .keyword .do_]

/-- The tokens go on with one that adds nothing to an identifier. -/
def Follows (ts : List Token) : Prop :=
  ∃ t us, ts = t :: us ∧ t.kind ∉ [.punct .lparen, .punct .lbracket, .punct .dot]

variable {mark t u : Token} {n : Nat} {stop : TokenKind} {first : Token} {st : ExprState}
  {ts rest : List Token} {cs : List TypedName}

theorem isStop_semicolon : IsStop (.punct .semicolon) := by simp [IsStop]

theorem isStop_rparen : IsStop (.punct .rparen) := by simp [IsStop]

theorem isStop_rbracket : IsStop (.punct .rbracket) := by simp [IsStop]

theorem isStop_then : IsStop (.keyword .then_) := by simp [IsStop]

theorem isStop_do : IsStop (.keyword .do_) := by simp [IsStop]

theorem IsStop.ne {k : TokenKind} (hstop : IsStop stop) (hk : ¬IsStop k) : k ≠ stop :=
  fun h => hk (h ▸ hstop)

theorem IsStop.ne_eof (hstop : IsStop stop) : stop ≠ .eof := by
  rintro rfl
  simp [IsStop] at hstop

theorem IsStop.follows (h : IsStop t.kind) (rest : List Token) : Follows (t :: rest) := by
  refine ⟨t, rest, rfl, fun hk => ?_⟩
  simp only [IsStop, List.mem_cons, List.not_mem_nil, or_false] at h hk
  rcases h with h | h | h | h | h <;> simp [h] at hk

theorem follows_operator {o : Operator} (ht : t.kind = .operator o) : Follows (t :: rest) :=
  ⟨_, _, rfl, by simp [ht]⟩

theorem follows_comma (ht : t.kind = .punct .comma) : Follows (t :: rest) :=
  ⟨_, _, rfl, by simp [ht]⟩

/-- A bound on a row of tokens leaves a round for the first one. -/
theorem bound_cons (h : (t :: ts).length ≤ n) : ∃ m, n = m + 1 ∧ ts.length ≤ m := by
  rw [List.length_cons] at h
  exact ⟨n - 1, by omega, by omega⟩

/-! ## Rounds -/

/-- The loop before it has the next token. -/
def resume (n : Nat) (stop : TokenKind) (first : Token) (st : ExprState) : Builder Operand := do
  expressionLoop n stop first (← read) st

theorem accept_expression_cons :
    (expression n stop).accept mark (t :: ts, cs) =
      (resume n stop t {}).accept mark (t :: ts, cs) := rfl

theorem accept_resume (hstop : t.kind ≠ stop) (heof : t.kind ≠ .eof) :
    (resume (n + 1) stop first st).accept mark (t :: ts, cs) =
      ((exprStep (expression n) t st).accept mark (ts, cs)).bind fun r =>
        (resume n stop first r.1).accept mark r.2 := by
  show (expressionLoop (n + 1) stop first t st).accept mark (ts, cs) = _
  rw [expressionLoop, if_neg (by simp [hstop, heof])]
  exact accept_bind ..

/-- At the stop token the piles come to a result. -/
theorem accept_stop (ht : t.kind = stop) (hstop : IsStop stop) :
    (resume (n + 1) stop first st).accept mark (t :: rest, cs) =
      (exprResult first t st).accept mark (rest, cs) := by
  have heof : t.kind ≠ .eof := ht ▸ hstop.ne_eof
  show (expressionLoop (n + 1) stop first t st).accept mark (rest, cs) = _
  rw [expressionLoop, if_pos (.inl ht), exprEnd_eq, if_neg (by simp [heof])]

/-- A token that is an operand of its own. -/
theorem accept_literal {e : Expr} (hstop : IsStop stop) (ht : ¬IsStop t.kind) (heof : t.kind ≠ .eof)
    (hstep : exprStep (expression n) t st = pure (st.push (.plain e))) :
    (resume (n + 1) stop first st).accept mark (t :: rest, cs) =
      (resume n stop first (st.push (.plain e))).accept mark (rest, cs) := by
  rw [accept_resume (hstop.ne ht) heof, hstep]
  rfl

/-- An operator waits on its pile. -/
theorem accept_operator {o : Operator} (ht : t.kind = .operator o) (hstop : IsStop stop) :
    (resume (n + 1) stop first st).accept mark (t :: ts, cs) =
      (resume n stop first (st.pushOperator t)).accept mark (ts, cs) := by
  have hstep : exprStep (expression n) t st = pure (st.pushOperator t) := by
    simp only [exprStep, ht]
  rw [accept_resume (hstop.ne (by simp [IsStop, ht])) (by simp [ht]), hstep]
  rfl

/-- A group is read inside the round of its parenthesis. -/
theorem accept_group {r : Option Operand} (ht : t.kind = .punct .lparen) (hstop : IsStop stop)
    (hread : (expression n (.punct .rparen)).accept mark (ts, cs) =
      r.map fun o => (o, rest, cs)) :
    (resume (n + 1) stop first st).accept mark (t :: ts, cs) =
      r.bind fun o => (resume n stop first (st.push o)).accept mark (rest, cs) := by
  have hstep : exprStep (expression n) t st =
      expression n (.punct .rparen) >>= fun o => pure (st.push o) := by simp only [exprStep, ht]
  rw [accept_resume (hstop.ne (by simp [IsStop, ht])) (by simp [ht]), hstep, accept_bind, hread]
  cases r <;> rfl

/-- An identifier is read with what follows it. -/
theorem accept_name {r : Option Expr} (ht : t.kind = .ident) (hstop : IsStop stop)
    (hsuffix : (identifierSuffix (expression n) t).accept mark (ts, cs) =
      r.map fun e => (e, rest, cs)) :
    (resume (n + 1) stop first st).accept mark (t :: ts, cs) =
      r.bind fun e => (resume n stop first (st.push (.plain e))).accept mark (rest, cs) := by
  have hstep : exprStep (expression n) t st =
      identifierSuffix (expression n) t >>= fun e => pure (st.push (.plain e)) := by
    simp only [exprStep, ht]
  rw [accept_resume (hstop.ne (by simp [IsStop, ht])) (by simp [ht]), hstep, accept_bind, hsuffix]
  cases r <;> rfl

/-- At a comma the piles come to an item. -/
theorem accept_comma {work : Work} {items : Option (List Expr)} (ht : t.kind = .punct .comma)
    (hstop : IsStop stop) :
    (resume (n + 1) stop first { work, items }).accept mark (t :: ts, cs) =
      (work.reduce.accept mark (ts, cs)).bind fun r =>
        match r.1 with
        | [.plain e] =>
          (resume n stop first { items := some (items.getD [] ++ [e]) }).accept mark r.2
        | _ => none := by
  have hstep : exprStep (expression n) t { work, items } = listItem t { work, items } := by
    simp only [exprStep, ht]
  rw [accept_resume (hstop.ne (by simp [IsStop, ht])) (by simp [ht]), hstep]
  unfold listItem
  dsimp only
  rw [accept_bind, Option.bind_assoc]
  refine congrArg _ (funext fun r => ?_)
  obtain ⟨_ | ⟨e | p, _ | ⟨o, os⟩⟩, s⟩ := r <;> rfl

/-! ## Results -/

/-- The end of an expression without commas. -/
theorem accept_result_bare {work : Work} (s : List Token × List TypedName) :
    (exprResult first t { work }).accept mark s =
      (work.reduce.accept mark s).bind fun r =>
        match r.1 with
        | [] => some (.plain (.none first.pos), r.2)
        | [o] => some (o, r.2)
        | _ => none := by
  unfold exprResult
  rw [accept_bind]
  refine congrArg _ (funext fun r => ?_)
  obtain ⟨_ | ⟨top, _ | ⟨o, os⟩⟩, s⟩ := r <;> rfl

/-- The end of a list. -/
theorem accept_result_list {work : Work} {items : List Expr} (s : List Token × List TypedName) :
    (exprResult first t { work, items := some items }).accept mark s =
      (work.reduce.accept mark s).bind fun r =>
        match r.1 with
        | [] => some (.plain { kind := .list, items, pos := first.pos }, r.2)
        | [.plain e] =>
          some (.plain { kind := .list, items := items ++ [e], pos := first.pos }, r.2)
        | _ => none := by
  unfold exprResult
  rw [accept_bind]
  refine congrArg _ (funext fun r => ?_)
  obtain ⟨_ | ⟨e | p, _ | ⟨o, os⟩⟩, s⟩ := r <;> rfl

/-! ## Identifiers -/

section

variable {nested : TokenKind → Builder Operand} {name : Token}

theorem accept_member (ht : t.kind = .ident) :
    member.accept mark (t :: ts, cs) =
      some (.identifier (.ofPayload t.value) t.pos, ts, cs) := by
  rw [member, accept_read_bind, if_pos ht]
  rfl

theorem accept_suffix_bare (h : Follows ts) :
    (identifierSuffix nested name).accept mark (ts, cs) =
      some (.identifier (.ofPayload name.value) name.pos, ts, cs) := by
  obtain ⟨u, us, rfl, hu⟩ := h
  simp only [List.mem_cons, List.not_mem_nil, or_false, not_or] at hu
  unfold identifierSuffix
  dsimp only
  rw [accept_read_bind]
  split
  · next hk => exact absurd hk hu.1
  · next hk => exact absurd hk hu.2.1
  · next hk => exact absurd hk hu.2.2
  · rfl

theorem accept_suffix_member (hdot : t.kind = .punct .dot) (hu : u.kind = .ident) :
    (identifierSuffix nested name).accept mark (t :: u :: ts, cs) =
      some (accessExpr .structAcc (.ofPayload name.value)
        (.identifier (.ofPayload u.value) u.pos) name.pos, ts, cs) := by
  unfold identifierSuffix
  dsimp only
  rw [accept_read_bind]
  simp only [hdot, accept_bind, accept_member hu]
  rfl

/-- A call or an index with its argument. -/
theorem accept_suffix_argument {p q : Punct} {kind : ExprKind} {r : Option Expr}
    (ht : t.kind = .punct p)
    (hpq : p = .lparen ∧ q = .rparen ∧ kind = .call ∨
      p = .lbracket ∧ q = .rbracket ∧ kind = .arrayAcc)
    (hread : (nested (.punct q)).accept mark (ts, cs) = r.map fun e => (.plain e, rest, cs)) :
    (identifierSuffix nested name).accept mark (t :: ts, cs) =
      r.map fun e => (accessExpr kind (.ofPayload name.value) e name.pos, rest, cs) := by
  unfold identifierSuffix
  dsimp only
  rw [accept_read_bind]
  rcases hpq with ⟨rfl, rfl, rfl⟩ | ⟨rfl, rfl, rfl⟩
  all_goals
    simp only [ht, accept_bind, hread]
    cases r <;> rfl

end

end Parser

end ToyLang
