import ToyLang.Parser.Statement
import ToyLang.Proofs.Progress.Declaration

/-!
# Statements come to an end

The rounds of a block are its statements, those of a conditional its clauses. The two loops call
each other, so they come to an end together (`block_and_clauses_ensure`).
-/

set_option autoImplicit false

namespace ToyLang.Parser

open Builder

variable {v : View} {m n : Nat} {t : Token}

/-! ## Declarations in a block -/

/-- One round of `skipStatement`. -/
def skipStatementRound (_ : Nat) (_ : Unit) (t : Token) : Builder (Round Unit Unit) := do
  match t.kind with
  | .punct .semicolon => return .last ()
  | .keyword .end_ | .eof => return .last (← putBack t)
  | _ => return .again (← read) () id

theorem skipStatement_repeats : Repeats (fun n _ => skipStatement n) skipStatementRound := by
  intro n st t
  show skipStatement (n + 1) t = _
  rw [skipStatement]
  unfold skipStatementRound
  split <;> simp_all [Round.goOn]

theorem skipStatementRound_ensures (n : Nat) :
    RoundEnsures (skipStatementRound n) (fun _ _ => True) Leaves n := by
  intro st t m v _ h hm
  unfold skipStatementRound
  split
  · exact h.behind
  · exact (ensures_putBack h).bind fun _ _ hv => hv
  · exact (ensures_putBack h).bind fun _ _ hv => hv
  · obtain ⟨k, rfl, hk⟩ := h.shorter (by simp_all)
    exact Round.steps_again (fun _ => trivial) hk rfl fun _ _ hv => hv.mono (Nat.le_succ k)

theorem skipStatement_ensures (h : v.Taken t m) (hm : m < n) :
    (skipStatement n t).Ensures (Leaves m) v :=
  skipStatement_repeats.ensures (fun n _ => skipStatementRound_ensures n) n () t m v trivial h hm

theorem abandon_ensures (p : Problem) (start : Pos) (h : v.Taken t m) (hm : m < n) :
    (abandon n p t start).Ensures (Leaves m) v := by
  unfold abandon
  show Ensures _ (skipStatement n t >>= fun _ => pure (Stmt.none start)) v
  exact (skipStatement_ensures h hm).bind fun _ _ hv => hv

theorem variableDec_ensures (h : v.Within m) (hm : m < n) (start : Token) :
    (variableDec n start).Ensures (Leaves m) v := by
  unfold variableDec
  refine (ensures_take h).bind fun name v' hname => ?_
  split
  · exact abandon_ensures _ _ hname hm
  refine (ensures_take hname.behind).bind fun colon v' hc => ?_
  split
  · exact abandon_ensures _ _ hc hm
  refine (dataType_ensures hc.behind).bind fun dataType v' hv => ?_
  refine (ensures_take hv).bind fun t v' ht => ?_
  split
  · refine (plainExpression_ensures _ ht.behind hm).bind fun size v' hv => ?_
    refine (ensures_take hv).bind fun t v' ht => ?_
    split
    · exact abandon_ensures _ _ ht hm
    · exact ht.behind
  · refine (ensures_putBack ht).bind fun _ v' hv => ?_
    refine (nested_expression n _ _ _ hv hm).bind fun value v' hv => ?_
    exact ((still_initializer _ _ _).within hv).bind fun _ _ hv => hv

theorem structDec_ensures (h : v.Within m) (hm : m < n) (start : Token) :
    (structDec n start).Ensures (Leaves m) v := by
  unfold structDec
  refine (nameBeforeColon_ensures _ h).bind fun name v' hv => ?_
  refine (ensures_take hv).bind fun t v' ht => ?_
  refine (expect_ensures _ _ ht).bind fun _ v' hv => ?_
  refine (plainExpression_ensures _ hv hm).bind fun expr v' hv => ?_
  dsimp only
  split <;> exact hv

/-! ## Assignments and calls -/

theorem target_ensures (h : v.Within m) (hm : m < n) (name : Token) :
    (target n name).Ensures (Leaves m) v := by
  unfold target
  refine (ensures_take h).bind fun t v' ht => ?_
  split
  · exact (plainExpression_ensures _ ht.behind hm).bind fun _ _ hv => hv
  · exact (member_ensures ht.behind).bind fun _ _ hv => hv
  · exact (ensures_putBack ht).bind fun _ _ hv => hv

theorem identifierStatement_ensures (h : v.Within m) (hm : m < n) (name : Token) :
    (identifierStatement n name).Ensures (Leaves m) v := by
  unfold identifierStatement
  refine (target_ensures h hm name).bind fun target v' hv => ?_
  refine (nested_expression n _ _ _ hv hm).bind fun o v' hv => ?_
  split
  · exact hv
  · dsimp only
    split <;> exact hv

/-! ## Blocks and control flow -/

/-- The kinds of tokens that end a row of statements: the end of a block and that of the tokens, and
in a chain the keywords of clauses. -/
def rowEnds (chained : Bool) : List TokenKind :=
  [.keyword .end_, .eof] ++ if chained then [.keyword .elif_, .keyword .else_] else []

/-- At most `m` tokens are left, counting the one in hand, which ended a row of statements. -/
def EndsRow {β : Type} (m : Nat) (r : β × Token) (v : View) : Prop :=
  EndsAt m r v ∧ r.2.kind ∈ rowEnds true

/-- The block builder comes to an end where fewer than `n` tokens are left. -/
def BlockEnsures (block : Bool → Builder (Stmt × Token)) (n : Nat) : Prop :=
  ∀ chained v m, v.Within m → m < n → (block chained).Ensures (EndsRow m) v

theorem blockOf_ensures {loop : Token → Builder (List Stmt × Token)} (h : v.Within m)
    (hl : ∀ t v', v'.Taken t m → (loop t).Ensures (EndsRow m) v') :
    (blockOf loop).Ensures (EndsRow m) v := by
  unfold blockOf
  refine (ensures_take h).bind fun t v' ht => ?_
  refine (hl t v' ht).bind fun r v' hr => ?_
  dsimp only
  split <;> exact hr

theorem keywordStatement_ensures (h : v.Within m) (kind : StmtKind) (t : Token) :
    (keywordStatement kind t).Ensures (Leaves m) v := by
  unfold keywordStatement
  refine (ensures_take h).bind fun t' v' ht => ?_
  exact (expect_ensures _ _ ht).bind fun _ _ hv => hv

section
variable {block : Bool → Builder (Stmt × Token)} {clauses : Bool → Token → Builder (List Stmt)}
  (hb : BlockEnsures block n) (hc : LoopEnsures clauses (fun _ _ => True) Leaves n)
include hb hc

theorem conditional_ensures (h : v.Within m) (hm : m < n) (t : Token) :
    (conditional n block clauses t).Ensures (Leaves m) v := by
  unfold conditional
  refine (plainExpression_ensures _ h hm).bind fun condition v' hv => ?_
  refine (hb _ _ _ hv hm).bind fun r v' hr => ?_
  exact (hc _ _ _ _ trivial hr.1 hm).bind fun _ _ hv => hv

theorem statementWith_ensures (h : v.Within m) (hm : m < n) (t : Token) :
    (statementWith n block clauses t).Ensures (Leaves m) v := by
  unfold statementWith
  split
  · exact (plainExpression_ensures _ h hm).bind fun _ _ hv => hv
  · exact (variableDec_ensures h hm t).bind fun _ _ hv => hv
  · exact (constant_ensures h hm).bind fun _ _ hv => hv
  · exact (structDec_ensures h hm t).bind fun _ _ hv => hv
  · exact (identifierStatement_ensures h hm t).bind fun _ _ hv => hv
  · refine (plainExpression_ensures _ h hm).bind fun condition v' hv => ?_
    exact (hb _ _ _ hv hm).bind fun r _ hr => hr.1.behind
  · exact (conditional_ensures hb hc h hm t).bind fun _ _ hv => hv
  · exact (keywordStatement_ensures h _ t).bind fun _ _ hv => hv
  · exact (keywordStatement_ensures h _ t).bind fun _ _ hv => hv
  · exact h

end

/-! ## The loops -/

/-- One round of `blockLoop`. -/
def blockRound (n : Nat) (chained : Bool) (t : Token) :
    Builder (Round Bool (List Stmt × Token)) := do
  if t.kind = .keyword .end_ ∨ t.kind = .eof then return .last ([], t)
  if t.kind = .keyword .elif_ ∨ t.kind = .keyword .else_ then
    if chained then return .last ([], t)
    note (.strayClause t.value.display) t
    return .again (← read) chained id
  let s ← statement n t
  return .again (← read) chained fun r => (s.toList ++ r.1, r.2)

theorem blockLoop_repeats : Repeats blockLoop blockRound := by
  intro n chained t
  rw [blockLoop]
  unfold blockRound
  split
  · rfl
  split
  · split <;> simp [Round.goOn]
  · simp [Round.goOn, statement]
    rfl

/-- One round of `clauses`. -/
def clausesRound (n : Nat) (closed : Bool) (t : Token) : Builder (Round Bool (List Stmt)) := do
  if t.kind = .keyword .elif_ then
    if closed then note (.clauseAfterElse t.value.display) t
    let condition ← plainExpression n (.keyword .then_)
    let (body, last) ← block n true
    return .again last closed (clause .elif_ condition body t.pos :: ·)
  else if t.kind = .keyword .else_ then
    if closed then note (.clauseAfterElse t.value.display) t
    let (body, last) ← block n true
    return .again last true (clause .else_ .none body t.pos :: ·)
  else return .last []

theorem clauses_repeats : Repeats clauses clausesRound := by
  intro n closed t
  rw [clauses]
  unfold clausesRound
  cases closed
  all_goals
    split
    · simp [Round.goOn, block]
    split
    · simp [Round.goOn, block]
    · rfl

section
variable (hb : LoopEnsures (blockLoop n) (fun _ _ => True) EndsRow n)
  (hc : LoopEnsures (clauses n) (fun _ _ => True) Leaves n)

theorem blockEnsures_of_loop (hb : LoopEnsures (blockLoop n) (fun _ _ => True) EndsRow n) :
    BlockEnsures (block n) n := fun chained _ m h hm =>
  blockOf_ensures h fun t v' ht => hb chained t m v' trivial ht hm

include hb hc

theorem blockRound_ensures : RoundEnsures (blockRound n) (fun _ _ => True) EndsRow n := by
  intro chained t m v _ h hm
  unfold blockRound
  split
  · next ht => exact ⟨h, by rcases ht with ht | ht <;> simp [rowEnds, ht]⟩
  next ht =>
  obtain ⟨k, rfl, hk⟩ := h.shorter fun he => ht (.inr he)
  have longer {r : List Stmt × Token} {v : View} (hr : EndsRow k r v) : EndsRow (k + 1) r v :=
    ⟨hr.1.mono (Nat.le_succ k), hr.2⟩
  split
  · next hclause =>
    split
    · exact ⟨h, by rcases hclause with ht | ht <;> simp [rowEnds, ht]⟩
    · exact Round.steps_again (fun _ => trivial) hk rfl fun _ _ hr => longer hr
  · refine (statementWith_ensures (blockEnsures_of_loop hb) hc hk hm t).bind fun s v' hv => ?_
    exact Round.steps_again (fun _ => trivial) hv rfl fun _ _ hr => longer hr

omit hc in
/-- Whatever token it starts with, a round that goes on has one in hand that ended a row. -/
theorem clausesRound_steps (h : v.Taken t m) (hm : m ≤ n) (closed : Bool) :
    (clausesRound n closed t).Ensures
      (Round.Steps (fun _ t => t.kind ∈ rowEnds true) Leaves m) v := by
  have body {k : Nat} {v : View} (hv : v.Within k) (hm : k + 1 ≤ n) (closed : Bool)
      (f : Stmt → List Stmt → List Stmt) :
      (do
        let (body, last) ← block n true
        return .again last closed (f body) : Builder (Round Bool (List Stmt))).Ensures
        (Round.Steps (fun _ t => t.kind ∈ rowEnds true) Leaves (k + 1)) v :=
    (blockEnsures_of_loop hb true _ _ hv hm).bind fun r v' hr =>
      ⟨hr.2, k, Nat.lt_succ_self k, hr.1, fun _ _ hv => hv.mono (Nat.le_succ k)⟩
  unfold clausesRound
  split
  · next ht =>
    obtain ⟨k, rfl, hk⟩ := h.shorter (by simp [ht])
    cases closed
    all_goals
      exact (plainExpression_ensures _ hk hm).bind fun condition v' hv =>
        body hv hm _ fun s => (clause .elif_ condition s t.pos :: ·)
  split
  · next ht =>
    obtain ⟨k, rfl, hk⟩ := h.shorter (by simp [ht])
    cases closed
    all_goals exact body hk hm true fun s => (clause .else_ .none s t.pos :: ·)
  · exact h.behind

omit hc in
theorem clausesRound_ensures : RoundEnsures (clausesRound n) (fun _ _ => True) Leaves n :=
  fun closed _ _ _ _ h hm =>
    (clausesRound_steps hb h hm closed).mono fun _ _ hs => hs.mono fun _ _ _ => trivial

end

theorem block_and_clauses_ensure (n : Nat) :
    LoopEnsures (blockLoop n) (fun _ _ => True) EndsRow n ∧
      LoopEnsures (clauses n) (fun _ _ => True) Leaves n := by
  induction n with
  | zero => exact ⟨loopEnsures_zero blockLoop, loopEnsures_zero clauses⟩
  | succ n ih =>
    exact ⟨blockLoop_repeats.ensures_succ (blockRound_ensures ih.1 ih.2) ih.1,
      clauses_repeats.ensures_succ (clausesRound_ensures ih.1) ih.2⟩

theorem block_ensures (n : Nat) : BlockEnsures (block n) n :=
  blockEnsures_of_loop (block_and_clauses_ensure n).1

end ToyLang.Parser
