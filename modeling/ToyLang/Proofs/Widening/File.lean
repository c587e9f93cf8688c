import ToyLang.Proofs.Progress.File
import ToyLang.Proofs.Widening.Builder

/-!
# Wider bounds for the parser

Every bounded builder is widened by itself with a larger bound (`widens_file`). Loops are widened
round by round (`Repeats.widens`). A bound above the number of tokens is never reached, so that all
of these bounds give one run (`run_file_bound`).
-/

set_option autoImplicit false

namespace ToyLang

open Builder

/-! ## Loops -/

section
variable {σ α β : Type} {loop : Nat → σ → Token → Builder α}
  {round : Nat → σ → Token → Builder (Round σ α)} {n m : Nat}

/-- From every state the bound `m` widens the bound `n`. -/
def LoopWidens (loop : Nat → σ → Token → Builder β) (n m : Nat) : Prop :=
  ∀ st t, (loop n st t).Widens (loop m st t)

theorem Repeats.widens_succ (h : Repeats loop round) (hr : LoopWidens round n m)
    (hl : LoopWidens loop n m) : LoopWidens loop (n + 1) (m + 1) := by
  intro st t
  rw [h n, h m]
  refine (hr st t).bind fun r => ?_
  cases r with
  | again t st wrap => exact (hl st t).before _
  | last a => exact .refl _

/-- **A loop is widened** if its rounds are, which may themselves run the loop. -/
theorem Repeats.widens (h : Repeats loop round) (zero : ∀ st t, loop 0 st t = fault .outOfFuel)
    (hr : ∀ n m, n ≤ m → LoopWidens loop n m → LoopWidens round n m) (hnm : n ≤ m) :
    LoopWidens loop n m := by
  induction n generalizing m with
  | zero => exact fun st t => zero st t ▸ .exceeded _
  | succ n ih =>
    cases m with
    | zero => exact absurd hnm (Nat.not_succ_le_zero n)
    | succ m =>
      have hnm := Nat.le_of_succ_le_succ hnm
      exact h.widens_succ (hr n m hnm (ih hnm)) (ih hnm)

/-- Rounds that have no bounds of their own. -/
theorem Repeats.widens_plain {round : σ → Token → Builder (Round σ α)}
    (h : Repeats loop fun _ => round) (zero : ∀ st t, loop 0 st t = fault .outOfFuel)
    (hnm : n ≤ m) : LoopWidens loop n m :=
  h.widens zero (fun _ _ _ _ st t => .refl (round st t)) hnm

end

namespace Parser

variable {n m : Nat}

/-! ## Expressions -/

section
variable {nested nested' : TokenKind → Builder Operand}
  (hn : ∀ stop, (nested stop).Widens (nested' stop))
include hn

theorem widens_identifierSuffix (name : Token) :
    (identifierSuffix nested name).Widens (identifierSuffix nested' name) := by
  refine .after read fun t => ?_
  split
  · exact (hn _).before _
  · exact (hn _).before _
  · exact .refl _
  · exact .refl _

theorem widens_exprStep (t : Token) (st : ExprState) :
    (exprStep nested t st).Widens (exprStep nested' t st) := by
  unfold exprStep
  split
  · exact (hn _).before _
  · exact .refl _
  · exact (widens_identifierSuffix hn t).before _
  all_goals exact .refl _

end

theorem widens_of_loop (h : LoopWidens expressionFrom n m) (stop : TokenKind) :
    (expression n stop).Widens (expression m stop) :=
  .after read fun first => h (stop, first, {}) first

theorem widens_expression (h : n ≤ m) (stop : TokenKind) :
    (expression n stop).Widens (expression m stop) := by
  refine widens_of_loop (expressionFrom_repeats.widens (fun _ _ => rfl) ?_ h) stop
  intro n m _ hl st t
  unfold expressionRound
  split
  · exact .refl _
  · exact (widens_exprStep (widens_of_loop hl) t st.2.2).before _

theorem widens_plainExpression (h : n ≤ m) (stop : TokenKind) :
    (plainExpression n stop).Widens (plainExpression m stop) := (widens_expression h stop).before _

/-! ## Declarations -/

theorem widens_skipParams (h : n ≤ m) (t : Token) : (skipParams n t).Widens (skipParams m t) :=
  skipParams_repeats.widens_plain (fun _ _ => rfl) h () t

theorem widens_abandonParams (h : n ≤ m) (p : Problem) (t : Token) :
    (abandonParams n p t).Widens (abandonParams m p t) :=
  .after _ fun _ => widens_skipParams h t

theorem widens_paramsLoop (h : n ≤ m) (t : Token) : (paramsLoop n t).Widens (paramsLoop m t) := by
  refine paramsLoop_repeats.widens (fun _ _ => rfl) (fun n m h _ st t => ?_) h () t
  have abandon (p : Problem) (t : Token) :
      (abandonParams (n + 1) p t).Widens (abandonParams (m + 1) p t) :=
    widens_abandonParams (Nat.succ_le_succ h) p t
  unfold paramsRound
  split
  · exact (abandon _ _).before _
  refine .after read fun colon => ?_
  split
  · exact (abandon _ _).before _
  refine .after dataType fun d => .after read fun u => ?_
  split
  · exact .refl _
  · exact .refl _
  · exact (abandon _ _).before _

theorem widens_params (h : n ≤ m) : (params n).Widens (params m) := by
  refine .after read fun t => ?_
  split
  · exact .refl _
  · exact .after (putBack t) fun _ => .after read fun u => widens_paramsLoop h u

theorem widens_structItem (h : n ≤ m) (t : Token) : (structItem n t).Widens (structItem m t) :=
  .after _ fun _ => .after _ fun _ => .after _ fun _ => (widens_expression h _).before _

theorem widens_structItems (h : n ≤ m) (t : Token) :
    (structItems n t).Widens (structItems m t) := by
  refine structItems_repeats.widens (fun _ _ => rfl) (fun n m h _ st t => ?_) h () t
  unfold structItemsRound
  split
  · exact .refl _
  · exact .refl _
  · exact (widens_structItem h t).before _
  · exact .refl _

theorem widens_structDef (h : n ≤ m) : (structDef n).Widens (structDef m) :=
  .after _ fun _ => .after _ fun _ => .after _ fun t => (widens_structItems h t).before _

theorem widens_constant (h : n ≤ m) : (constant n).Widens (constant m) :=
  .after _ fun _ => .after _ fun _ => .after _ fun _ => .after _ fun _ => .after _ fun _ =>
    .after _ fun _ => (widens_plainExpression h _).before _

theorem widens_importPath (h : n ≤ m) : (importPath n).Widens (importPath m) :=
  .after read fun t => importLoop_repeats.widens_plain (fun _ _ => rfl) h () t

/-! ## Statements -/

theorem widens_abandon (h : n ≤ m) (p : Problem) (t : Token) (start : Pos) :
    (abandon n p t start).Widens (abandon m p t start) :=
  .after _ fun _ => (skipStatement_repeats.widens_plain (fun _ _ => rfl) h () t).before _

theorem widens_variableDec (h : n ≤ m) (start : Token) :
    (variableDec n start).Widens (variableDec m start) := by
  refine .after read fun name => ?_
  split
  · exact widens_abandon h _ _ _
  refine .after read fun colon => ?_
  split
  · exact widens_abandon h _ _ _
  refine .after dataType fun d => .after read fun t => ?_
  split
  · refine (widens_plainExpression h _).bind fun size => .after read fun u => ?_
    split
    · exact widens_abandon h _ _ _
    · exact .refl _
  · exact .after _ fun _ => (widens_expression h _).before _

theorem widens_structDec (h : n ≤ m) (start : Token) :
    (structDec n start).Widens (structDec m start) :=
  .after _ fun _ => .after _ fun _ => .after _ fun _ => (widens_plainExpression h _).before _

theorem widens_target (h : n ≤ m) (name : Token) : (target n name).Widens (target m name) := by
  refine .after read fun t => ?_
  split
  · exact (widens_plainExpression h _).before _
  · exact .refl _
  · exact .refl _

theorem widens_identifierStatement (h : n ≤ m) (name : Token) :
    (identifierStatement n name).Widens (identifierStatement m name) :=
  (widens_target h name).bind fun _ => (widens_expression h _).before _

theorem widens_block_of_loop (hb : LoopWidens blockLoop n m) (chained : Bool) :
    (block n chained).Widens (block m chained) :=
  .after read fun t => (hb chained t).before _

theorem widens_statement (h : n ≤ m) (hb : LoopWidens blockLoop n m)
    (hc : LoopWidens clauses n m) (t : Token) : (statement n t).Widens (statement m t) := by
  unfold statement statementWith
  split
  · exact (widens_plainExpression h _).before _
  · exact (widens_variableDec h t).before _
  · exact (widens_constant h).before _
  · exact (widens_structDec h t).before _
  · exact (widens_identifierStatement h t).before _
  · exact (widens_plainExpression h _).bind fun _ => (widens_block_of_loop hb _).before _
  · refine Widens.before ?_ _
    exact (widens_plainExpression h _).bind fun _ => (widens_block_of_loop hb _).bind fun r =>
      (hc false r.2).before _
  all_goals exact .refl _

theorem widens_blockRound (h : n ≤ m) (hb : LoopWidens blockLoop n m)
    (hc : LoopWidens clauses n m) : LoopWidens blockRound n m := by
  intro chained t
  unfold blockRound
  split
  · exact .refl _
  split
  · exact .refl _
  · exact (widens_statement h hb hc t).before _

theorem widens_clausesRound (h : n ≤ m) (hb : LoopWidens blockLoop n m) :
    LoopWidens clausesRound n m := by
  intro closed t
  have rest (kind : StmtKind) (e : Expr) (closed : Bool) :
      (block n true >>= fun r => pure (Round.again r.2 closed (clause kind e r.1 t.pos :: ·))).Widens
        (block m true >>= fun r => pure (Round.again r.2 closed (clause kind e r.1 t.pos :: ·))) :=
    (widens_block_of_loop hb true).before _
  unfold clausesRound
  split
  · cases closed
    · exact (widens_plainExpression h _).bind fun _ => rest _ _ _
    · exact .after _ fun _ => (widens_plainExpression h _).bind fun _ => rest _ _ _
  split
  · cases closed
    · exact rest _ _ _
    · exact .after _ fun _ => rest _ _ _
  · exact .refl _

theorem widens_block_and_clauses (h : n ≤ m) :
    LoopWidens blockLoop n m ∧ LoopWidens clauses n m := by
  induction n generalizing m with
  | zero =>
    refine ⟨fun _ _ => ?_, fun _ _ => ?_⟩
    · unfold blockLoop
      exact .exceeded _
    · unfold clauses
      exact .exceeded _
  | succ n ih =>
    cases m with
    | zero => exact absurd h (Nat.not_succ_le_zero n)
    | succ m =>
      have h := Nat.le_of_succ_le_succ h
      obtain ⟨hb, hc⟩ := ih h
      exact ⟨blockLoop_repeats.widens_succ (widens_blockRound h hb hc) hb,
        clauses_repeats.widens_succ (widens_clausesRound h hb) hc⟩

theorem widens_block (h : n ≤ m) (chained : Bool) : (block n chained).Widens (block m chained) :=
  widens_block_of_loop (widens_block_and_clauses h).1 chained

/-! ## Files -/

theorem widens_optionalParams (h : n ≤ m) (t : Token) :
    (optionalParams n t).Widens (optionalParams m t) := by
  unfold optionalParams
  split
  · exact .refl _
  · exact (widens_params h).before _

theorem widens_function (h : n ≤ m) : (function n).Widens (function m) :=
  .after _ fun _ => (widens_optionalParams h _).bind fun _ => .after _ fun _ => .after _ fun _ =>
    (widens_block h false).collected.before _

theorem widens_file (h : n ≤ m) (name : String) : (file name n).Widens (file name m) := by
  refine .after read fun t => Widens.before ?_ _
  refine fileLoop_repeats.widens (fun _ _ => rfl) (fun n m h _ st t => ?_) h () t
  unfold fileRound
  split
  · exact .refl _
  · exact (widens_function h).before _
  · exact (widens_structDef h).before _
  · exact (widens_constant h).before _
  · exact (widens_importPath h).before _
  · exact .refl _

end Parser

/-! ## Runs -/

/-- Every bound above the number of tokens gives the same run. -/
theorem run_file_bound {s : Session} {k n m : Nat} (hv : s.stream.view.Within k) (hn : k < n)
    (hm : k < m) (name : String) : (Parser.file name n).run s = (Parser.file name m).run s := by
  have reached {n m : Nat} (hn : k < n) (h : n ≤ m) :
      (Parser.file name m).run s = (Parser.file name n).run s :=
    (Parser.widens_file h name).run_eq ((Parser.file_ensures hv hn name).run_ne_fault _)
  rcases Nat.le_total n m with h | h
  · exact (reached hn h).symm
  · exact reached hm h

end ToyLang
