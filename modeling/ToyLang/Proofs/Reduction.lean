import ToyLang.Parser.Work
import ToyLang.Proofs.Ensures
import ToyLang.Proofs.Grammar.Derivation

/-!
# What a reduction comes to

A row of operators over a stack of operands, both given from the bottom up, comes to one node. Each
operator asks the stack for its left operand, and the one on top asks for its right operand before
that (`askers`), so that `k` operators take the last `k + 1` entries and leave what is below them.
Where the stack is too short, the operands at the bottom are absent. The node is nested to the right
(`nest`).

* `ask_cons`: one operator more, at the bottom, takes one entry more;
* `reduceOver_joiners`: a reduction takes what its operators ask for, whatever operators are below;
* `reduction_closed`: the closed form of a reduction in a session that collects reports, also with
  an assignment below the other operators.
-/

set_option autoImplicit false

namespace ToyLang

open Grammar

/-! ## The closed form -/

/-- The operators that ask for operands, from the bottom up: each for its left one, and the one on
top for its right one as well. -/
def askers (op : Joiner) : List Joiner → List Token
  | [] => [op.toToken, op.toToken]
  | next :: ops => op.toToken :: askers next ops

theorem askers_length (op : Joiner) (ops : List Joiner) :
    (askers op ops).length = (op :: ops).length + 1 := by
  induction ops generalizing op with
  | nil => rfl
  | cons next ops ih => simp [askers, ih]

/-- The entries of a stack that nothing is asked for. -/
def entriesBelow (asking : List Token) (stack : List Operand) : List Operand :=
  stack.take (stack.length - asking.length)

/-- The entries of a stack that are asked for. -/
def entriesTaken (asking : List Token) (stack : List Operand) : List Operand :=
  stack.drop (stack.length - asking.length)

/-- Those who ask for what the stack does not have. -/
def unserved (asking : List Token) (stack : List Operand) : List Token :=
  asking.take (asking.length - stack.length)

theorem unserved_length (asking : List Token) (stack : List Operand) :
    (unserved asking stack).length = asking.length - stack.length := by
  simp [unserved]

/-- The operands for those who ask: the entries that are taken, settled, and below them a mark of an
absent operand for each one that the stack does not have. -/
def operandsFor (asking : List Token) (stack : List Operand) : List Expr :=
  (unserved asking stack).map (fun t => Expr.none t.pos) ++
    (entriesTaken asking stack).map fun o => o.settled.1

theorem operandsFor_length (asking : List Token) (stack : List Operand) :
    (operandsFor asking stack).length = asking.length := by
  simp [operandsFor, unserved, entriesTaken]
  omega

/-- What there is to report of the operands, from the top down: the assignments among them that have
no target, and then each operand that is missing. -/
def reportsFor (asking : List Token) (stack : List Operand) : List Diagnostic :=
  ((entriesTaken asking stack).filterMap fun o => o.settled.2).reverse.map
      (Problem.noTarget.seenAt ·) ++
    (unserved asking stack).reverse.map fun t =>
      (Problem.missingOperand t.value.display).seenAt t

/-- The node of a row of operators with their operands: the first operator has the first operand on
its left and the node of all the others on its right. -/
def nest : List Joiner → List Expr → Expr
  | op :: ops, x :: xs => .operation op.operator x (nest ops xs) op.pos
  | _, xs => xs.headD .none

/-- The stack behind the reduction of a row of operators. -/
def stackBehind (stack : List Operand) : List Joiner → List Operand
  | [] => stack
  | op :: ops =>
    entriesBelow (askers op ops) stack ++
      [.plain (nest (op :: ops) (operandsFor (askers op ops) stack))]

/-- What the reduction of a row of operators reports. -/
def reportsBehind (stack : List Operand) : List Joiner → List Diagnostic
  | [] => []
  | op :: ops => reportsFor (askers op ops) stack

/-- The stack behind an assignment, which takes its right-hand side only and waits for a target. -/
def stackAssigned (stack : List Operand) (a : Assign) : List Operand :=
  entriesBelow [a.toToken] stack ++
    (operandsFor [a.toToken] stack).map fun x => .pending ⟨x, a.toToken⟩

/-! ## Taking operands -/

/-- The report of a notice. -/
def Notice.report (n : Notice) : Diagnostic := n.problem.seenAt n.token

/-- The entry of a long enough stack that has `n` entries above it. -/
theorem exists_entry (n : Nat) (stack : List Operand) (h : n < stack.length) :
    ∃ below o above, stack = below ++ o :: above ∧ above.length = n := by
  have hlt : stack.length - (n + 1) < stack.length := by omega
  refine ⟨stack.take (stack.length - (n + 1)), stack[stack.length - (n + 1)],
    stack.drop (stack.length - (n + 1) + 1), ?_, ?_⟩
  · rw [← List.drop_eq_getElem_cons hlt, List.take_append_drop]
  · rw [List.length_drop]
    omega

/-- **One more asks**, at the bottom: the entry that was next goes to it, or there is none. -/
theorem ask_cons (t : Token) (asking : List Token) (stack : List Operand) (ops : List Token) :
    let r := Work.take t ops (entriesBelow asking stack).reverse
    operandsFor (t :: asking) stack = r.1 :: operandsFor asking stack ∧
      (entriesBelow (t :: asking) stack).reverse = r.2.1 ∧
      reportsFor (t :: asking) stack = reportsFor asking stack ++ r.2.2.map Notice.report := by
  simp only [operandsFor, entriesBelow, reportsFor, unserved, entriesTaken, List.length_cons]
  by_cases hshort : stack.length ≤ asking.length
  · -- the stack is used up: the asker is the first of those who get nothing
    have hsub : stack.length - asking.length = 0 := by omega
    have hsub' : stack.length - (asking.length + 1) = 0 := by omega
    have hmore : asking.length + 1 - stack.length = asking.length - stack.length + 1 := by omega
    simp [hsub, hsub', hmore, Work.take, Notice.report]
  · obtain ⟨below, o, above, rfl, habove⟩ := exists_entry asking.length stack (by omega)
    have hnone : asking.length - (below ++ o :: above).length = 0 := by simp; omega
    have hnone' : asking.length + 1 - (below ++ o :: above).length = 0 := by simp; omega
    have hbelow : (below ++ o :: above).length - asking.length = below.length + 1 := by simp; omega
    have hbelow' : (below ++ o :: above).length - (asking.length + 1) = below.length := by
      simp; omega
    have hall : below.take (below.length + 1) = below := List.take_of_length_le (by omega)
    have hover : below.drop (below.length + 1) = [] := List.drop_of_length_le (by omega)
    rw [hnone, hnone', hbelow, hbelow']
    cases h : o.settled.2 <;>
      simp [h, hall, hover, List.take_append, List.drop_append, Work.take, Notice.report]

theorem take_plain (op : Token) (ops : List Token) (e : Expr) (pile : List Operand) :
    Work.take op ops (.plain e :: pile) = (e, pile, []) := rfl

/-- The only one who asks gets the entry on top, or there is none. -/
theorem ask_single (t : Token) (stack : List Operand) (ops : List Token) :
    let r := Work.take t ops stack.reverse
    operandsFor [t] stack = [r.1] ∧ (entriesBelow [t] stack).reverse = r.2.1 ∧
      reportsFor [t] stack = r.2.2.map Notice.report := by
  simpa [operandsFor, entriesBelow, reportsFor, unserved, entriesTaken] using
    ask_cons t [] stack ops

/-! ## Reducing -/

/-- What a reduction comes to: its reports, the piles it leaves and what stopped it. -/
def Reduction.summary (r : Reduction) : List Diagnostic × Work × Option Token :=
  (r.notices.map Notice.report, r.work, r.stopped)

/-- The summary with more reports in front. -/
def reportingFirst (ds : List Diagnostic) (s : List Diagnostic × Work × Option Token) :
    List Diagnostic × Work × Option Token := (ds ++ s.1, s.2)

theorem summary_reduceOver_cons (op : Joiner) (ops : List Token) (pile : List Operand) :
    let right := Work.take op.toToken ops pile
    let left := Work.take op.toToken ops right.2.1
    (Work.reduceOver (op.toToken :: ops) pile).summary =
      reportingFirst (right.2.2.map Notice.report ++ left.2.2.map Notice.report)
        (Work.reduceOver ops
          (.plain (.operation op.operator left.1 right.1 op.pos) :: left.2.1)).summary := by
  simp [Work.reduceOver, TokenKind.operator?, Work.apply, op.joins, Reduction.summary,
    reportingFirst]

/-- **A reduction takes what its operators ask for**, whatever operators are below them. -/
theorem reduceOver_joiners (op : Joiner) (ops : List Joiner) (stack : List Operand)
    (more : List Token) :
    (Work.reduceOver (((op :: ops).map Joiner.toToken).reverse ++ more) stack.reverse).summary =
      reportingFirst (reportsBehind stack (op :: ops))
        (Work.reduceOver more (stackBehind stack (op :: ops)).reverse).summary := by
  induction ops generalizing op more with
  | nil =>
    -- the only operator asks twice
    obtain ⟨hx, hbelow, hright⟩ := ask_single op.toToken stack more
    obtain ⟨hxs, hrest, hleft⟩ := ask_cons op.toToken [op.toToken] stack more
    have hrow : ([op].map Joiner.toToken).reverse ++ more = op.toToken :: more := by simp
    rw [hrow, summary_reduceOver_cons, ← hbelow, ← hrest, ← hright, ← hleft]
    simp [stackBehind, reportsBehind, askers, nest, hx, hxs]
  | cons next ops ih =>
    -- the last operator takes what the others come to, and then one entry more
    obtain ⟨hx, hbelow, hleft⟩ := ask_cons op.toToken (askers next ops) stack more
    have hrow : ((op :: next :: ops).map Joiner.toToken).reverse ++ more =
        ((next :: ops).map Joiner.toToken).reverse ++ op.toToken :: more := by simp
    have htop : (stackBehind stack (next :: ops)).reverse =
        .plain (nest (next :: ops) (operandsFor (askers next ops) stack)) ::
          (entriesBelow (askers next ops) stack).reverse := by simp [stackBehind]
    rw [hrow, ih next (op.toToken :: more), htop, summary_reduceOver_cons]
    simp only [take_plain, List.map_nil, List.nil_append, ← hbelow]
    simp [stackBehind, reportsBehind, askers, nest, hx, hleft, reportingFirst]

/-- A reduction of joining operators, of which there may be none. -/
theorem reduceOver_row (ops : List Joiner) (stack : List Operand) (more : List Token) :
    (Work.reduceOver ((ops.map Joiner.toToken).reverse ++ more) stack.reverse).summary =
      reportingFirst (reportsBehind stack ops)
        (Work.reduceOver more (stackBehind stack ops).reverse).summary := by
  cases ops with
  | nil => rfl
  | cons op ops => exact reduceOver_joiners op ops stack more

/-- An assignment takes one entry. -/
theorem reduceOver_assign (a : Assign) (stack : List Operand) :
    (Work.reduceOver [a.toToken] stack.reverse).summary =
      (reportsFor [a.toToken] stack, ⟨(stackAssigned stack a).reverse, []⟩, none) := by
  obtain ⟨hx, hbelow, hreports⟩ := ask_single a.toToken stack []
  simp [Work.reduceOver, TokenKind.operator?, Work.apply, Reduction.summary, stackAssigned, hx,
    hbelow, hreports]

/-! ## In a session -/

/-- The session behind some reports. -/
def Session.reporting (s : Session) (ds : List Diagnostic) : Session :=
  { s with diagnostics := { s.diagnostics with items := s.diagnostics.items ++ ds.toArray } }

theorem Session.reporting_nil (s : Session) : s.reporting [] = s := by simp [Session.reporting]

theorem Session.reporting_cons (s : Session) (d : Diagnostic) (ds : List Diagnostic) :
    (s.reporting [d]).reporting ds = s.reporting (d :: ds) := by
  simp [Session.reporting]

variable {s : Session}

/-- A note is collected. -/
theorem run_notice (hs : s.diagnostics.failFast = false) (n : Notice) :
    (Builder.note n.problem n.token).run s = (.ok (), s.reporting [n.report]) := by
  unfold Builder.note
  rw [Builder.run_report _ _ _ hs]
  simp [Builder.run, Session.reporting, Diagnostics.record, Notice.report]

/-- A row of notes is collected. -/
theorem run_notices (hs : s.diagnostics.failFast = false) (ns : List Notice) :
    (ns.forM fun n => Builder.note n.problem n.token).run s =
      (.ok (), s.reporting (ns.map Notice.report)) := by
  induction ns generalizing s with
  | nil => simp [Builder.run, pure, Session.reporting_nil]
  | cons n ns ih =>
    simp only [List.forM]
    rw [Builder.run_bind, run_notice hs]
    exact (ih (s := s.reporting [n.report]) hs).trans (by rw [Session.reporting_cons]; rfl)

theorem reduce_go (hs : s.diagnostics.failFast = false) (ns : List Notice) {r : Reduction}
    (hr : r.stopped = none) :
    Session.reduce.go ns s r = (.ok (), r.work, s.reporting (ns.map Notice.report)) := by
  induction ns generalizing s with
  | nil => simp [Session.reduce.go, hr, Session.reporting_nil]
  | cons n ns ih =>
    rw [Session.reduce.go, run_notice hs]
    exact (ih (s := s.reporting [n.report]) hs).trans (by rw [Session.reporting_cons]; rfl)

/-- In the session `s` the operators `ops` over the stack `stack`, bottom up, are reduced without a
halt: no operator is left, the stack is `behind`, and `ds` is all that is reported. -/
def Session.Reduces (s : Session) (stack : List Operand) (ops : List Token) (behind : List Operand)
    (ds : List Diagnostic) : Prop :=
  s.reduce ⟨stack.reverse, ops.reverse⟩ = (.ok (), ⟨behind.reverse, []⟩, s.reporting ds) ∧
    (Work.reduce ⟨stack.reverse, ops.reverse⟩).run s = (.ok behind.reverse, s.reporting ds)

/-- A session reduces as the piles say. -/
theorem reduces_of_summary {stack behind : List Operand} {ops : List Token} {ds : List Diagnostic}
    (hs : s.diagnostics.failFast = false)
    (h : (Work.reduceOver ops.reverse stack.reverse).summary = (ds, ⟨behind.reverse, []⟩, none)) :
    s.Reduces stack ops behind ds := by
  simp only [Reduction.summary, Prod.mk.injEq] at h
  obtain ⟨hds, hwork, hstopped⟩ := h
  refine ⟨?_, ?_⟩
  · simp only [Session.reduce, Work.reduction]
    rw [reduce_go hs _ hstopped, hds, hwork]
  · simp only [Work.reduce, Work.reduction]
    rw [Builder.run_bind, run_notices hs, hds, hstopped, hwork]
    rfl

/-- **A reduction in closed form**, in a session that collects reports. With `k` joining operators
over a stack of `m` entries, the first `m - (k + 1)` entries stay and the node of the operators is
put on them; its operands are the other entries, below which `k + 1 - m` operands are missing. Each
missing operand is reported, and each assignment that is taken as an operand. An assignment below
the operators takes what they leave on top, or a missing operand, and waits for its target. -/
theorem reduction_closed (s : Session) (hs : s.diagnostics.failFast = false)
    (stack : List Operand) :
    (∀ (op : Joiner) (ops : List Joiner),
      let k := (op :: ops).length
      let asking := askers op ops
      s.Reduces stack ((op :: ops).map Joiner.toToken)
          (stack.take (stack.length - (k + 1)) ++
            [.plain (nest (op :: ops) (operandsFor asking stack))])
          (reportsFor asking stack) ∧
        entriesTaken asking stack = stack.drop (stack.length - (k + 1)) ∧
        (unserved asking stack).length = k + 1 - stack.length ∧
        (operandsFor asking stack).length = k + 1) ∧
      ∀ (a : Assign) (ops : List Joiner),
        s.Reduces stack (a.toToken :: ops.map Joiner.toToken)
          (stackAssigned (stackBehind stack ops) a)
          (reportsBehind stack ops ++ reportsFor [a.toToken] (stackBehind stack ops)) := by
  refine ⟨fun op ops => ⟨?_, ?_, ?_, ?_⟩, fun a ops => ?_⟩
  · have h := reduceOver_joiners op ops stack []
    rw [List.append_nil] at h
    refine reduces_of_summary hs (h.trans ?_)
    simp [Work.reduceOver, Reduction.summary, reportingFirst, reportsBehind, stackBehind,
      entriesBelow, askers_length]
  · rw [entriesTaken, askers_length]
  · rw [unserved_length, askers_length]
  · rw [operandsFor_length, askers_length]
  · have h := reduceOver_row ops stack [a.toToken]
    rw [← List.reverse_cons, reduceOver_assign] at h
    exact reduces_of_summary hs h

/-- `+` and `*` over `:= 1` alone. -/
theorem lone_assignment_reduced :
    let s : Session := { stream := .ofList [] }
    let plus : Joiner := ⟨⟨.operator .add, .text "+", ⟨1, 8⟩⟩, .add, rfl, by decide⟩
    let times : Joiner := ⟨⟨.operator .mul, .text "*", ⟨1, 10⟩⟩, .mul, rfl, by decide⟩
    let gets : Token := ⟨.operator .assign, .text ":=", ⟨1, 4⟩⟩
    let one : Expr := { kind := .int, value := .int 1, pos := ⟨1, 6⟩ }
    s.diagnostics.failFast = false ∧
      s.Reduces [.pending ⟨one, gets⟩] [plus.toToken, times.toToken]
        [.plain (.operation .add (.none ⟨1, 8⟩)
          (.operation .mul (.none ⟨1, 10⟩)
            (.operation .assign (.none ⟨1, 4⟩) one ⟨1, 4⟩) ⟨1, 10⟩) ⟨1, 8⟩)]
        [Problem.noTarget.seenAt gets, (Problem.missingOperand "*").seenAt times.toToken,
          (Problem.missingOperand "+").seenAt plus.toToken] := by
  intro s plus times gets one
  exact ⟨rfl, ((reduction_closed s rfl [.pending ⟨one, gets⟩]).1 plus [times]).1⟩

end ToyLang
