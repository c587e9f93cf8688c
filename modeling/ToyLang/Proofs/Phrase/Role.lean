import ToyLang.Proofs.Phrase.Basic

/-!
# Operands, operators and commas

Seen from outside, the parts of a phrase are operands, operators and commas: a call, an index, a
member and a group are an operand each. Up to a comma all of them go to the piles
(`Phrase.stands_of_run`), whatever the items before them are (`Phrase.run_items`); so phrases can be
put one behind the other (`Phrase.append`).
-/

set_option autoImplicit false

namespace ToyLang

/-- What a part of a phrase is to the others. -/
inductive Role where
  | operand
  | operator (o : Operator)
  | comma
deriving DecidableEq

/-- The operators among the parts. -/
def Role.operators (rs : List Role) : List Operator :=
  rs.filterMap fun
    | .operator o => some o
    | _ => none

/-! ## Reductions without a notice -/

namespace Work

/-- Operators leave an operand. -/
theorem eq_nil_of_reduceQuietly {w : Work}
    (h : reduceQuietly w.operators w.operands = some []) : w = {} := by
  obtain ⟨os, ops⟩ := w
  dsimp only at h
  induction ops generalizing os with
  | nil => rw [Option.some.inj h]
  | cons op ops ih =>
    obtain ⟨o, -, h⟩ := Option.bind_eq_some_iff.1 h
    split at h
    · have happly := congrArg Work.operands (ih _ h)
      unfold apply at happly
      split at happly <;> cases happly
    · cases h

/-- Two operands are needed for an operator, and one for an assignment; none of them is open. -/
theorem operands_of_quiet {op : Token} {o : Operator} {os : List Operand}
    (h : (apply op o [] os).2 = []) :
    ∃ r os', os = .plain r :: os' ∧
      (o = .assign ∧ (apply op o [] os).1 = .pending ⟨r, op⟩ :: os' ∨
        o ≠ .assign ∧ ∃ l os'', os' = .plain l :: os'' ∧
          (apply op o [] os).1 = .plain (.operation o l r op.pos) :: os'') := by
  cases os with
  | nil => unfold apply at h; split at h <;> simp [take] at h
  | cons right os =>
    cases right with
    | pending p => unfold apply at h; split at h <;> simp [take, Operand.settled] at h
    | plain r =>
      refine ⟨r, os, rfl, ?_⟩
      by_cases ho : o = .assign
      · exact .inl ⟨ho, by simp [apply, ho, take, Operand.settled]⟩
      · refine .inr ⟨ho, ?_⟩
        cases os with
        | nil => simp [apply, ho, take, Operand.settled] at h
        | cons left os =>
          cases left with
          | pending p => simp [apply, ho, take, Operand.settled] at h
          | plain l => exact ⟨l, os, rfl, by simp [apply, ho, take, Operand.settled]⟩

end Work

namespace ExprState

variable {st st' : ExprState} {pos : Pos} {o : Operand}

theorem reduced_of_item (h : st.item = some st') :
    ∃ e, Work.reduceQuietly st.work.operators st.work.operands = some [.plain e] ∧
      st' = { items := some (st.items.getD [] ++ [e]) } := by
  unfold item at h
  split at h
  · next e he => exact ⟨e, he, (Option.some.inj h).symm⟩
  · cases h

/-- At the end nothing is left, or one operand, which is not open behind a comma. -/
theorem reduced_of_result (h : st.result pos = some o) :
    Work.reduceQuietly st.work.operators st.work.operands = some [] ∨
      ∃ r, Work.reduceQuietly st.work.operators st.work.operands = some [r] ∧
        (st.items = none ∨ ∃ e, r = .plain e) := by
  unfold result at h
  split at h
  · next hreduce => exact .inl hreduce
  · next hitems hreduce => exact .inr ⟨_, hreduce, .inl hitems⟩
  · next hreduce => exact .inl hreduce
  · next hreduce => exact .inr ⟨_, hreduce, .inr ⟨_, rfl⟩⟩
  · cases h

end ExprState

/-! ## The parts of a phrase -/

namespace Phrase

/-- What the parts of a phrase are to one another. -/
def roles : Phrase → List Role
  | nil => []
  | operator t rest => .operator t.operator :: rest.roles
  | comma _ rest => .comma :: rest.roles
  | literal _ rest | name _ rest | member _ _ _ rest | argument _ _ _ _ _ rest
  | group _ _ _ rest => .operand :: rest.roles

theorem eq_nil_of_roles {ph : Phrase} (h : ph.roles = []) : ph = nil := by
  cases ph with
  | nil => rfl
  | _ => cases h

/-! ## One phrase behind another -/

/-- A phrase with another one behind it. -/
def append : Phrase → Phrase → Phrase
  | nil, q => q
  | literal t rest, q => literal t (rest.append q)
  | operator t rest, q => operator t (rest.append q)
  | comma t rest, q => comma t (rest.append q)
  | name t rest, q => name t (rest.append q)
  | member s dot m rest, q => member s dot m (rest.append q)
  | argument f b opening inside closing rest, q =>
    argument f b opening inside closing (rest.append q)
  | group opening inside closing rest, q => group opening inside closing (rest.append q)

variable {p q ph : Phrase} {st st' : ExprState}

theorem tokens_append (p q : Phrase) : (p.append q).tokens = p.tokens ++ q.tokens := by
  induction p with
  | nil => rfl
  | literal t p ih | operator t p ih | comma t p ih | name t p ih => exact congrArg _ ih
  | member s dot m p ih => simp only [append, tokens, ih, List.cons_append]
  | argument f b opening inside closing p _ ih | group opening inside closing p _ ih =>
    simp only [append, tokens, ih, List.cons_append, List.append_assoc]

theorem run_append (p q : Phrase) (st : ExprState) :
    (p.append q).run st = (p.run st).bind q.run := by
  induction p generalizing st with
  | nil => rfl
  | literal t p ih | operator t p ih | name t p ih | member s dot m p ih => exact ih _
  | comma t p ih =>
    rw [append, run, run, Option.bind_assoc]
    exact congrArg _ (funext ih)
  | argument f b opening inside closing p _ ih =>
    rw [append, run_argument, run_argument, Option.bind_assoc _ _ q.run]
    exact congrArg _ (funext fun _ => ih _)
  | group opening inside closing p _ ih =>
    rw [append, run_group, run_group, Option.bind_assoc]
    exact congrArg _ (funext fun _ => ih _)

/-- A phrase that does not open a group can stand behind any other. -/
theorem apart_append (hp : p.Apart) (hq : q.Apart) (hgroup : ¬q.OpensGroup) :
    (p.append q).Apart := by
  induction p with
  | nil => exact hq
  | literal t p ih | operator t p ih | comma t p ih | member s dot m p ih => exact ih hp
  | name t p ih =>
    refine ⟨?_, ih hp.2⟩
    cases p with
    | nil => exact hgroup
    | group => exact absurd trivial hp.1
    | _ => exact id
  | argument f b opening inside closing p _ ih | group opening inside closing p _ ih =>
    exact ⟨hp.1, ih hp.2⟩

/-! ## Phrases without a comma -/

/-- The piles hold what the parts `rs`, none of them a comma, have put there behind `items`. -/
structure Stands (rs : List Role) (items : Option (List Expr)) (st : ExprState) : Prop where
  single : .comma ∉ rs
  operands : st.work.operands.length = rs.count .operand
  operators : st.work.operators.map Token.kind = (Role.operators rs).reverse.map .operator
  items : st.items = items

variable {rs : List Role} {items : Option (List Expr)}

theorem stands_nil (items : Option (List Expr)) : Stands [] items { items } :=
  ⟨List.not_mem_nil, rfl, rfl, rfl⟩

theorem Stands.push (h : Stands rs items st) (o : Operand) :
    Stands (rs ++ [Role.operand]) items (st.push o) where
  single := by simpa using h.single
  operands := by simp [ExprState.push, h.operands]
  operators := by simp [ExprState.push, h.operators, Role.operators]
  items := h.items

theorem Stands.pushOperator (h : Stands rs items st) (t : OperatorToken) :
    Stands (rs ++ [Role.operator t.operator]) items (st.pushOperator t.toToken) where
  single := by simpa using h.single
  operands := by simp [ExprState.pushOperator, h.operands, List.count_append]
  operators := by simp [ExprState.pushOperator, h.operators, Role.operators, t.kind_eq]
  items := h.items

/-- Where nothing is on the piles, there was no part. -/
theorem Stands.eq_nil (h : Stands rs items st) (hst : st.work = {}) : rs = [] := by
  obtain ⟨hsingle, hoperands, hoperators, -⟩ := h
  rw [hst] at hoperands hoperators
  cases rs with
  | nil => rfl
  | cons r rs =>
    cases r with
    | operand => simp at hoperands
    | operator o => simp [Role.operators] at hoperators
    | comma => exact absurd List.mem_cons_self hsingle

/-- Where there is no comma, every part goes to the piles. -/
theorem stands_of_run (hst : Stands rs items st) (h : .comma ∉ ph.roles)
    (hrun : ph.run st = some st') : Stands (rs ++ ph.roles) items st' := by
  induction ph generalizing rs st with
  | nil =>
    cases hrun
    rwa [roles, List.append_nil]
  | literal t ph ih | name t ph ih | member s dot m ph ih =>
    rw [roles, List.append_cons]
    exact ih (hst.push _) (fun hc => h (.tail _ hc)) hrun
  | operator t ph ih =>
    rw [roles, List.append_cons]
    exact ih (hst.pushOperator t) (fun hc => h (.tail _ hc)) hrun
  | comma t ph ih => exact absurd List.mem_cons_self h
  | argument f b opening inside closing ph _ ih =>
    rw [run_argument] at hrun
    obtain ⟨e, -, hrun⟩ := Option.bind_eq_some_iff.1 hrun
    rw [roles, List.append_cons]
    exact ih (hst.push _) (fun hc => h (.tail _ hc)) hrun
  | group opening inside closing ph _ ih =>
    rw [run_group] at hrun
    obtain ⟨o, -, hrun⟩ := Option.bind_eq_some_iff.1 hrun
    rw [roles, List.append_cons]
    exact ih (hst.push _) (fun hc => h (.tail _ hc)) hrun

/-- Behind a comma there are items. -/
theorem single_of_run (hrun : ph.run st = some st') (hitems : st'.items = none) :
    st.items = none ∧ .comma ∉ ph.roles := by
  have behind {r : Role} {rs : List Role} (hr : r ≠ .comma) (h : .comma ∉ rs) : .comma ∉ r :: rs :=
    List.not_mem_cons_of_ne_of_not_mem hr.symm h
  induction ph generalizing st with
  | nil =>
    cases hrun
    exact ⟨hitems, List.not_mem_nil⟩
  | literal t ph ih | name t ph ih | member s dot m ph ih =>
    obtain ⟨hst, hph⟩ := ih hrun
    exact ⟨hst, behind (by simp) hph⟩
  | operator t ph ih =>
    obtain ⟨hst, hph⟩ := ih hrun
    exact ⟨hst, behind (by simp) hph⟩
  | comma t ph ih =>
    obtain ⟨st₁, hitem, hrun⟩ := Option.bind_eq_some_iff.1 hrun
    obtain ⟨e, -, rfl⟩ := ExprState.reduced_of_item hitem
    cases (ih hrun).1
  | argument f b opening inside closing ph _ ih =>
    rw [run_argument] at hrun
    obtain ⟨e, -, hrun⟩ := Option.bind_eq_some_iff.1 hrun
    obtain ⟨hst, hph⟩ := ih hrun
    exact ⟨hst, behind (by simp) hph⟩
  | group opening inside closing ph _ ih =>
    rw [run_group] at hrun
    obtain ⟨o, -, hrun⟩ := Option.bind_eq_some_iff.1 hrun
    obtain ⟨hst, hph⟩ := ih hrun
    exact ⟨hst, behind (by simp) hph⟩

/-- What leaves nothing, neither on the piles nor as items, is empty. -/
theorem eq_nil_of_run (hrun : ph.run {} = some st) (hitems : st.items = none)
    (hwork : st.work = {}) : ph = nil := by
  obtain ⟨-, hsingle⟩ := single_of_run hrun hitems
  exact eq_nil_of_roles ((stands_of_run (stands_nil none) hsingle hrun).eq_nil hwork)

/-- The items before the last comma are of no influence on what comes behind it. -/
theorem run_items (h : .comma ∉ ph.roles) (work : Work) (items : Option (List Expr)) :
    ph.run { work, items } = (ph.run { work }).map fun st => { st with items } := by
  induction ph generalizing work with
  | nil => rfl
  | literal t ph ih | operator t ph ih | name t ph ih | member s dot m ph ih =>
    exact ih (fun hc => h (.tail _ hc)) _
  | comma t ph ih => exact absurd List.mem_cons_self h
  | argument f b opening inside closing ph _ ih =>
    rw [run_argument, run_argument, Option.map_bind]
    exact congrArg _ (funext fun _ => ih (fun hc => h (.tail _ hc)) _)
  | group opening inside closing ph _ ih =>
    rw [run_group, run_group, Option.map_bind]
    exact congrArg _ (funext fun _ => ih (fun hc => h (.tail _ hc)) _)

end Phrase

end ToyLang
