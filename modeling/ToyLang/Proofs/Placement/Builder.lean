import ToyLang.Proofs.Accept
import ToyLang.Tree.Identity

/-!
# Builders that differ in positions only

Two builders are alike (`Builder.Alike R`) if they take the same steps on tokens that differ in
positions only, and end in results that `R` relates. Alike builders accept alike rows of tokens
(`Alike.accept`). `Under f` relates what `f` does not tell apart; with `unplaced` for `f` these are
trees that are the same.
-/

set_option autoImplicit false

namespace ToyLang

/-- What `f` does not tell apart. -/
abbrev Under {α β : Type} (f : α → β) (a a' : α) : Prop := f a = f a'

theorem under_cons {α β : Type} {f : α → β} {a a' : α} {as as' : List α} (h : Under f a a')
    (hs : Under (List.map f) as as') : Under (List.map f) (a :: as) (a' :: as') := by
  simp only [Under, List.map_cons] at hs ⊢
  rw [h, hs]

/-- The token at no position. -/
def Token.bare (t : Token) : Token := { t with pos := ⟨0, 0⟩ }

/-- Two tokens that differ in their positions only. -/
abbrev Token.Alike (t t' : Token) : Prop := Under Token.bare t t'

section
variable {t t' : Token}

@[simp] theorem Token.kind_bare (t : Token) : t.bare.kind = t.kind := rfl

@[simp] theorem Token.value_bare (t : Token) : t.bare.value = t.value := rfl

@[simp] theorem Token.pos_bare (t : Token) : t.bare.pos = ⟨0, 0⟩ := rfl

theorem Token.Alike.kind (h : t.Alike t') : t'.kind = t.kind := (congrArg Token.kind h).symm

theorem Token.Alike.value (h : t.Alike t') : t'.value = t.value := (congrArg Token.value h).symm

end

/-! ## Trees without positions -/

theorem Expr.unplaced_mk (kind : ExprKind) (value : Value) (args items : List Expr) (pos : Pos) :
    (Expr.mk kind value args items pos).unplaced =
      ⟨kind, value, args.map unplaced, items.map unplaced, ⟨0, 0⟩⟩ := by
  simp only [unplaced, mapNodes, mapNodesAll_eq_map, id_eq]
  rfl

@[simp] theorem Expr.kind_unplaced (e : Expr) : e.unplaced.kind = e.kind := by
  cases e
  rw [unplaced_mk]

@[simp] theorem Expr.isNone_unplaced (e : Expr) : e.unplaced.isNone = e.isNone := by
  rw [isNone, kind_unplaced, isNone]

@[simp] theorem Expr.value_unplaced (e : Expr) : e.unplaced.value = e.value := by
  cases e
  rw [unplaced_mk]

@[simp] theorem Expr.unplaced_none (pos : Pos) : (Expr.none pos).unplaced = .none :=
  Expr.unplaced_mk ..

@[simp] theorem Expr.unplaced_identifier (name : Value) (pos : Pos) :
    (Expr.identifier name pos).unplaced = .identifier name ⟨0, 0⟩ := Expr.unplaced_mk ..

@[simp] theorem Expr.unplaced_operation (o : Operator) (left right : Expr) (pos : Pos) :
    (Expr.operation o left right pos).unplaced =
      .operation o left.unplaced right.unplaced ⟨0, 0⟩ := Expr.unplaced_mk ..

theorem Stmt.unplaced_mk (kind : StmtKind) (name : String) (dataType : DataType) (expr : Expr)
    (statements branches : List Stmt) (pos : Pos) :
    (Stmt.mk kind name dataType expr statements branches pos).unplaced =
      ⟨kind, name, dataType, expr.unplaced, statements.map unplaced, branches.map unplaced,
        ⟨0, 0⟩⟩ := by
  simp only [unplaced, unplacedAll_eq_map]

section
variable {e e' : Expr} (h : Under Expr.unplaced e e')
include h

theorem Expr.kind_of_alike : e'.kind = e.kind := by
  rw [← kind_unplaced e', ← h, kind_unplaced]

theorem Expr.isNone_of_alike : e'.isNone = e.isNone := by
  rw [← isNone_unplaced e', ← h, isNone_unplaced]

theorem Expr.value_of_alike : e'.value = e.value := by
  rw [← value_unplaced e', ← h, value_unplaced]

end

/-! ## Operands and piles without positions -/

/-- The operand without positions. -/
def Operand.unplaced : Operand → Operand
  | plain e => plain e.unplaced
  | pending p => pending ⟨p.value.unplaced, p.token.bare⟩

/-- The piles without positions. -/
def Work.unplaced (w : Work) : Work :=
  ⟨w.operands.map Operand.unplaced, w.operators.map Token.bare⟩

/-- The notice without positions. -/
def Notice.unplaced (n : Notice) : Notice := ⟨n.problem, n.token.bare, n.left.unplaced⟩

/-- The reduction without positions. -/
def Reduction.unplaced (r : Reduction) : Reduction :=
  ⟨r.notices.map Notice.unplaced, r.work.unplaced, r.stopped.map Token.bare⟩

/-- The state without positions. -/
def ExprState.unplaced (st : ExprState) : ExprState :=
  ⟨st.work.unplaced, st.items.map (·.map Expr.unplaced)⟩

theorem Operand.settled_unplaced (o : Operand) :
    o.unplaced.settled = (o.settled.1.unplaced, o.settled.2.map Token.bare) := by
  cases o with
  | plain e => rfl
  | pending p =>
    simp [unplaced, settled, PendingAssignment.complete]

namespace Work

theorem take_unplaced (op : Token) (operators : List Token) (operands : List Operand) :
    take op.bare (operators.map Token.bare) (operands.map Operand.unplaced) =
      ((take op operators operands).1.unplaced,
        (take op operators operands).2.1.map Operand.unplaced,
        (take op operators operands).2.2.map Notice.unplaced) := by
  cases operands with
  | nil => simp [take, Notice.unplaced, Work.unplaced]
  | cons o operands =>
    simp only [List.map_cons, take, Operand.settled_unplaced]
    cases o.settled.2 <;> simp [Notice.unplaced, Work.unplaced]

theorem apply_unplaced (op : Token) (o : Operator) (operators : List Token)
    (operands : List Operand) :
    apply op.bare o (operators.map Token.bare) (operands.map Operand.unplaced) =
      ((apply op o operators operands).1.map Operand.unplaced,
        (apply op o operators operands).2.map Notice.unplaced) := by
  unfold apply
  split <;> simp [take_unplaced, Operand.unplaced]

/-- Reducing does not see positions. -/
theorem reduceOver_unplaced (operators : List Token) (operands : List Operand) :
    reduceOver (operators.map Token.bare) (operands.map Operand.unplaced) =
      (reduceOver operators operands).unplaced := by
  induction operators generalizing operands with
  | nil => rfl
  | cons op operators ih =>
    rw [List.map_cons, reduceOver, reduceOver, Token.kind_bare]
    cases op.kind.operator? with
    | none => rfl
    | some o =>
      simp only [apply_unplaced, ih]
      simp [Reduction.unplaced]

theorem reduction_unplaced (w : Work) : w.unplaced.reduction = w.reduction.unplaced :=
  reduceOver_unplaced _ _

end Work

/-! ## Alike builders -/

namespace Builder

variable {α β : Type}

/-- Two builders that take the same steps on alike tokens, to results in `R`. -/
inductive Alike (R : α → α → Prop) : Builder α → Builder α → Prop
  | done {a a' : α} : R a a' → Alike R (done a) (done a')
  | next {k k' : Token → Builder α} :
      (∀ t t', t.Alike t' → Alike R (k t) (k' t')) → Alike R (next k) (next k')
  | back {t t' : Token} {k k' : Builder α} :
      t.Alike t' → Alike R k k' → Alike R (back t k) (back t' k')
  | report {p : Problem} {t t' : Token} {k k' : Builder α} :
      t.Alike t' → Alike R k k' → Alike R (report p t k) (report p t' k')
  | declare {c c' : TypedName} {k k' : Builder α} :
      Under TypedName.unplaced c c' → Alike R k k' → Alike R (declare c k) (declare c' k')
  | fault (f f' : Fault) : Alike R (fault f) (fault f')

variable {R : α → α → Prop} {S : β → β → Prop} {b b' : Builder α}

theorem Alike.bind {f f' : α → Builder β} (h : Alike R b b')
    (hf : ∀ a a', R a a' → Alike S (f a) (f' a')) : Alike S (b >>= f) (b' >>= f') := by
  show Alike S (b.bind f) (b'.bind f')
  induction h with
  | done h => exact hf _ _ h
  | next _ ih => exact .next ih
  | back h _ ih => exact .back h ih
  | report h _ ih => exact .report h ih
  | declare h _ ih => exact .declare h ih
  | fault f f' => exact .fault f f'

theorem Alike.map {f f' : α → β} (h : Alike R b b') (hf : ∀ a a', R a a' → S (f a) (f' a')) :
    Alike S (f <$> b) (f' <$> b') := by
  rw [← bind_pure_comp, ← bind_pure_comp]
  exact h.bind fun a a' ha => .done (hf a a' ha)

theorem alike_pure {a a' : α} (h : R a a') : Alike R (pure a) (pure a') := .done h

theorem alike_read : Alike Token.Alike read read := .next fun _ _ h => .done h

/-- The relation of results that say nothing. -/
abbrev Any (_ _ : α) : Prop := True

theorem alike_putBack {t t' : Token} (h : t.Alike t') : Alike Any (putBack t) (putBack t') :=
  .back h (.done trivial)

theorem alike_note (p : Problem) {t t' : Token} (h : t.Alike t') :
    Alike Any (note p t) (note p t') := .report h (.done trivial)

theorem alike_addConst {c c' : TypedName} (h : Under TypedName.unplaced c c') :
    Alike Any (addConst c) (addConst c') := .declare h (.done trivial)

/-- A result beside constants, both without positions. -/
theorem Alike.collected (h : Alike R b b') :
    Alike (fun r r' : α × List TypedName =>
      R r.1 r'.1 ∧ r.2.map TypedName.unplaced = r'.2.map TypedName.unplaced)
      b.collected b'.collected := by
  induction h with
  | done h => exact .done ⟨h, rfl⟩
  | next _ ih => exact .next ih
  | back h _ ih => exact .back h ih
  | report h _ ih => exact .report h ih
  | declare h _ ih => exact ih.bind fun _ _ hr => .done ⟨hr.1, by simp [h, hr.2]⟩
  | fault f f' => exact .fault f f'

/-! ## Alike runs -/

/-- What an accepting run leaves behind, without positions. -/
def bareState (st : List Token × List TypedName) : List Token × List TypedName :=
  (st.1.map Token.bare, st.2.map TypedName.unplaced)

/-- Both runs accept, with results in `R` and alike states behind them, or neither does. -/
def AlikeReply (R : α → α → Prop) (r r' : Option (α × List Token × List TypedName)) : Prop :=
  match r, r' with
  | some (a, st), some (a', st') => R a a' ∧ bareState st = bareState st'
  | none, none => True
  | _, _ => False

/-- **Positions do not matter** to accepting runs: alike builders do alike on alike tokens. -/
theorem Alike.accept (h : Alike R b b') {mark mark' : Token} (hm : mark.Alike mark')
    {st st' : List Token × List TypedName} (hst : bareState st = bareState st') :
    AlikeReply R (b.accept mark st) (b'.accept mark' st') := by
  obtain ⟨ts, cs⟩ := st
  obtain ⟨ts', cs'⟩ := st'
  simp only [bareState, Prod.mk.injEq] at hst
  induction h generalizing ts ts' cs cs' with
  | done h => exact ⟨h, Prod.ext hst.1 hst.2⟩
  | next _ ih =>
    obtain ⟨hts, hcs⟩ := hst
    cases ts with
    | nil =>
      cases List.map_eq_nil_iff.1 hts.symm
      exact ih _ _ hm [] cs [] cs' ⟨rfl, hcs⟩
    | cons t ts =>
      obtain ⟨t', ts', rfl, ht, hts⟩ := List.map_eq_cons_iff.1 hts.symm
      exact ih t t' ht.symm ts cs ts' cs' ⟨hts.symm, hcs⟩
  | back h _ ih => exact ih _ cs _ cs' ⟨by simp [h, hst.1], hst.2⟩
  | report => trivial
  | declare h _ ih => exact ih ts _ ts' _ ⟨hst.1, by simp [h, hst.2]⟩
  | fault => trivial

end Builder

end ToyLang
