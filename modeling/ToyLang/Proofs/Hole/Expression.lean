import ToyLang.Proofs.Nodes
import ToyLang.Proofs.Phrase.Role

/-!
# Operands that are not there

An operand of an operator is missing where its place holds the mark of an absent expression, and so
is an item of a list. A reduction reports a missing operand and a comma a missing item; but an empty
group is an absent expression that the piles hold like any other. So where nothing is reported,
every missing operand or item stands at an empty group (`Phrase.fits_of_run`).

An empty pair of parentheses is a group unless it is the argument of the name before it. A name
before the first token of a phrase takes no argument in it, and neither does a member; so the phrase
is told what it comes behind (`Opens`).
-/

set_option autoImplicit false

namespace ToyLang

/-! ## Empty groups -/

/-- Behind the tokens `before` there is an empty pair of parentheses in `ts`, closed at `q`. -/
def EmptyPair (ts before : List Token) (q : Pos) : Prop :=
  ∃ l r after, ts = before ++ l :: r :: after ∧ l.kind = .punct .lparen ∧
    r.kind = .punct .rparen ∧ r.pos = q

/-- The last token is a name, and not that of a member. -/
def EndsInName (ts : List Token) : Prop :=
  ∃ before name, ts = before ++ [name] ∧ name.kind = .ident ∧
    ∀ t ∈ before.getLast?, t.kind ≠ .punct .dot

/-- An empty pair of parentheses in `ts` that stands behind no name is closed at `q`. -/
def EmptyGroup (ts : List Token) (q : Pos) : Prop :=
  ∃ before, ¬EndsInName before ∧ EmptyPair ts before q

variable {ts before : List Token} {t : Token} {P Q : Pos → Prop}

theorem not_endsInName_of_kind (ht : t.kind ≠ .ident) : ¬EndsInName (before ++ [t]) := by
  rintro ⟨before', name, h, hname, -⟩
  obtain ⟨-, h⟩ := List.append_inj' h rfl
  cases h
  exact ht hname

theorem not_endsInName_of_member {dot : Token} (hdot : dot.kind = .punct .dot) :
    ¬EndsInName (before ++ [dot, t]) := by
  rintro ⟨before', name, h, -, hmember⟩
  rw [List.append_cons] at h
  obtain ⟨h, -⟩ := List.append_inj' h rfl
  exact hmember dot (by simp [← h]) hdot

/-! ## Trees -/

namespace Expr

/-- The operands of an operation and the items of a list. -/
def members (e : Expr) : List Expr :=
  match e.kind with
  | .operation _ => e.args
  | .list => e.items
  | _ => []

/-- Operands of operations and items of lists are missing only where `P` says. -/
def Filled (P : Pos → Prop) (e : Expr) : Prop :=
  ∀ n ∈ e.nodes, ∀ m ∈ n.members, m.isNone → P m.pos

/-- What may be an operand or an item: if the expression is missing itself, that is where `P`
says. -/
structure Fits (P : Pos → Prop) (e : Expr) : Prop where
  none : e.isNone → P e.pos
  filled : e.Filled P

variable {e l r : Expr} {es : List Expr}

theorem Filled.mono (h : e.Filled P) (hPQ : ∀ q, P q → Q q) : e.Filled Q :=
  fun n hn m hm hnone => hPQ _ (h n hn m hm hnone)

theorem filled_leaf (kind : ExprKind) (value : Value) (pos : Pos) :
    ({ kind, value, pos } : Expr).Filled P := by
  refine forall_nodes_leaf kind value pos fun m hm => ?_
  unfold members at hm
  split at hm <;> cases hm

theorem Filled.fits (h : e.Filled P) (he : e.kind ≠ .none) : e.Fits P :=
  ⟨fun hnone => absurd (of_decide_eq_true hnone) he, h⟩

theorem fits_leaf (kind : ExprKind) (value : Value) (pos : Pos) (h : kind ≠ .none) :
    ({ kind, value, pos } : Expr).Fits P := (filled_leaf kind value pos).fits h

/-- The argument of a call and the index of an element may be missing. -/
theorem fits_access {kind : ExprKind} {value : Value} {pos : Pos}
    (hkind : kind = .call ∨ kind = .arrayAcc ∨ kind = .structAcc) (he : e.Filled P) :
    ({ kind, value, args := [e], pos } : Expr).Fits P := by
  refine Filled.fits (forall_nodes_access ?_ he) ?_ <;>
    rcases hkind with rfl | rfl | rfl <;> simp [members]

theorem fits_operation (o : Operator) (pos : Pos) (hl : l.Fits P) (hr : r.Fits P) :
    (operation o l r pos).Fits P := by
  refine Filled.fits (forall_nodes_operation ?_ hl.filled hr.filled) (by simp [operation])
  exact List.forall_mem_cons.2 ⟨hl.none, List.forall_mem_singleton.2 hr.none⟩

theorem fits_list (pos : Pos) (h : ∀ e ∈ es, e.Fits P) :
    ({ kind := .list, items := es, pos } : Expr).Fits P := by
  refine Filled.fits ?_ (by simp)
  exact forall_nodes (fun e he => (h e he).none) (fun _ ha => absurd ha List.not_mem_nil)
    fun e he => (h e he).filled

end Expr

/-! ## Piles -/

namespace Operand

/-- What the operand holds may be an operand of an operator. -/
def Fits (P : Pos → Prop) : Operand → Prop
  | plain e => e.Fits P
  | pending p => p.value.Fits P

/-- The operand may stand where an expression is expected. -/
def Filled (P : Pos → Prop) : Operand → Prop
  | plain e => e.Filled P
  | pending p => p.value.Fits P

theorem fits_plain {e : Expr} (h : e.Fits P) : (plain e).Fits P := h

theorem Fits.filled {o : Operand} (h : o.Fits P) : o.Filled P := by
  cases o with
  | plain e => exact Expr.Fits.filled h
  | pending p => exact h

end Operand

theorem Work.fits_of_reduceQuietly {ops : List Token} {os os' : List Operand}
    (h : ∀ o ∈ os, o.Fits P) (hreduce : reduceQuietly ops os = some os') : ∀ o ∈ os', o.Fits P := by
  induction ops generalizing os with
  | nil =>
    cases hreduce
    exact h
  | cons op ops ih =>
    obtain ⟨operator, -, hreduce⟩ := Option.bind_eq_some_iff.1 hreduce
    split at hreduce
    · next hquiet =>
      refine ih ?_ hreduce
      obtain ⟨r, os', rfl, ⟨-, happly⟩ | ⟨-, l, os'', rfl, happly⟩⟩ := operands_of_quiet hquiet
      · obtain ⟨hr, h⟩ := List.forall_mem_cons.1 h
        rw [happly]
        exact List.forall_mem_cons.2 ⟨hr, h⟩
      · obtain ⟨hr, h⟩ := List.forall_mem_cons.1 h
        obtain ⟨hl, h⟩ := List.forall_mem_cons.1 h
        rw [happly]
        exact List.forall_mem_cons.2 ⟨Expr.fits_operation operator op.pos hl hr, h⟩
    · cases hreduce

namespace ExprState

/-- The operands and the items may be operands and items. -/
structure Fits (P : Pos → Prop) (st : ExprState) : Prop where
  operands : ∀ o ∈ st.work.operands, o.Fits P
  items : ∀ e ∈ st.items.getD [], e.Fits P

variable {st st' : ExprState} {o : Operand} {pos : Pos}

theorem fits_empty : Fits P {} :=
  ⟨fun _ h => absurd h List.not_mem_nil, fun _ h => absurd h List.not_mem_nil⟩

theorem Fits.push (h : st.Fits P) (ho : o.Fits P) : (st.push o).Fits P :=
  ⟨List.forall_mem_cons.2 ⟨ho, h.operands⟩, h.items⟩

theorem Fits.item (h : st.Fits P) (hitem : st.item = some st') : st'.Fits P := by
  obtain ⟨e, hreduce, rfl⟩ := reduced_of_item hitem
  have he := Work.fits_of_reduceQuietly h.operands hreduce _ List.mem_cons_self
  refine ⟨fun _ ho => absurd ho List.not_mem_nil, fun e' he' => ?_⟩
  rcases List.mem_append.1 he' with he' | he'
  · exact h.items e' he'
  · exact List.mem_singleton.1 he' ▸ he

/-- The result may be an operand, unless there was nothing at all. -/
theorem Fits.result (h : st.Fits P) (hresult : st.result pos = some o) :
    o.Fits P ∨ o = .plain (.none pos) ∧ st.items = none ∧ st.work = {} := by
  have hfits (os : List Operand)
      (hreduce : Work.reduceQuietly st.work.operators st.work.operands = some os) :
      ∀ o ∈ os, o.Fits P := Work.fits_of_reduceQuietly h.operands hreduce
  have hitems := h.items
  unfold ExprState.result at hresult
  split at hresult
  · next hnone hreduce =>
    cases hresult
    exact .inr ⟨rfl, hnone, Work.eq_nil_of_reduceQuietly hreduce⟩
  · next hreduce =>
    cases hresult
    exact .inl (hfits _ hreduce _ List.mem_cons_self)
  · next items hsome hreduce =>
    cases hresult
    rw [hsome] at hitems
    exact .inl (Expr.fits_list pos hitems)
  · next items e hsome hreduce =>
    cases hresult
    rw [hsome] at hitems
    have hlist : ∀ e' ∈ items ++ [e], e'.Fits P := by
      refine List.forall_mem_append.2 ⟨hitems, List.forall_mem_singleton.2 ?_⟩
      exact hfits _ hreduce _ List.mem_cons_self
    exact .inl (Expr.fits_list pos hlist)
  · cases hresult

end ExprState

/-! ## Phrases -/

theorem LiteralToken.fits (t : LiteralToken) : t.tree.Fits P := by
  rcases Token.literal?_cases t.tree_eq with
    ⟨-, h⟩ | ⟨-, h⟩ | ⟨-, h⟩ | ⟨-, h⟩ | ⟨-, h⟩ <;>
    exact h ▸ Expr.fits_leaf _ _ _ (by simp)

theorem LiteralToken.ne_ident (t : LiteralToken) : t.kind ≠ .ident := by
  rcases t.kind_cases with hk | hk | hk | hk | hk <;> simp [hk]

/-- An empty pair of parentheses behind the tokens `before` is closed where `P` says. -/
def Opens (ts : List Token) (P : Pos → Prop) (before : List Token) : Prop :=
  ∀ q, EmptyPair ts before q → P q

namespace Phrase

variable {ph : Phrase} {st st' : ExprState} {o : Operand} {after : List Token}

/-- What brackets hold may be an operand, unless they hold nothing. -/
theorem fits_of_outcome {closing : Token} (h : ∀ st, ph.run {} = some st → st.Fits P)
    (hout : ph.outcome closing = some o) :
    o.Fits P ∨ o = .plain (.none closing.pos) ∧ ph = nil := by
  obtain ⟨st, hrun, hresult⟩ := Option.bind_eq_some_iff.1 hout
  rcases (h st hrun).result hresult with hfits | ⟨ho, hitems, hwork⟩
  · exact .inl hfits
  · obtain rfl := eq_nil_of_run hrun hitems hwork
    exact .inr ⟨ho, rfl⟩

/-- What brackets hold may stand where an expression is expected. -/
theorem filled_of_outcome {closing : Token} (h : ∀ st, ph.run {} = some st → st.Fits P)
    (hout : ph.outcome closing = some o) : o.Filled P := by
  rcases fits_of_outcome h hout with hfits | ⟨rfl, -⟩
  · exact hfits.filled
  · exact Expr.filled_leaf .none .absent closing.pos

/-- **Every missing operand or item is an empty group.** Behind the tokens `before`, whatever a
phrase puts on the piles may be an operand, if it puts nothing missing there but empty groups. -/
theorem fits_of_run (hP : ∀ q, EmptyGroup ts q → P q) (hapart : ph.Apart)
    (hts : ts = before ++ ph.tokens ++ after) (hopens : ph.OpensGroup → Opens ts P before)
    (hst : st.Fits P) (hrun : ph.run st = some st') : st'.Fits P := by
  have behind {before : List Token} {t : Token} (ht : t.kind ≠ .ident) :
      Opens ts P (before ++ [t]) :=
    fun q hq => hP q ⟨_, not_endsInName_of_kind ht, hq⟩
  induction ph generalizing before after st st' with
  | nil =>
    cases hrun
    exact hst
  | literal t ph ih =>
    have hrest : ts = before ++ [t.toToken] ++ ph.tokens ++ after := by simpa [tokens] using hts
    exact ih hapart hrest (fun _ => behind t.ne_ident) (hst.push (Operand.fits_plain t.fits)) hrun
  | operator t ph ih =>
    have hrest : ts = before ++ [t.toToken] ++ ph.tokens ++ after := by simpa [tokens] using hts
    have hpushed : (st.pushOperator t.toToken).Fits P := ⟨hst.operands, hst.items⟩
    exact ih hapart hrest (fun _ => behind (by simp [t.kind_eq])) hpushed hrun
  | comma t ph ih =>
    have hrest : ts = before ++ [t.toToken] ++ ph.tokens ++ after := by simpa [tokens] using hts
    obtain ⟨st₁, hitem, hrun⟩ := Option.bind_eq_some_iff.1 hrun
    exact ih hapart hrest (fun _ => behind (by simp)) (hst.item hitem) hrun
  | name t ph ih =>
    have hrest : ts = before ++ [t.toToken] ++ ph.tokens ++ after := by simpa [tokens] using hts
    exact ih hapart.2 hrest (fun hgroup => absurd hgroup hapart.1)
      (hst.push (Operand.fits_plain (Expr.fits_leaf .identifier _ _ (by simp)))) hrun
  | member s dot m ph ih =>
    have hrest : ts = before ++ [s.toToken] ++ [dot.toToken, m.toToken] ++ ph.tokens ++ after := by
      simpa [tokens] using hts
    refine ih hapart hrest (fun _ q hq => ?_) (hst.push ?_) hrun
    · exact hP q ⟨_, not_endsInName_of_member dot.kind_eq, hq⟩
    · exact Expr.fits_access (.inr (.inr rfl)) (Expr.filled_leaf _ _ _)
  | argument f b opening inside closing ph ihinside ih =>
    have hin : ts = before ++ [f.toToken] ++ [opening.toToken] ++ inside.tokens ++
        closing.toToken :: (ph.tokens ++ after) := by simpa [tokens] using hts
    have hrest : ts = (before ++ f.toToken :: opening.toToken :: inside.tokens) ++
        [closing.toToken] ++ ph.tokens ++ after := by simpa [tokens] using hts
    rw [run_argument] at hrun
    obtain ⟨e, harg, hrun⟩ := Option.bind_eq_some_iff.1 hrun
    obtain ⟨o, hout, ho⟩ := Option.bind_eq_some_iff.1 harg
    have hinside : o.Filled P := by
      refine filled_of_outcome (fun st hrun => ?_) hout
      exact ihinside hapart.1 hin (fun _ => behind (by simp)) ExprState.fits_empty hrun
    have hfits : (Parser.accessExpr b.kind (.ofPayload f.value) e f.pos).Fits P := by
      cases o with
      | plain arg =>
        cases ho
        exact Expr.fits_access (by cases b <;> simp [Bracket.kind]) hinside
      | pending p => cases ho
    exact ih hapart.2 hrest (fun _ => behind (by simp)) (hst.push (Operand.fits_plain hfits)) hrun
  | group opening inside closing ph ihinside ih =>
    have hin : ts = before ++ [opening.toToken] ++ inside.tokens ++
        closing.toToken :: (ph.tokens ++ after) := by simpa [tokens] using hts
    have hrest : ts = (before ++ opening.toToken :: inside.tokens) ++ [closing.toToken] ++
        ph.tokens ++ after := by simpa [tokens] using hts
    rw [run_group] at hrun
    obtain ⟨o, hout, hrun⟩ := Option.bind_eq_some_iff.1 hrun
    have hinside (st : ExprState) (hrun : inside.run {} = some st) : st.Fits P :=
      ihinside hapart.1 hin (fun _ => behind (by simp)) ExprState.fits_empty hrun
    have hfits : o.Fits P := by
      rcases fits_of_outcome hinside hout with hfits | ⟨rfl, rfl⟩
      · exact hfits
      · -- an empty group is missing just where its parentheses say
        refine ⟨fun _ => hopens trivial _ ?_, Expr.filled_leaf .none .absent closing.pos⟩
        exact ⟨opening.toToken, closing.toToken, ph.tokens ++ after, by simpa [tokens] using hts,
          opening.kind_eq, closing.kind_eq, rfl⟩
    exact ih hapart.2 hrest (fun _ => behind (by simp)) (hst.push hfits) hrun

end Phrase

end ToyLang
