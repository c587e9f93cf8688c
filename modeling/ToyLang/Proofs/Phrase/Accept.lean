import ToyLang.Proofs.Phrase.Basic

/-!
# What an expression accepts

An expression accepts just the phrases that come to a result, with that result:

* `Phrase.accept_expression`: what becomes of the tokens of a phrase before a stop token, by
  induction on the phrase (`Phrase.accepts`); the bound is any that is no smaller than the phrase;
* `exists_phrase`: whatever is accepted is a phrase up to a stop token, by induction on the bound
  (`loop_explains`), each step putting one part before the rest (`explained_step`).
-/

set_option autoImplicit false

namespace ToyLang

open Builder ToyLang.Parser
open Grammar (Name Mark)

variable {mark t : Token} {n : Nat} {stop : TokenKind} {first : Token} {st st' : ExprState}
  {ts us rest : List Token} {cs cs' : List TypedName} {o : Operand}

/-! ## Steps -/

theorem exprStep_of_literal {nested : TokenKind → Builder Operand} {e : Expr}
    (h : t.literal? = some e) : exprStep nested t st = pure (st.push (.plain e)) := by
  rcases Token.literal?_cases h with ⟨hk, rfl⟩ | ⟨hk, rfl⟩ | ⟨hk, rfl⟩ | ⟨hk, rfl⟩ | ⟨hk, rfl⟩ <;>
    simp only [exprStep, hk]

theorem LiteralToken.not_isStop (t : LiteralToken) : ¬IsStop t.kind ∧ t.kind ≠ .eof := by
  rcases t.kind_cases with hk | hk | hk | hk | hk <;> simp [IsStop, hk]

theorem accept_listItem (s : List Token × List TypedName) :
    (listItem t st).accept mark s = st.item.map fun st => (st, s) := by
  obtain ⟨work, items⟩ := st
  unfold listItem ExprState.item
  dsimp only
  rw [accept_bind, Work.accept_reduce]
  rcases Work.reduceQuietly work.operators work.operands with
    _ | _ | ⟨_ | _, _ | ⟨_, _⟩⟩ <;> rfl

theorem accept_exprResult (s : List Token × List TypedName) :
    (exprResult first t st).accept mark s = (st.result first.pos).map fun o => (o, s) := by
  obtain ⟨work, _ | items⟩ := st
  · rw [accept_result_bare, Work.accept_reduce]
    unfold ExprState.result
    dsimp only
    rcases Work.reduceQuietly work.operators work.operands with
      _ | _ | ⟨_, _ | ⟨_, _⟩⟩ <;> rfl
  · rw [accept_result_list, Work.accept_reduce]
    unfold ExprState.result
    dsimp only
    rcases Work.reduceQuietly work.operators work.operands with
      _ | _ | ⟨_ | _, _ | ⟨_, _⟩⟩ <;> rfl

theorem accept_settle (s : List Token × List TypedName) :
    o.settle.accept mark s = o.plain?.map fun e => (e, s) := by
  cases o <;> rfl

theorem Bracket.isStop_closing (b : Bracket) : IsStop (.punct b.closing) := by
  cases b <;> simp [IsStop, Bracket.closing]

/-- A name with brackets behind it is read with the expression that they hold. -/
theorem accept_suffix_bracket {nested : TokenKind → Builder Operand} {name : Token} {b : Bracket}
    (ht : t.kind = .punct b.opening) :
    (identifierSuffix nested name).accept mark (t :: ts, cs) =
      ((nested (.punct b.closing)).accept mark (ts, cs)).bind fun r =>
        r.1.plain?.map fun e => (accessExpr b.kind (.ofPayload name.value) e name.pos, r.2) := by
  have hread : (identifierSuffix nested name).accept mark (t :: ts, cs) =
      (nested (.punct b.closing) >>= fun o => o.settle >>= fun e =>
        pure (accessExpr b.kind (.ofPayload name.value) e name.pos)).accept mark (ts, cs) := by
    unfold identifierSuffix
    dsimp only
    rw [accept_read_bind]
    cases b <;> simp only [ht, Bracket.opening] <;> rfl
  rw [hread, accept_bind]
  refine congrArg _ (funext fun r => ?_)
  rw [accept_bind_pure, accept_settle, Option.map_map]
  rfl

theorem accept_suffix_inside {nested : TokenKind → Builder Operand} {name : Token} {b : Bracket}
    {r : Option Operand} (ht : t.kind = .punct b.opening)
    (hread : (nested (.punct b.closing)).accept mark (ts, cs) = r.map fun o => (o, rest, cs)) :
    (identifierSuffix nested name).accept mark (t :: ts, cs) =
      ((r.bind Operand.plain?).map fun e =>
        accessExpr b.kind (.ofPayload name.value) e name.pos).map fun e => (e, rest, cs) := by
  rw [accept_suffix_bracket ht, hread]
  cases r with
  | none => rfl
  | some o => cases o <;> rfl

/-! ## Phrases are accepted -/

namespace Phrase

/-- A token that ends an expression, or one that starts a phrase which does not open a group,
extends no name. -/
theorem follows {ph : Phrase} (hgroup : ¬ph.OpensGroup) (ht : IsStop t.kind) :
    Follows (ph.tokens ++ t :: rest) := by
  cases ph with
  | nil => exact ht.follows rest
  | literal u _ =>
    refine ⟨_, _, rfl, fun hmem => ?_⟩
    simp only [List.mem_cons, List.not_mem_nil, or_false] at hmem
    rcases u.kind_cases with hk | hk | hk | hk | hk <;> simp [hk] at hmem
  | operator u _ => exact follows_operator u.kind_eq
  | comma u _ => exact follows_comma u.kind_eq
  | name u _ | member u _ _ _ | argument u _ _ _ _ _ =>
    exact ⟨_, _, rfl, by simp⟩
  | group => exact absurd trivial hgroup

/-- Before any stop token the phrase is accepted where it comes to a result. -/
def Accepts (ph : Phrase) : Prop :=
  ∀ {n t first st mark rest cs}, IsStop t.kind → ph.tokens.length ≤ n →
    (resume (n + 1) t.kind first st).accept mark (ph.tokens ++ t :: rest, cs) =
      ((ph.run st).bind (ExprState.result first.pos)).map fun o => (o, rest, cs)

theorem Accepts.expression {ph : Phrase} (h : ph.Accepts) (ht : t.kind = stop)
    (hstop : IsStop stop) (hn : ph.tokens.length ≤ n) (mark : Token) (rest : List Token)
    (cs : List TypedName) :
    (expression (n + 1) stop).accept mark (ph.tokens ++ t :: rest, cs) =
      (ph.outcome t).map fun o => (o, rest, cs) := by
  subst ht
  obtain ⟨us, hus⟩ := ph.exists_first t rest
  rw [hus, accept_expression_cons, ← hus]
  exact h hstop hn

theorem accepts {ph : Phrase} (hapart : ph.Apart) : ph.Accepts := by
  induction ph with
  | nil =>
    intro n t first st mark rest cs ht hn
    rw [tokens, List.nil_append, accept_stop rfl ht, accept_exprResult]
    rfl
  | literal u ph ih =>
    intro n t first st mark rest cs ht hn
    obtain ⟨m, rfl, hm⟩ := bound_cons hn
    obtain ⟨hnot, heof⟩ := u.not_isStop
    rw [tokens, List.cons_append, accept_literal ht hnot heof (exprStep_of_literal u.tree_eq)]
    exact ih hapart ht hm
  | operator u ph ih =>
    intro n t first st mark rest cs ht hn
    obtain ⟨m, rfl, hm⟩ := bound_cons hn
    rw [tokens, List.cons_append, accept_operator u.kind_eq ht]
    exact ih hapart ht hm
  | comma u ph ih =>
    intro n t first st mark rest cs ht hn
    obtain ⟨m, rfl, hm⟩ := bound_cons hn
    have hstep : exprStep (expression (m + 1)) u.toToken st = listItem u.toToken st := by
      simp only [exprStep, u.kind_eq]
    rw [tokens, List.cons_append, accept_resume (ht.ne (by simp [IsStop])) (by simp),
      hstep, accept_listItem, run]
    cases st.item with
    | none => rfl
    | some st => exact ih hapart ht hm
  | name u ph ih =>
    intro n t first st mark rest cs ht hn
    obtain ⟨m, rfl, hm⟩ := bound_cons hn
    obtain ⟨hgroup, hapart⟩ := hapart
    rw [tokens, List.cons_append, accept_name (r := some _) u.kind_eq ht
      (accept_suffix_bare (follows hgroup ht))]
    exact ih hapart ht hm
  | member s dot u ph ih =>
    intro n t first st mark rest cs ht hn
    obtain ⟨m, rfl, hm⟩ := bound_cons hn
    rw [tokens, List.cons_append, List.cons_append, List.cons_append,
      accept_name (r := some _) s.kind_eq ht (accept_suffix_member dot.kind_eq u.kind_eq)]
    exact ih hapart ht (by simp only [List.length_cons] at hm; omega)
  | argument f b opening inside closing ph ihinside ih =>
    intro n t first st mark rest cs ht hn
    obtain ⟨m, rfl, hm⟩ := bound_cons hn
    simp only [List.length_cons, List.length_append] at hm
    have hinside : inside.tokens.length ≤ m := by omega
    have hread := Accepts.expression (ihinside hapart.1) closing.kind_eq b.isStop_closing hinside
      mark (ph.tokens ++ t :: rest) cs
    rw [tokens, List.cons_append, List.cons_append, List.append_assoc, List.cons_append,
      accept_name f.kind_eq ht (accept_suffix_inside opening.kind_eq hread), run_argument]
    cases (inside.outcome closing.toToken).bind Operand.plain? with
    | none => rfl
    | some e => exact ih hapart.2 ht (by omega)
  | group opening inside closing ph ihinside ih =>
    intro n t first st mark rest cs ht hn
    obtain ⟨m, rfl, hm⟩ := bound_cons hn
    simp only [List.length_cons, List.length_append] at hm
    have hinside : inside.tokens.length ≤ m := by omega
    have hread := Accepts.expression (ihinside hapart.1) closing.kind_eq isStop_rparen hinside
      mark (ph.tokens ++ t :: rest) cs
    rw [tokens, List.cons_append, List.append_assoc, List.cons_append,
      accept_group opening.kind_eq ht hread, run_group]
    cases inside.outcome closing.toToken with
    | none => rfl
    | some o => exact ih hapart.2 ht (by omega)

/-- **A phrase is accepted as an expression** up to any stop token, if it comes to a result. -/
theorem accept_expression {ph : Phrase} (hapart : ph.Apart) (ht : t.kind = stop)
    (hstop : IsStop stop) (hn : ph.tokens.length ≤ n) :
    (expression (n + 1) stop).accept mark (ph.tokens ++ t :: rest, cs) =
      (ph.outcome t).map fun o => (o, rest, cs) :=
  Accepts.expression (accepts hapart) ht hstop hn mark rest cs

end Phrase

/-! ## What is accepted is a phrase -/

/-- From the state `st` on, the tokens `ts` are a phrase that comes to `o`, a token of the kind
`stop` and `us`. -/
def Explained (stop : TokenKind) (first : Token) (st : ExprState) (ts : List Token) (o : Operand)
    (us : List Token) : Prop :=
  ∃ (ph : Phrase) (t : Token), ts = ph.tokens ++ t :: us ∧ t.kind = stop ∧ ph.Apart ∧
    (ph.run st).bind (ExprState.result first.pos) = some o

/-- With the bound `n`, every expression that is accepted is a phrase. -/
def Explains (n : Nat) : Prop :=
  ∀ {mark stop ts cs o us cs'}, mark.kind = .eof → IsStop stop →
    (expression n stop).accept mark (ts, cs) = some (o, us, cs') →
    cs' = cs ∧ ∃ (ph : Phrase) (t : Token), ts = ph.tokens ++ t :: us ∧ t.kind = stop ∧ ph.Apart ∧
      ph.outcome t = some o

/-- At the end mark an expression is unfinished. -/
theorem accept_unfinished (ht : t.kind = .eof) (hstop : IsStop stop) :
    (expressionLoop n stop first t st).accept mark (ts, cs) = none := by
  cases n with
  | zero => rfl
  | succ n =>
    rw [expressionLoop, if_pos (.inr ht), exprEnd_eq, if_pos ⟨ht, hstop.ne_eof⟩]
    rfl

theorem explained_literal {e : Expr} (ht : t.literal? = some e)
    (h : Explained stop first (st.push (.plain e)) ts o us) :
    Explained stop first st (t :: ts) o us := by
  obtain ⟨ph, u, rfl, hu, hapart, hrun⟩ := h
  exact ⟨.literal ⟨t, e, ht⟩ ph, u, rfl, hu, hapart, hrun⟩

/-- A member is accepted where a name stands. -/
theorem exists_member {e : Expr} (hmark : mark.kind = .eof)
    (hacc : member.accept mark (ts, cs) = some (e, us, cs')) :
    ∃ m, ts = m :: us ∧ m.kind = .ident ∧ e = .identifier (.ofPayload m.value) m.pos ∧
      cs' = cs := by
  cases ts with
  | nil =>
    rw [member, accept_read_end, if_neg (by simp [hmark])] at hacc
    cases hacc
  | cons m ts =>
    rw [member, accept_read_bind] at hacc
    split at hacc
    · next hm =>
      cases hacc
      exact ⟨m, rfl, hm, rfl, rfl⟩
    · cases hacc

section
variable {e : Expr} {u : Token} {ws : List Token} {cs₁ : List TypedName} (ht : t.kind = .ident)
  (h : Explained stop first (st.push (.plain e)) ws o us)
include ht h

/-- A name with brackets behind it is a call or an element. -/
theorem explained_argument (hn : Explains n) {b : Bracket} (hmark : mark.kind = .eof)
    (hu : u.kind = .punct b.opening)
    (hsuffix : (identifierSuffix (expression n) t).accept mark (u :: ts, cs) = some (e, ws, cs₁)) :
    cs₁ = cs ∧ Explained stop first st (t :: u :: ts) o us := by
  obtain ⟨ph, v, rfl, hv, hapart, hrun⟩ := h
  rw [accept_suffix_bracket hu] at hsuffix
  obtain ⟨⟨r, ws, cs₂⟩, hread, hresult⟩ := Option.bind_eq_some_iff.1 hsuffix
  obtain ⟨arg, harg, hresult⟩ := Option.map_eq_some_iff.1 hresult
  cases hresult
  obtain ⟨hcs, inside, w, rfl, hw, hinside, hout⟩ := hn hmark b.isStop_closing hread
  refine ⟨hcs, .argument ⟨t, ht⟩ b ⟨u, hu⟩ inside ⟨w, hw⟩ ph, v, ?_, hv, ⟨hinside, hapart⟩, ?_⟩
  · simp [Phrase.tokens]
  · rw [Phrase.run_argument, hout, Option.bind_some, harg]
    exact hrun

/-- A name with a dot behind it has a member. -/
theorem explained_member {nested : TokenKind → Builder Operand} (hmark : mark.kind = .eof)
    (hu : u.kind = .punct .dot)
    (hsuffix : (identifierSuffix nested t).accept mark (u :: ts, cs) = some (e, ws, cs₁)) :
    cs₁ = cs ∧ Explained stop first st (t :: u :: ts) o us := by
  obtain ⟨ph, v, rfl, hv, hapart, hrun⟩ := h
  unfold identifierSuffix at hsuffix
  dsimp only at hsuffix
  rw [accept_read_bind] at hsuffix
  simp only [hu] at hsuffix
  rw [accept_bind_pure] at hsuffix
  obtain ⟨⟨r, ws, cs₂⟩, hmember, hresult⟩ := Option.map_eq_some_iff.1 hsuffix
  cases hresult
  obtain ⟨m, rfl, hm, rfl, hcs⟩ := exists_member hmark hmember
  exact ⟨hcs, .member ⟨t, ht⟩ ⟨u, hu⟩ ⟨m, hm⟩ ph, v, rfl, hv, hapart, hrun⟩

/-- A name that nothing extends stands alone. -/
theorem explained_bare {nested : TokenKind → Builder Operand} (hu : Follows (u :: ts))
    (hsuffix : (identifierSuffix nested t).accept mark (u :: ts, cs) = some (e, ws, cs₁)) :
    cs₁ = cs ∧ Explained stop first st (t :: u :: ts) o us := by
  obtain ⟨ph, v, rfl, hv, hapart, hrun⟩ := h
  rw [accept_suffix_bare hu] at hsuffix
  simp only [Option.some.injEq, Prod.mk.injEq] at hsuffix
  obtain ⟨rfl, hts, rfl⟩ := hsuffix
  have hgroup : ¬ph.OpensGroup := by
    obtain ⟨w, ws, hws, hw⟩ := hu
    cases ph with
    | group opening inside closing ph =>
      obtain ⟨rfl, -⟩ := List.cons.inj (hws.symm.trans hts)
      simp at hw
    | _ => exact id
  exact ⟨rfl, .name ⟨t, ht⟩ ph, v, congrArg _ hts, hv, ⟨hgroup, hapart⟩, hrun⟩

/-- A name is read with the member, the argument or the index behind it. -/
theorem explained_name (hn : Explains n) (hmark : mark.kind = .eof) (hstop : IsStop stop)
    (hsuffix : (identifierSuffix (expression n) t).accept mark (ts, cs) = some (e, ws, cs₁)) :
    cs₁ = cs ∧ Explained stop first st (t :: ts) o us := by
  cases ts with
  | nil =>
    -- the end mark was met and put back, and behind it no stop token comes
    unfold identifierSuffix at hsuffix
    dsimp only at hsuffix
    rw [accept_read_end, hmark] at hsuffix
    cases hsuffix
    obtain ⟨ph, v, hws, rfl, -⟩ := h
    have hv : v ∈ [mark] := hws ▸ List.mem_append_right ph.tokens List.mem_cons_self
    rw [List.mem_singleton.1 hv, hmark] at hstop
    exact absurd rfl hstop.ne_eof
  | cons u ts =>
    by_cases hcall : u.kind = .punct .lparen
    · exact explained_argument ht h hn (b := .call) hmark hcall hsuffix
    by_cases hindex : u.kind = .punct .lbracket
    · exact explained_argument ht h hn (b := .element) hmark hindex hsuffix
    by_cases hdot : u.kind = .punct .dot
    · exact explained_member ht h hmark hdot hsuffix
    · exact explained_bare ht h ⟨u, ts, rfl, by simp [hcall, hindex, hdot]⟩ hsuffix

end

/-- A step puts one part of a phrase before the others. -/
theorem explained_step (hn : Explains n) (hmark : mark.kind = .eof) (hstop : IsStop stop)
    {ws : List Token} {cs₁ : List TypedName}
    (hstep : (exprStep (expression n) t st).accept mark (ts, cs) = some (st', ws, cs₁))
    (h : Explained stop first st' ws o us) : cs₁ = cs ∧ Explained stop first st (t :: ts) o us := by
  have hliteral {e : Expr} (ht : t.literal? = some e) :
      cs₁ = cs ∧ Explained stop first st (t :: ts) o us := by
    rw [exprStep_of_literal ht] at hstep
    cases hstep
    exact ⟨rfl, explained_literal ht h⟩
  unfold exprStep at hstep
  split at hstep
  · next hk =>
    rw [accept_bind_pure] at hstep
    obtain ⟨⟨r, ws, cs₂⟩, hread, hresult⟩ := Option.map_eq_some_iff.1 hstep
    cases hresult
    obtain ⟨hcs, inside, w, rfl, hw, hinside, hout⟩ := hn hmark isStop_rparen hread
    obtain ⟨ph, v, rfl, hv, hapart, hrun⟩ := h
    refine ⟨hcs, .group ⟨t, hk⟩ inside ⟨w, hw⟩ ph, v, ?_, hv, ⟨hinside, hapart⟩, ?_⟩
    · simp [Phrase.tokens]
    · rw [Phrase.run_group, hout]
      exact hrun
  · next hk =>
    rw [accept_listItem] at hstep
    obtain ⟨st₁, hitem, hresult⟩ := Option.map_eq_some_iff.1 hstep
    cases hresult
    obtain ⟨ph, v, rfl, hv, hapart, hrun⟩ := h
    refine ⟨rfl, .comma ⟨t, hk⟩ ph, v, rfl, hv, hapart, ?_⟩
    rw [Phrase.run, hitem]
    exact hrun
  · next hk =>
    rw [accept_bind_pure] at hstep
    obtain ⟨⟨e, ws, cs₂⟩, hsuffix, hresult⟩ := Option.map_eq_some_iff.1 hstep
    cases hresult
    exact explained_name hk h hn hmark hstop hsuffix
  · next hk => exact hliteral (by rw [Token.literal?, hk])
  · next hk => exact hliteral (by rw [Token.literal?, hk])
  · next hk => exact hliteral (by rw [Token.literal?, hk])
  · next hk => exact hliteral (by rw [Token.literal?, hk])
  · next hk => exact hliteral (by rw [Token.literal?, hk])
  · next operator hk =>
    cases hstep
    obtain ⟨ph, v, rfl, hv, hapart, hrun⟩ := h
    exact ⟨rfl, .operator ⟨t, operator, hk⟩ ph, v, rfl, hv, hapart, hrun⟩
  · cases hstep

/-- With the bound `n`, whatever the loop accepts is explained by a phrase. -/
def LoopExplains (n : Nat) : Prop :=
  ∀ {mark stop first st ts cs o us cs'}, mark.kind = .eof → IsStop stop →
    (resume n stop first st).accept mark (ts, cs) = some (o, us, cs') →
    cs' = cs ∧ Explained stop first st ts o us

theorem LoopExplains.explains (h : LoopExplains n) : Explains n := by
  intro mark stop ts cs o us cs' hmark hstop hacc
  cases ts with
  | nil =>
    have hnone : (expression n stop).accept mark ([], cs) = none := accept_unfinished hmark hstop
    cases hnone.symm.trans hacc
  | cons first ts =>
    rw [accept_expression_cons] at hacc
    obtain ⟨hcs, ph, t, hts, ht, hapart, hrun⟩ := h hmark hstop hacc
    obtain ⟨vs, hvs⟩ := ph.exists_first t us
    obtain ⟨rfl, -⟩ := List.cons.inj (hts.trans hvs)
    exact ⟨hcs, ph, t, hts, ht, hapart, hrun⟩

theorem loop_explains (n : Nat) : LoopExplains n := by
  induction n with
  | zero =>
    intro mark stop first st ts cs o us cs' _ _ hacc
    cases ts <;> cases hacc
  | succ n ih =>
    intro mark stop first st ts cs o us cs' hmark hstop hacc
    cases ts with
    | nil => cases (accept_unfinished hmark hstop).symm.trans hacc
    | cons t ts =>
      by_cases heof : t.kind = .eof
      · cases (accept_unfinished heof hstop).symm.trans hacc
      by_cases ht : t.kind = stop
      · rw [accept_stop ht hstop, accept_exprResult] at hacc
        obtain ⟨r, hresult, hacc⟩ := Option.map_eq_some_iff.1 hacc
        cases hacc
        exact ⟨rfl, .nil, t, rfl, ht, trivial, hresult⟩
      · rw [accept_resume ht heof] at hacc
        obtain ⟨⟨st', ws, cs₁⟩, hstep, hrest⟩ := Option.bind_eq_some_iff.1 hacc
        obtain ⟨rfl, hexplained⟩ := ih hmark hstop hrest
        exact explained_step ih.explains hmark hstop hstep hexplained

/-- **Whatever is accepted as an expression is a phrase** up to a stop token, and comes to what the
phrase comes to. -/
theorem exists_phrase (hmark : mark.kind = .eof) (hstop : IsStop stop)
    (hacc : (expression n stop).accept mark (ts, cs) = some (o, us, cs')) :
    cs' = cs ∧ ∃ (ph : Phrase) (t : Token), ts = ph.tokens ++ t :: us ∧ t.kind = stop ∧ ph.Apart ∧
      ph.outcome t = some o :=
  LoopExplains.explains (loop_explains n) hmark hstop hacc

end ToyLang
