import ToyLang.Proofs.Roundtrip.Operand

/-!
# Expressions are read as foreseen

The parser accepts the tokens of a regular expression exactly where `Expr.reread` foresees it, and
builds what that foresees. An operation is read like an item of a list: it leaves piles that are
reduced to its `pieces` at the comma or at the end.

* `accept_expression`: expressions up to a stop token;
* `accept_assigned`: values behind an assignment.
-/

set_option autoImplicit false

namespace ToyLang.Parser

open Builder

variable {mark t : Token} {n : Nat} {stop : TokenKind} {first : Token} {st : ExprState}
  {ts rest : List Token}
  {cs : List TypedName} {e : Expr} {definite : Prop}

/-! ## Items -/

/-- The operands that an expression leaves on the pile when it is reduced: none where it is
absent. -/
def pieces (e : Expr) : Option (List Operand) :=
  if e.isNone then some [] else e.reread.map fun e' => [.plain e']

/-- The state with some more operands. -/
def pushAll (st : ExprState) (os : List Operand) : ExprState :=
  { st with work := { st.work with operands := os ++ st.work.operands } }

theorem operandTokens_ne_nil (h : e.Regular definite) (hnone : e.isNone = false) :
    Expr.operandTokens e.kind e.tokens ≠ [] := by
  cases h with
  | none pos => cases hnone
  | _ => simp [Expr.operandTokens, Expr.tokens, inParentheses, ExprKind.isCompound,
      Expr.identifier, Expr.operation, accessExpr]

/-- An operand, which may be absent, leaves its pieces. -/
theorem accept_operand (mark first : Token) (cs : List TypedName) (h : e.Regular False)
    (hs : e.isNone = false → Steps e)
    (hstop : IsStop stop) (hrest : Follows rest)
    (hn : (Expr.operandTokens e.kind e.tokens ++ rest).length ≤ n) :
    ∃ m, rest.length ≤ m ∧ ∀ st, (resume n stop first st).accept mark
        (Expr.operandTokens e.kind e.tokens ++ rest, cs) =
      (pieces e).bind fun os => (resume m stop first (pushAll st os)).accept mark (rest, cs) := by
  cases hnone : e.isNone with
  | true =>
    have htokens : Expr.operandTokens e.kind e.tokens = [] := by
      have hk : e.kind = .none := by simpa [Expr.isNone] using hnone
      rw [h.tokens_of_isNone hnone, hk]
      rfl
    rw [htokens, List.nil_append] at hn ⊢
    exact ⟨n, hn, fun st => by simp [pieces, hnone, pushAll]⟩
  | false =>
    obtain ⟨m, rfl⟩ : ∃ m, n = m + 1 := by
      obtain ⟨t, us, rfl, -⟩ := hrest
      rw [List.length_append, List.length_cons] at hn
      exact ⟨n - 1, by omega⟩
    have hpos := List.length_pos_iff.2 (operandTokens_ne_nil h hnone)
    rw [List.length_append] at hn
    refine ⟨m, by omega, fun st => ?_⟩
    rw [hs hnone mark m stop first st rest cs hstop hrest (by rw [List.length_append]; omega)]
    cases hread : e.reread <;> simp [pieces, hnone, hread, pushAll, ExprState.push]

/-- Two operands are there, or the operator reports that one is missing. -/
theorem accept_reduce_operation (o : Operator) (ho : o ≠ .assign) (l r : Expr) (pos : Pos)
    (s : List Token × List TypedName) :
    ((pieces l).bind fun ls => (pieces r).bind fun rs =>
        (Work.mk (rs ++ ls) [.ofOperator o]).reduce.accept mark s) =
      (pieces (.operation o l r pos)).map fun os => (os, s) := by
  have hpieces : pieces (.operation o l r pos) =
      (Expr.operation o l r pos).reread.map fun e' => [.plain e'] := rfl
  rw [hpieces, Expr.reread_operation]
  simp only [Work.accept_reduce, pieces]
  cases l.isNone <;> cases r.isNone <;> cases l.reread <;> cases r.reread <;>
    simp [Work.reduceQuietly, Token.ofOperator, TokenKind.operator?, Work.apply, ho, Work.take,
      Operand.settled]

/-- The state of an item whose piles stand over the operators `ops`. -/
def itemState (ops : List Token) (items : Option (List Expr)) (work : Work) : ExprState :=
  { work := ⟨work.operands, work.operators ++ ops⟩, items }

/-- What becomes of an item over some operators: the piles it leaves are, without these operators,
reduced to its pieces. -/
theorem accept_itemOver (mark first : Token) (cs : List TypedName) (ops : List Token)
    (h : e.Regular False)
    (hs : (∀ o, e.kind ≠ .operation o) → e.isNone = false → Steps e)
    (hsides : ∀ o, e.kind = .operation o → ∀ d ∈ e.args, d.isNone = false → Steps d)
    (hstop : IsStop stop) (hrest : Follows rest) (items : Option (List Expr))
    (hn : (Expr.itemTokens e.kind e.tokens ++ rest).length ≤ n) :
    ∃ m, ∃ w : Option Work, rest.length ≤ m ∧
      (resume n stop first (itemState ops items {})).accept mark
          (Expr.itemTokens e.kind e.tokens ++ rest, cs) =
        (w.bind fun work =>
          (resume m stop first (itemState ops items work)).accept mark (rest, cs)) ∧
      ∀ s, (w.bind fun work => work.reduce.accept mark s) = (pieces e).map fun os => (os, s) := by
  by_cases hk : ∃ o, e.kind = .operation o
  · obtain ⟨o, hk⟩ := hk
    cases h with
    | operation o' l r pos ho hl hr _ =>
      cases hk
      have htokens : Expr.itemTokens (Expr.operation o l r pos).kind
          (Expr.operation o l r pos).tokens ++ rest = Expr.operandTokens l.kind l.tokens ++
            (.ofOperator o :: (Expr.operandTokens r.kind r.tokens ++ rest)) := by
        rw [← List.cons_append, ← List.append_assoc]
        rfl
      rw [htokens] at hn ⊢
      have hsides := hsides o rfl
      -- the left operand, the operator, the right operand
      obtain ⟨m, hm, hleft⟩ := accept_operand mark first cs hl
        (hsides l (by simp [Expr.operation])) hstop (follows_operator rfl) hn
      obtain ⟨m, rfl, hlen⟩ := bound_cons hm
      obtain ⟨m', hm', hright⟩ := accept_operand mark first cs hr
        (hsides r (by simp [Expr.operation])) hstop hrest hlen
      refine ⟨m', (pieces l).bind fun ls => (pieces r).bind fun rs =>
        some ⟨rs ++ ls, [.ofOperator o]⟩, hm', ?_, fun s => ?_⟩
      · rw [hleft, Option.bind_assoc]
        refine congrArg _ (funext fun ls => ?_)
        rw [accept_operator rfl hstop, hright, Option.bind_assoc]
        refine congrArg _ (funext fun rs => ?_)
        simp [pushAll, ExprState.pushOperator, itemState]
      · rw [← accept_reduce_operation o ho l r pos s]
        cases pieces l <;> cases pieces r <;> rfl
    | _ => cases hk
  · have hk : ∀ o, e.kind ≠ .operation o := fun o ho => hk ⟨o, ho⟩
    have htokens : Expr.itemTokens e.kind e.tokens = Expr.operandTokens e.kind e.tokens := by
      cases h with
      | operation o => exact absurd rfl (hk o)
      | _ => rfl
    rw [htokens] at hn ⊢
    obtain ⟨m, hm, heq⟩ := accept_operand mark first cs h (hs hk) hstop hrest hn
    refine ⟨m, (pieces e).map fun os => ⟨os, []⟩, hm, ?_, fun s => ?_⟩
    · rw [heq]
      cases pieces e <;> simp [pushAll, itemState]
    · cases pieces e with
      | none => rfl
      | some os =>
        show (Work.mk os []).reduce.accept mark s = _
        rw [Work.accept_reduce]
        rfl

/-- What becomes of an item: the piles it leaves are reduced to its pieces. -/
theorem accept_item (mark first : Token) (cs : List TypedName) (h : e.Regular False)
    (hs : (∀ o, e.kind ≠ .operation o) → e.isNone = false → Steps e)
    (hsides : ∀ o, e.kind = .operation o → ∀ d ∈ e.args, d.isNone = false → Steps d)
    (hstop : IsStop stop) (hrest : Follows rest) (items : Option (List Expr))
    (hn : (Expr.itemTokens e.kind e.tokens ++ rest).length ≤ n) :
    ∃ m, ∃ w : Option Work, rest.length ≤ m ∧
      (resume n stop first { items }).accept mark
          (Expr.itemTokens e.kind e.tokens ++ rest, cs) =
        (w.bind fun work => (resume m stop first { work, items }).accept mark (rest, cs)) ∧
      ∀ s, (w.bind fun work => work.reduce.accept mark s) = (pieces e).map fun os => (os, s) := by
  have := accept_itemOver mark first cs [] h hs hsides hstop hrest items hn
  simpa only [itemState, List.append_nil] using this

/-! ## Expressions -/

theorem pieces_eq (hnone : e.isNone = false) :
    pieces e = e.reread.map fun e' => [.plain e'] := by
  rw [pieces, hnone]
  rfl

/-- A single item is read as an expression. -/
theorem accept_single (mark : Token) (rest : List Token) (cs : List TypedName)
    (h : e.Regular False)
    (hs : (∀ o, e.kind ≠ .operation o) → e.isNone = false → Steps e)
    (hsides : ∀ o, e.kind = .operation o → ∀ d ∈ e.args, d.isNone = false → Steps d)
    (ht : t.kind = stop) (hpos : t.pos = ⟨0, 0⟩) (hstop : IsStop stop)
    (hn : (Expr.itemTokens e.kind e.tokens ++ t :: rest).length ≤ n) :
    (expression n stop).accept mark (Expr.itemTokens e.kind e.tokens ++ t :: rest, cs) =
      e.reread.map fun e' => (.plain e', rest, cs) := by
  obtain ⟨u, us, hu, hfirst⟩ : ∃ u us, Expr.itemTokens e.kind e.tokens ++ t :: rest = u :: us ∧
      (e.isNone = true → u.pos = ⟨0, 0⟩) := by
    cases hnone : e.isNone with
    | true =>
      have hk : e.kind = .none := by simpa [Expr.isNone] using hnone
      exact ⟨t, rest, by rw [h.tokens_of_isNone hnone, hk]; rfl, fun _ => hpos⟩
    | false =>
      cases htok : Expr.itemTokens e.kind e.tokens with
      | nil => exact ⟨t, rest, rfl, fun h => by cases h⟩
      | cons u us => exact ⟨u, _, rfl, fun h => by cases h⟩
  obtain ⟨m, w, hm, heq, hw⟩ := accept_item mark u cs h hs hsides hstop
    (IsStop.follows (ht ▸ hstop) rest) none hn
  obtain ⟨m, rfl, hlen⟩ := bound_cons hm
  rw [hu] at heq
  rw [hu, accept_expression_cons, heq]
  simp only [accept_stop ht hstop, accept_result_bare]
  rw [← Option.bind_assoc, hw]
  cases hnone : e.isNone with
  | true =>
    have hk : e.kind = .none := by simpa [Expr.isNone] using hnone
    have hread : e.reread = some .none := by
      cases h with
      | none pos => rfl
      | _ => cases hk
    rw [hread, pieces, hnone]
    simp [hfirst hnone]
  | false =>
    rw [pieces_eq hnone]
    cases e.reread <;> rfl

/-- The items behind a comma. -/
theorem accept_items (mark first : Token) (cs : List TypedName) (items : List Expr)
    {es : List Expr} (hes : es ≠ []) (h : ∀ e ∈ es, e.Regular False)
    (hs : ∀ e ∈ es, e.isNone = false → Steps e)
    (hsides : ∀ e ∈ es, ∀ o, e.kind = .operation o → ∀ d ∈ e.args, d.isNone = false → Steps d)
    (ht : t.kind = stop) (hstop : IsStop stop)
    (hn : (Expr.tokensItems es ++ t :: rest).length ≤ n) :
    (resume n stop first { items := some items }).accept mark
        (Expr.tokensItems es ++ t :: rest, cs) =
      (Expr.rereadItems es).map fun es' =>
        (.plain { kind := .list, items := items ++ es', pos := first.pos }, rest, cs) := by
  induction es generalizing items n with
  | nil => exact absurd rfl hes
  | cons e es ih =>
    have he := h e List.mem_cons_self
    have hes' := hs e List.mem_cons_self
    have hed := hsides e List.mem_cons_self
    cases es with
    | nil =>
      obtain ⟨m, w, hm, heq, hw⟩ := accept_item mark first cs he (fun _ => hes') hed hstop
        (IsStop.follows (ht ▸ hstop) rest) (some items) hn
      obtain ⟨m, rfl, hlen⟩ := bound_cons hm
      refine heq.trans ?_
      simp only [accept_stop ht hstop, accept_result_list]
      rw [← Option.bind_assoc, hw, pieces, Expr.rereadItems]
      cases e.isNone <;> cases e.reread <;> simp
    | cons e' es =>
      have htokens : Expr.tokensItems (e :: e' :: es) ++ t :: rest =
          Expr.itemTokens e.kind e.tokens ++
            (.ofPunct .comma :: (Expr.tokensItems (e' :: es) ++ t :: rest)) := by
        rw [← List.cons_append, ← List.append_assoc]
        rfl
      rw [htokens] at hn ⊢
      obtain ⟨m, w, hm, heq, hw⟩ := accept_item mark first cs he (fun _ => hes') hed hstop
        (follows_comma rfl) (some items) hn
      obtain ⟨m, rfl, hlen⟩ := bound_cons hm
      have ih (items : List Expr) := ih (n := m) items (by simp)
        (fun d hd => h d (List.mem_cons_of_mem e hd)) (fun d hd => hs d (List.mem_cons_of_mem e hd))
        (fun d hd => hsides d (List.mem_cons_of_mem e hd)) hlen
      refine heq.trans ?_
      simp only [accept_comma (t := .ofPunct .comma) rfl hstop]
      rw [← Option.bind_assoc, hw, pieces, Expr.rereadItems_cons_cons]
      cases e.isNone <;> cases e.reread <;> simp [ih]
      cases Expr.rereadItems (e' :: es) <;> simp

/-- The tokens stand at no position. -/
def Bare (ts : List Token) : Prop := ∀ t ∈ ts, t.pos = ⟨0, 0⟩

theorem Bare.append {us : List Token} (ht : Bare ts) (hu : Bare us) : Bare (ts ++ us) :=
  fun t h => (List.mem_append.1 h).elim (ht t) (hu t)

theorem Bare.cons (ht : t.pos = ⟨0, 0⟩) (hts : Bare ts) : Bare (t :: ts) :=
  List.forall_mem_cons.2 ⟨ht, hts⟩

theorem bare_nil : Bare [] := fun _ h => by cases h

theorem Bare.parentheses (h : Bare ts) : Bare (inParentheses ts) :=
  .cons rfl (h.append (.cons rfl bare_nil))

theorem bare_operand {kind : ExprKind} (h : Bare ts) : Bare (Expr.operandTokens kind ts) := by
  unfold Expr.operandTokens
  split
  · exact h.parentheses
  · exact h

theorem bare_items {es : List Expr} (h : ∀ e ∈ es, Bare e.tokens) : Bare (Expr.tokensItems es) := by
  have item {e : Expr} (he : Bare e.tokens) : Bare (Expr.itemTokens e.kind e.tokens) := by
    unfold Expr.itemTokens
    split
    · exact he.parentheses
    · exact he
  induction es with
  | nil => exact bare_nil
  | cons e es ih =>
    have he := item (h e List.mem_cons_self)
    cases es with
    | nil => exact he
    | cons e' es => exact he.append (.cons rfl (ih fun d hd => h d (List.mem_cons_of_mem e hd)))

theorem bare_tokens (h : e.Regular definite) : Bare e.tokens := by
  induction h with
  | none pos => exact bare_nil
  | int n pos h | string s pos h | char c pos h | bool b pos | identifier s pos h =>
    exact .cons rfl bare_nil
  | operation o l r pos ho _ _ _ ihl ihr =>
    exact (bare_operand ihl).append (.cons rfl (bare_operand ihr))
  | list items pos _ _ ih => exact bare_items ih
  | call s arg pos h _ ih => exact .cons rfl ih.parentheses
  | arrayAcc s arg pos h _ ih => exact .cons rfl (.cons rfl (ih.append (.cons rfl bare_nil)))
  | structAcc s m pos mpos h hm => exact .cons rfl (.cons rfl (.cons rfl bare_nil))

/-- What is no operation and no list reads if it steps. -/
theorem reads_of_steps (h : e.Regular False) (hk : e.kind.isCompound = false)
    (hs : e.isNone = false → Steps e) : Reads e := by
  intro mark t n stop rest cs ht hpos hstop hn
  have htokens : Expr.itemTokens e.kind e.tokens = e.tokens :=
    if_neg fun hlist => by rw [hlist] at hk; cases hk
  have := accept_single (n := n) mark rest cs h (fun _ => hs)
    (fun o ho => by rw [ho] at hk; cases hk) ht hpos hstop (by rwa [htokens])
  rwa [htokens] at this

/-- What is shown of an expression: it reads, it steps unless it is absent, and so do its two
operands if it is an operation. -/
structure Foreseen (e : Expr) : Prop where
  reads : Reads e
  steps : e.isNone = false → Steps e
  sides : ∀ o, e.kind = .operation o → ∀ d ∈ e.args, d.isNone = false → Steps d

theorem foreseen_atom (h : e.Regular False) (hk : e.kind.isCompound = false)
    (harg : e.kind ≠ .structAcc → ∀ arg ∈ e.args, Reads arg) : Foreseen e where
  reads := reads_of_steps h hk fun hnone => steps_atom h hnone hk harg
  steps hnone := steps_atom h hnone hk harg
  sides o ho := by
    rw [ho] at hk
    cases hk

theorem foreseen_operation {o : Operator} {l r : Expr} {pos : Pos}
    (h : (Expr.operation o l r pos).Regular False) (hl : Foreseen l) (hr : Foreseen r) :
    Foreseen (.operation o l r pos) := by
  have hsides : ∀ d ∈ (Expr.operation o l r pos).args, d.isNone = false → Steps d := by
    simpa [Expr.operation] using ⟨hl.steps, hr.steps⟩
  have hread : Reads (.operation o l r pos) := fun mark t n stop rest cs ht hpos hstop hn =>
    accept_single mark rest cs h (fun hk => absurd rfl (hk o)) (fun _ _ => hsides) ht hpos hstop hn
  exact ⟨hread, fun _ => steps_parentheses hread rfl, fun _ _ => hsides⟩

theorem reads_list {items : List Expr} (pos : Pos) (h : ∀ e ∈ items, e.Regular False)
    (hs : ∀ e ∈ items, Foreseen e) : Reads { kind := .list, items, pos } := by
  intro mark t n stop rest cs ht hpos hstop hn
  match items, hn with
  | [], hn =>
    have hnone := reads_of_steps (.none ⟨0, 0⟩) rfl (fun hnone => by cases hnone)
    exact hnone mark t n stop rest cs ht hpos hstop hn
  | [e], hn =>
    have he := hs e List.mem_cons_self
    exact accept_single mark rest cs (h e List.mem_cons_self) (fun _ => he.steps) he.sides ht hpos
      hstop hn
  | e :: e' :: es, hn =>
    have he := hs e List.mem_cons_self
    have hbare := bare_items fun d hd => bare_tokens (h d hd)
    have htokens : Expr.tokensItems (e :: e' :: es) ++ t :: rest =
        Expr.itemTokens e.kind e.tokens ++
          (.ofPunct .comma :: (Expr.tokensItems (e' :: es) ++ t :: rest)) := by
      rw [← List.cons_append, ← List.append_assoc]
      rfl
    obtain ⟨u, us, hu⟩ : ∃ u us, Expr.tokensItems (e :: e' :: es) = u :: us := by
      refine List.exists_cons_of_ne_nil fun hnil => ?_
      simp [Expr.tokensItems] at hnil
    have hfirst : u.pos = ⟨0, 0⟩ := hbare u (by rw [hu]; exact List.mem_cons_self)
    show (expression n stop).accept mark (Expr.tokensItems (e :: e' :: es) ++ t :: rest, cs) = _
    change (Expr.tokensItems (e :: e' :: es) ++ t :: rest).length ≤ n at hn
    have hloop : (expression n stop).accept mark
        (Expr.tokensItems (e :: e' :: es) ++ t :: rest, cs) =
          (resume n stop u {}).accept mark (Expr.tokensItems (e :: e' :: es) ++ t :: rest, cs) := by
      rw [hu]
      rfl
    rw [htokens] at hn
    obtain ⟨m, w, hm, heq, hw⟩ := accept_item mark u cs (h e List.mem_cons_self)
      (fun _ => he.steps) he.sides hstop (follows_comma rfl) none hn
    obtain ⟨m, rfl, hlen⟩ := bound_cons hm
    have hrest (items : List Expr) := accept_items (n := m) mark u cs items (by simp)
      (fun d hd => h d (List.mem_cons_of_mem e hd))
      (fun d hd => (hs d (List.mem_cons_of_mem e hd)).steps)
      (fun d hd => (hs d (List.mem_cons_of_mem e hd)).sides) ht hstop hlen
    rw [hloop, htokens, heq]
    simp only [accept_comma (t := .ofPunct .comma) rfl hstop]
    rw [← Option.bind_assoc, hw, pieces]
    rw [Expr.reread_list, Expr.rereadItems_cons_cons]
    cases e.isNone <;> cases e.reread <;> simp [hrest, hfirst]
    cases Expr.rereadItems (e' :: es) <;> simp

/-- **Regular expressions are accepted as foreseen.** -/
theorem foreseen (h : e.Regular False) : Foreseen e := by
  induction h with
  | none pos => exact foreseen_atom (.none pos) rfl fun _ _ h => by cases h
  | int n pos h => exact foreseen_atom (.int n pos h) rfl fun _ _ h => by cases h
  | string s pos h => exact foreseen_atom (.string s pos h) rfl fun _ _ h => by cases h
  | char c pos h => exact foreseen_atom (.char c pos h) rfl fun _ _ h => by cases h
  | bool b pos => exact foreseen_atom (.bool b pos) rfl fun _ _ h => by cases h
  | identifier s pos h => exact foreseen_atom (.identifier s pos h) rfl fun _ _ h => by cases h
  | structAcc s m pos mpos h hm =>
    exact foreseen_atom (.structAcc s m pos mpos h hm) rfl fun hk => absurd rfl hk
  | call s arg pos h harg ih =>
    refine foreseen_atom (.call s arg pos h harg) rfl fun _ d hd => ?_
    rw [List.mem_singleton.1 hd]
    exact ih.reads
  | arrayAcc s arg pos h harg ih =>
    refine foreseen_atom (.arrayAcc s arg pos h harg) rfl fun _ d hd => ?_
    rw [List.mem_singleton.1 hd]
    exact ih.reads
  | operation o l r pos ho hl hr _ ihl ihr =>
    exact foreseen_operation (.operation o l r pos ho hl hr False.elim) ihl ihr
  | list items pos h _ ih =>
    have hread := reads_list pos h ih
    exact ⟨hread, fun _ => steps_parentheses hread rfl, fun _ ho => by cases ho⟩

/-- The parser accepts the tokens of an expression up to the token `t` as foreseen. -/
theorem accept_expression (h : e.Regular False) (hstop : IsStop t.kind) (hpos : t.pos = ⟨0, 0⟩)
    (hn : (e.tokens ++ t :: rest).length ≤ n) :
    (expression n t.kind).accept mark (e.tokens ++ t :: rest, cs) =
      e.reread.map fun e' => (.plain e', rest, cs) :=
  (foreseen h).reads mark t n t.kind rest cs rfl hpos hstop hn

theorem accept_plainExpression (mark : Token) (cs : List TypedName) (h : e.Regular False)
    (hstop : IsStop t.kind) (hpos : t.pos = ⟨0, 0⟩) (hn : (e.tokens ++ t :: rest).length ≤ n) :
    (plainExpression n t.kind).accept mark (e.tokens ++ t :: rest, cs) =
      e.reread.map fun e' => (e', rest, cs) := by
  unfold plainExpression
  rw [accept_bind, accept_expression h hstop hpos hn]
  cases e.reread <;> rfl

/-- Parentheses around the whole of an expression. -/
theorem accept_grouped (h : e.Regular False) (hstop : IsStop t.kind)
    (hn : (inParentheses e.tokens ++ t :: rest).length ≤ n) :
    (expression n t.kind).accept mark (inParentheses e.tokens ++ t :: rest, cs) =
      e.reread.map fun e' => (.plain e', rest, cs) := by
  obtain ⟨n, rfl⟩ : ∃ m, n = m + 2 := ⟨n - 2, by simp [inParentheses] at hn; omega⟩
  have hloop : (expression (n + 2) t.kind).accept mark (inParentheses e.tokens ++ t :: rest, cs) =
      (resume (n + 2) t.kind (.ofPunct .lparen) {}).accept mark
        (inParentheses e.tokens ++ t :: rest, cs) := rfl
  rw [hloop, accept_parentheses (foreseen h).reads hstop hn, Option.map_eq_bind]
  refine congrArg _ (funext fun e' => ?_)
  rw [accept_stop rfl hstop]
  exact accept_result_bare _

/-! ## Assigned values -/

/-- The assignment takes the one operand that is there. -/
theorem accept_reduce_assign {w : Option Work} (s : List Token × List TypedName)
    (hw : ∀ s, (w.bind fun work => work.reduce.accept mark s) = (pieces e).map fun os => (os, s)) :
    (w.bind fun work => (Work.mk work.operands
        (work.operators ++ [Token.ofOperator .assign])).reduce.accept mark s) =
      if e.isNone then none
      else e.reread.map fun v => ([.pending ⟨v, .ofOperator .assign⟩], s) := by
  have hpieces : (w.bind fun work => Work.reduceQuietly work.operators work.operands) =
      pieces e := by
    have := hw s
    simp only [Work.accept_reduce] at this
    cases w with
    | none => cases hp : pieces e <;> simp_all
    | some work =>
      refine Option.map_injective (f := fun os => (os, s)) (fun a b h => congrArg Prod.fst h) ?_
      simpa using this
  have hassign : (w.bind fun work => (Work.reduceQuietly work.operators work.operands).bind
      (Work.reduceQuietly [.ofOperator .assign])) =
        (pieces e).bind (Work.reduceQuietly [.ofOperator .assign]) := by
    rw [← hpieces, Option.bind_assoc]
  simp only [Work.accept_reduce, Work.reduceQuietly_append]
  have hmap := congrArg (Option.map fun os => (os, s)) hassign
  rw [Option.map_bind] at hmap
  refine hmap.trans ?_
  rw [pieces]
  cases e.isNone <;> cases e.reread <;>
    simp [Work.reduceQuietly, Token.ofOperator, TokenKind.operator?, Work.apply, Work.take,
      Operand.settled]

/-- An item behind an assignment is what is assigned, if it is there. -/
theorem accept_assigned_item (mark : Token) (rest : List Token) (cs : List TypedName)
    (h : e.Regular False) (hstop : IsStop t.kind)
    (hn : (Token.ofOperator .assign :: (Expr.itemTokens e.kind e.tokens ++ t :: rest)).length ≤ n) :
    (expression n t.kind).accept mark
        (.ofOperator .assign :: (Expr.itemTokens e.kind e.tokens ++ t :: rest), cs) =
      if e.isNone then none
      else e.reread.map fun v => (.pending ⟨v, .ofOperator .assign⟩, rest, cs) := by
  obtain ⟨n, rfl, hlen⟩ := bound_cons hn
  have he := foreseen h
  obtain ⟨m, w, hm, heq, hw⟩ := accept_itemOver mark (.ofOperator .assign) cs
    [.ofOperator .assign] h (fun _ => he.steps) he.sides hstop (hstop.follows rest) none hlen
  obtain ⟨m, rfl, hlen⟩ := bound_cons hm
  rw [accept_expression_cons, accept_operator rfl hstop]
  refine heq.trans ?_
  simp only [itemState, accept_stop rfl hstop, accept_result_bare]
  rw [← Option.bind_assoc, accept_reduce_assign _ hw]
  cases e.isNone <;> cases e.reread <;> rfl

/-- **Assigned values are accepted as foreseen** behind the assignment. -/
theorem accept_assigned (h : e.Regular False) (hstop : IsStop t.kind)
    (hn : (Token.ofOperator .assign :: (e.tokens ++ t :: rest)).length ≤ n) :
    (expression n t.kind).accept mark (.ofOperator .assign :: (e.tokens ++ t :: rest), cs) =
      e.rereadAssigned.map fun v => (.pending ⟨v, .ofOperator .assign⟩, rest, cs) := by
  by_cases hlist : e.kind = .list
  · cases h with
    | list items pos hitems _ =>
      match items, hn with
      | [], hn => exact accept_assigned_item mark rest cs (.none ⟨0, 0⟩) hstop hn
      | [e], hn =>
        refine (accept_assigned_item mark rest cs (hitems e List.mem_cons_self) hstop hn).trans ?_
        show _ = Option.map _ (if e.isNone then none else e.reread)
        cases e.isNone <;> cases e.reread <;> rfl
      | e :: e' :: es, hn =>
        obtain ⟨n, rfl, hlen⟩ := bound_cons hn
        have he := foreseen (hitems e List.mem_cons_self)
        have htokens : (Expr.mk .list .absent [] (e :: e' :: es) pos).tokens ++ t :: rest =
            Expr.itemTokens e.kind e.tokens ++
              (.ofPunct .comma :: (Expr.tokensItems (e' :: es) ++ t :: rest)) := by
          rw [← List.cons_append, ← List.append_assoc]
          rfl
        rw [htokens] at hlen
        obtain ⟨m, w, hm, heq, hw⟩ := accept_itemOver mark (.ofOperator .assign) cs
          [.ofOperator .assign] (hitems e List.mem_cons_self) (fun _ => he.steps) he.sides hstop
          (follows_comma rfl) none hlen
        obtain ⟨m, rfl, -⟩ := bound_cons hm
        rw [htokens, accept_expression_cons, accept_operator rfl hstop]
        refine heq.trans ?_
        -- at the comma the assignment has its value, and no target
        simp only [itemState, accept_comma (t := .ofPunct .comma) rfl hstop]
        rw [← Option.bind_assoc, accept_reduce_assign _ hw]
        show _ = Option.map _ none
        cases e.isNone <;> cases e.reread <;> rfl
    | _ => cases hlist
  · have htokens : Expr.itemTokens e.kind e.tokens = e.tokens := if_neg hlist
    have := accept_assigned_item (n := n) mark rest cs h hstop (by rwa [htokens])
    rw [htokens] at this
    rw [this, Expr.rereadAssigned, if_neg hlist]
    cases e.isNone <;> cases e.reread <;> rfl

end ToyLang.Parser
