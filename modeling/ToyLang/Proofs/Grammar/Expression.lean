import ToyLang.Proofs.Accept.Expression
import ToyLang.Proofs.Grammar.Derivation

/-!
# Derived expressions are accepted

The parser accepts the tokens of a derived expression and builds its tree. An operand takes one
round of the loop (`Primary.Steps`); an expression leaves its operands and operators on the piles
(`Operation.Piles`), whose reduction is its tree (`Operation.reduceQuietly_piled`); a row is
collected item by item (`Row.Lists`) and read up to a stop token (`Row.Reads`).
-/

set_option autoImplicit false

namespace ToyLang.Grammar

open Builder ToyLang.Parser

/-! ## What is to be shown -/

/-- An operand takes one round of the loop. -/
def Primary.Steps (a : Primary) : Prop :=
  ∀ mark n stop first st rest cs, IsStop stop → Follows rest →
    (a.tokens ++ rest).length ≤ n + 1 →
      (resume (n + 1) stop first st).accept mark (a.tokens ++ rest, cs) =
        (resume n stop first (st.push (.plain a.tree))).accept mark (rest, cs)

/-- The piles with the operands and operators of an expression on them. -/
def Operation.piled : Operation → Work → Work
  | .operand a, w => { w with operands := .plain a.tree :: w.operands }
  | .join a op rest, w =>
    rest.piled ⟨.plain a.tree :: w.operands, op.toToken :: w.operators⟩

/-- The operands and operators of an expression go to the piles. -/
def Operation.Piles (e : Operation) : Prop :=
  ∀ mark n stop first w items rest cs, IsStop stop → Follows rest →
    (e.tokens ++ rest).length ≤ n →
      ∃ m, rest.length ≤ m ∧
        (resume n stop first { work := w, items }).accept mark (e.tokens ++ rest, cs) =
          (resume m stop first { work := e.piled w, items }).accept mark (rest, cs)

/-- A row is added to the items of a list. -/
def Row.Lists (r : Row) : Prop :=
  ∀ mark t n first items rest cs, IsStop t.kind → (r.tokens ++ t :: rest).length ≤ n →
    (resume n t.kind first { items := some items }).accept mark (r.tokens ++ t :: rest, cs) =
      some (.plain { kind := .list, items := items ++ r.trees, pos := first.pos }, rest, cs)

/-- A row is read up to a stop token. -/
def Row.Reads (r : Row) : Prop :=
  ∀ mark t n stop rest cs, t.kind = stop → IsStop stop → (r.tokens ++ t :: rest).length ≤ n →
    (expression n stop).accept mark (r.tokens ++ t :: rest, cs) = some (.plain r.tree, rest, cs)

/-- What stands in front of a stop token is read up to it. -/
def Contents.Reads (c : Contents) : Prop :=
  ∀ mark t n stop rest cs, t.kind = stop → IsStop stop → (c.tokens ++ t :: rest).length ≤ n →
    (expression n stop).accept mark (c.tokens ++ t :: rest, cs) =
      some (.plain (c.tree t.pos), rest, cs)

variable {mark : Token} {n : Nat} {stop : TokenKind} {first t : Token} {rest : List Token}
  {cs : List TypedName}

/-! ## Operands -/

theorem steps_name (t : Name) : (Primary.name t).Steps := by
  intro mark n stop first st rest cs hstop hrest _
  exact accept_name (r := some t.tree) t.kind_eq hstop (accept_suffix_bare hrest)

theorem steps_member (s : Name) (dot : Mark .dot) (m : Name) : (Primary.member s dot m).Steps := by
  intro mark n stop first st rest cs hstop _ _
  exact accept_name (r := some _) s.kind_eq hstop (accept_suffix_member dot.kind_eq m.kind_eq)

theorem steps_call (f : Name) (opening : Mark .lparen) {args : Contents} (closing : Mark .rparen)
    (h : args.Reads) : (Primary.call f opening args closing).Steps := by
  intro mark n stop first st rest cs hstop _ hn
  simp only [Primary.tokens, List.cons_append, List.append_assoc, List.nil_append,
    List.length_cons] at hn ⊢
  have hread := h mark closing.toToken n _ rest cs closing.kind_eq isStop_rparen
    (Nat.le_of_succ_le_succ (Nat.le_of_succ_le hn))
  exact accept_name (r := some _) f.kind_eq hstop
    (accept_suffix_argument (r := some _) opening.kind_eq (.inl ⟨rfl, rfl, rfl⟩) hread)

theorem steps_element (a : Name) (opening : Mark .lbracket) {index : Contents}
    (closing : Mark .rbracket) (h : index.Reads) :
    (Primary.element a opening index closing).Steps := by
  intro mark n stop first st rest cs hstop _ hn
  simp only [Primary.tokens, List.cons_append, List.append_assoc, List.nil_append,
    List.length_cons] at hn ⊢
  have hread := h mark closing.toToken n _ rest cs closing.kind_eq isStop_rbracket
    (Nat.le_of_succ_le_succ (Nat.le_of_succ_le hn))
  exact accept_name (r := some _) a.kind_eq hstop
    (accept_suffix_argument (r := some _) opening.kind_eq (.inr ⟨rfl, rfl, rfl⟩) hread)

theorem steps_group (opening : Mark .lparen) {items : Row} (closing : Mark .rparen)
    (h : items.Reads) : (Primary.group opening items closing).Steps := by
  intro mark n stop first st rest cs hstop _ hn
  simp only [Primary.tokens, List.cons_append, List.append_assoc, List.nil_append,
    List.length_cons] at hn ⊢
  have hread := h mark closing.toToken n _ rest cs closing.kind_eq isStop_rparen
    (Nat.le_of_succ_le_succ hn)
  exact accept_group (r := some _) opening.kind_eq hstop hread

/-- A token that is an operand of its own takes one round. -/
theorem steps_literal {k : TokenKind} (t : TokenOf k) {a : Primary}
    (htokens : a.tokens = [t.toToken]) (hk : ¬IsStop k ∧ k ≠ .eof)
    (hstep : ∀ n st, exprStep (expression n) t.toToken st = pure (st.push (.plain a.tree))) :
    a.Steps := by
  intro mark n stop first st rest cs hstop _ _
  rw [htokens]
  rw [← t.kind_eq] at hk
  exact accept_literal hstop hk.1 hk.2 (hstep n st)

/-! ## Operations -/

theorem Primary.exists_tokens (a : Primary) : ∃ us, a.tokens = a.first :: us := by
  cases a <;> exact ⟨_, rfl⟩

theorem Operation.exists_tokens (e : Operation) : ∃ us, e.tokens = e.first :: us := by
  cases e with
  | operand a => exact a.exists_tokens
  | join a op rest =>
    obtain ⟨us, hus⟩ := a.exists_tokens
    exact ⟨us ++ op.toToken :: rest.tokens, by rw [Operation.tokens, hus]; rfl⟩

/-- **The piles of an expression are reduced to its tree.** The operator on top has the last two
operands below it, and what it leaves is the right operand of the next one. -/
theorem Operation.reduceQuietly_piled : (e : Operation) → (w : Work) →
    Work.reduceQuietly (e.piled w).operators (e.piled w).operands =
      Work.reduceQuietly w.operators (.plain e.tree :: w.operands)
  | .operand a, w => rfl
  | .join a op rest, w => by
    rw [Operation.piled, rest.reduceQuietly_piled]
    have happly : Work.apply op.toToken op.operator []
        (.plain rest.tree :: .plain a.tree :: w.operands) =
          (.plain (Operation.join a op rest).tree :: w.operands, []) := by
      rw [Work.apply, if_neg op.joins]
      rfl
    simp only [Work.reduceQuietly, op.kind_eq, TokenKind.operator?, Option.bind_eq_bind,
      Option.bind_some, happly, if_true]

theorem piles_operand {a : Primary} (h : a.Steps) : (Operation.operand a).Piles := by
  intro mark n stop first w items rest cs hstop hrest hn
  obtain ⟨us, hus⟩ := a.exists_tokens
  have hlen : (a.tokens ++ rest).length ≤ n := hn
  rw [hus, List.cons_append] at hlen
  obtain ⟨n, rfl, hle⟩ := bound_cons hlen
  exact ⟨n, by rw [List.length_append] at hle; omega,
    h mark n stop first { work := w, items } rest cs hstop hrest hn⟩

theorem piles_join {a : Primary} (op : Joiner) {e : Operation} (ha : a.Steps) (he : e.Piles) :
    (Operation.join a op e).Piles := by
  intro mark n stop first w items rest cs hstop hrest hn
  simp only [Operation.tokens, List.append_assoc, List.cons_append] at hn ⊢
  obtain ⟨m, hm, hleft⟩ := piles_operand ha mark n stop first w items _ cs hstop
    (follows_operator op.kind_eq) hn
  obtain ⟨m, rfl, hle⟩ := bound_cons hm
  obtain ⟨m', hm', hright⟩ := he mark m stop first
    ⟨.plain a.tree :: w.operands, op.toToken :: w.operators⟩ items rest cs hstop hrest hle
  refine ⟨m', hm', hleft.trans ?_⟩
  rw [accept_operator op.kind_eq hstop]
  exact hright

/-- The piles of an expression over the operators `ops` alone come to what these make of its
tree. -/
theorem Operation.accept_reduce (e : Operation) (ops : List Token)
    (s : List Token × List TypedName) :
    (e.piled ⟨[], ops⟩).reduce.accept mark s =
      (Work.reduceQuietly ops [.plain e.tree]).map fun os => (os, s) := by
  rw [Work.accept_reduce, e.reduceQuietly_piled]

/-! ## Rows -/

/-- The last item of a list. -/
theorem lists_single {e : Operation} (h : e.Piles) : (Row.single e).Lists := by
  intro mark t n first items rest cs hstop hn
  obtain ⟨m, hm, heq⟩ := h mark n t.kind first {} (some items) (t :: rest) cs hstop
    (hstop.follows rest) hn
  obtain ⟨m, rfl, -⟩ := bound_cons hm
  refine heq.trans ?_
  rw [accept_stop rfl hstop, accept_result_list, e.accept_reduce]
  rfl

/-- An item in front of a comma. -/
theorem accept_item (mark first : Token) (rest : List Token) (cs : List TypedName)
    {e : Operation} (h : e.Piles) (comma : Mark .comma) (hstop : IsStop stop)
    (items : Option (List Expr)) (hn : (e.tokens ++ comma.toToken :: rest).length ≤ n) :
    ∃ m, rest.length ≤ m ∧
      (resume n stop first { items }).accept mark (e.tokens ++ comma.toToken :: rest, cs) =
        (resume m stop first { items := some (items.getD [] ++ [e.tree]) }).accept mark
          (rest, cs) := by
  obtain ⟨m, hm, heq⟩ := h mark n stop first {} items (comma.toToken :: rest) cs hstop
    (follows_comma comma.kind_eq) hn
  obtain ⟨m, rfl, hle⟩ := bound_cons hm
  refine ⟨m, hle, heq.trans ?_⟩
  rw [accept_comma comma.kind_eq hstop, e.accept_reduce]
  rfl

theorem lists_cons {e : Operation} (comma : Mark .comma) {r : Row} (he : e.Piles) (hr : r.Lists) :
    (Row.cons e comma r).Lists := by
  intro mark t n first items rest cs hstop hn
  simp only [Row.tokens, List.append_assoc, List.cons_append] at hn ⊢
  obtain ⟨m, hm, heq⟩ := accept_item mark first _ cs he comma hstop (some items)
    hn
  rw [heq, hr mark t m first _ rest cs hstop hm]
  simp [Row.trees]

/-- Where an expression starts, the loop has its first token. -/
theorem accept_expression_start (e : Operation) (ts : List Token) :
    (expression n stop).accept mark (e.tokens ++ ts, cs) =
      (resume n stop e.first {}).accept mark (e.tokens ++ ts, cs) := by
  obtain ⟨us, hus⟩ := e.exists_tokens
  rw [hus]
  rfl

theorem reads_single {e : Operation} (h : e.Piles) : (Row.single e).Reads := by
  rintro mark t n _ rest cs rfl hstop hn
  obtain ⟨m, hm, heq⟩ := h mark n t.kind e.first {} none (t :: rest) cs hstop
    (hstop.follows rest) hn
  obtain ⟨m, rfl, -⟩ := bound_cons hm
  refine (accept_expression_start e _).trans (heq.trans ?_)
  rw [accept_stop rfl hstop, accept_result_bare, e.accept_reduce]
  rfl

theorem reads_cons {e : Operation} (comma : Mark .comma) {r : Row} (he : e.Piles) (hr : r.Lists) :
    (Row.cons e comma r).Reads := by
  rintro mark t n _ rest cs rfl hstop hn
  simp only [Row.tokens, List.append_assoc, List.cons_append] at hn ⊢
  obtain ⟨m, hm, heq⟩ := accept_item mark e.first _ cs he comma hstop none hn
  rw [accept_expression_start, heq, hr mark t m e.first _ rest cs hstop hm]
  rfl

theorem reads_empty : Contents.empty.Reads := by
  rintro mark t n _ rest cs rfl hstop hn
  obtain ⟨n, rfl, -⟩ := bound_cons hn
  show (resume (n + 1) t.kind t {}).accept mark (t :: rest, cs) = _
  rw [accept_stop rfl hstop, accept_result_bare]
  rfl

/-! ## Derivations -/

mutual

theorem Primary.steps : (a : Primary) → a.Steps
  | .number t => steps_literal t rfl (by simp [IsStop]) fun n st => by
      simp only [exprStep, t.kind_eq]; rfl
  | .string t => steps_literal t rfl (by simp [IsStop]) fun n st => by
      simp only [exprStep, t.kind_eq]; rfl
  | .char t => steps_literal t rfl (by simp [IsStop]) fun n st => by
      simp only [exprStep, t.kind_eq]; rfl
  | .true_ t => steps_literal t rfl (by simp [IsStop]) fun n st => by
      simp only [exprStep, t.kind_eq]; rfl
  | .false_ t => steps_literal t rfl (by simp [IsStop]) fun n st => by
      simp only [exprStep, t.kind_eq]; rfl
  | .name t => steps_name t
  | .call f opening args closing => steps_call f opening closing args.reads
  | .element a opening index closing => steps_element a opening closing index.reads
  | .member s dot m => steps_member s dot m
  | .group opening items closing => steps_group opening closing items.reads

theorem Operation.piles : (e : Operation) → e.Piles
  | .operand a => piles_operand a.steps
  | .join a op rest => piles_join op a.steps rest.piles

theorem Row.lists : (r : Row) → r.Lists
  | .single e => lists_single e.piles
  | .cons e comma rest => lists_cons comma e.piles rest.lists

theorem Row.reads : (r : Row) → r.Reads
  | .single e => reads_single e.piles
  | .cons e comma rest => reads_cons comma e.piles rest.lists

theorem Contents.reads : (c : Contents) → c.Reads
  | .empty => reads_empty
  | .row items => items.reads

end

/-! ## Places of expressions -/

/-- **A row is accepted** in a place that gives assignments no target. -/
theorem Row.accept_plain (r : Row) (mark : Token) (rest : List Token) (cs : List TypedName)
    (ht : t.kind = stop) (hstop : IsStop stop) (hn : (r.tokens ++ t :: rest).length ≤ n) :
    (plainExpression n stop).accept mark (r.tokens ++ t :: rest, cs) = some (r.tree, rest, cs) := by
  rw [plainExpression, accept_bind, r.reads mark t n stop rest cs ht hstop hn]
  rfl

/-- **So is a row that may be missing.** -/
theorem Contents.accept_plain (c : Contents) (mark : Token) (rest : List Token)
    (cs : List TypedName) (ht : t.kind = stop) (hstop : IsStop stop)
    (hn : (c.tokens ++ t :: rest).length ≤ n) :
    (plainExpression n stop).accept mark (c.tokens ++ t :: rest, cs) =
      some (c.tree t.pos, rest, cs) := by
  rw [plainExpression, accept_bind, c.reads mark t n stop rest cs ht hstop hn]
  rfl

/-- **A value behind an assignment waits for its target.** -/
theorem Operation.accept_assigned (e : Operation) (op : Assign) (mark : Token) (rest : List Token)
    (cs : List TypedName) (ht : t.kind = stop) (hstop : IsStop stop)
    (hn : (op.toToken :: (e.tokens ++ t :: rest)).length ≤ n) :
    (expression n stop).accept mark (op.toToken :: (e.tokens ++ t :: rest), cs) =
      some (.pending ⟨e.tree, op.toToken⟩, rest, cs) := by
  subst ht
  obtain ⟨n, rfl, hle⟩ := bound_cons hn
  obtain ⟨m, hm, heq⟩ := e.piles mark n t.kind op.toToken ⟨[], [op.toToken]⟩ none (t :: rest) cs
    hstop (hstop.follows rest) hle
  obtain ⟨m, rfl, -⟩ := bound_cons hm
  rw [accept_expression_cons, accept_operator op.kind_eq hstop]
  refine heq.trans ?_
  rw [accept_stop rfl hstop, accept_result_bare, e.accept_reduce]
  simp [Work.reduceQuietly, TokenKind.operator?, Work.apply, Work.take,
    ToyLang.Operand.settled]

end ToyLang.Grammar
