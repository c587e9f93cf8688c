import ToyLang.Proofs.Extent.Row
import ToyLang.Proofs.Phrase.Accept
import ToyLang.Proofs.Placement.Builder

/-!
# What an expression takes

An accepting run of an expression takes a phrase and a stop token. The phrase decides where the
expression ends and what it comes to: any other stop token in the place of that one, any bound that
is no smaller than the phrase, and any tokens behind it give the same.

* `Takes n ts o`: the tokens `ts` are taken up to any stop token with the result `o`, up to
  positions, since an expression without tokens is placed at its stop token;
* `takes_phrase`: a phrase is taken, if it comes to a result;
* `Takes.grouped` adds parentheses.
-/

set_option autoImplicit false

namespace ToyLang

open Builder

namespace Phrase

variable {ph : Phrase} {t u : Token} {o : Operand}

/-- The token behind a phrase gives the place of an empty one, and nothing else. -/
theorem outcome_unplaced (u : Token) (h : ph.outcome t = some o) :
    ∃ o' : Operand, ph.outcome u = some o' ∧ o'.unplaced = o.unplaced := by
  unfold outcome first at h ⊢
  cases hts : ph.tokens with
  | nil =>
    have hnil : ph = nil := by cases ph <;> first | rfl | cases hts
    subst hnil
    cases h
    exact ⟨_, rfl, by simp [Operand.unplaced]⟩
  | cons v vs =>
    rw [hts] at h
    exact ⟨o, h, rfl⟩

/-- No end mark stands in a phrase. -/
theorem marks_tokens (ph : Phrase) : marks ph.tokens = 0 := by
  induction ph with
  | nil => rfl
  | literal t ph ih => exact (marks_cons t.not_isStop.2 _).trans ih
  | operator t ph ih => exact (marks_cons (by simp [t.kind_eq]) _).trans ih
  | comma t ph ih | name t ph ih => exact (marks_cons (by simp) _).trans ih
  | member s dot m ph ih =>
    rw [tokens, marks_cons (by simp), marks_cons (by simp), marks_cons (by simp), ih]
  | argument f b opening inside closing ph ihinside ih =>
    rw [tokens, marks_cons (by simp), marks_cons (by simp)]
    rw [marks, List.countP_append, ← marks, ← marks, marks_cons (by simp), ihinside, ih]
  | group opening inside closing ph ihinside ih =>
    rw [tokens, marks_cons (by simp)]
    rw [marks, List.countP_append, ← marks, ← marks, marks_cons (by simp), ihinside, ih]

end Phrase

namespace Parser

variable {t : Token} {n : Nat} {ts : List Token} {o : Operand}

/-! ## Expressions up to any stop token -/

/-- The tokens `ts` are taken as an expression up to any stop token, with a result that is `o` up to
positions. -/
def Takes (n : Nat) (ts : List Token) (o : Operand) : Prop :=
  ∀ t, IsStop t.kind → ∃ o' : Operand, o'.unplaced = o.unplaced ∧ ∀ m ≥ n, ∀ mark vs cs,
    (expression m t.kind).accept mark (ts ++ t :: vs, cs) = some (o', vs, cs)

theorem Takes.mono {k : Nat} (h : Takes n ts o) (hk : n ≤ k) : Takes k ts o := fun t ht =>
  let ⟨o', hsame, htakes⟩ := h t ht
  ⟨o', hsame, fun m hm => htakes m (Nat.le_trans hk hm)⟩

/-- A phrase is taken, if it comes to a result. -/
theorem takes_phrase {ph : Phrase} (hapart : ph.Apart) (h : ph.outcome t = some o) :
    Takes (ph.tokens.length + 1) ph.tokens o := by
  intro u hu
  obtain ⟨o', hout, hsame⟩ := Phrase.outcome_unplaced u h
  refine ⟨o', hsame, fun m hm mark vs cs => ?_⟩
  obtain ⟨m, rfl⟩ : ∃ k, m = k + 1 := ⟨m - 1, by omega⟩
  rw [Phrase.accept_expression hapart rfl hu (by omega), hout]
  rfl

/-! ## Groups -/

/-- The tokens between pairs of parentheses, the outermost pair first. -/
def grouped : List (Token × Token) → List Token → List Token
  | [], ts => ts
  | (l, r) :: pairs, ts => l :: grouped pairs ts ++ [r]

theorem length_grouped (pairs : List (Token × Token)) (ts : List Token) :
    (grouped pairs ts).length = ts.length + 2 * pairs.length := by
  induction pairs with
  | nil => rfl
  | cons p pairs ih =>
    simp only [grouped, List.length_append, List.length_cons, List.length_nil, ih]
    omega

theorem marks_grouped {pairs : List (Token × Token)}
    (hpairs : ∀ p ∈ pairs, p.1.kind = .punct .lparen ∧ p.2.kind = .punct .rparen) :
    marks (grouped pairs ts) = marks ts := by
  induction pairs with
  | nil => rfl
  | cons p pairs ih =>
    obtain ⟨⟨hl, hr⟩, hpairs⟩ := List.forall_mem_cons.1 hpairs
    rw [← ih hpairs, grouped, List.cons_append, marks_cons (by simp [hl])]
    simp [marks, hr]

/-- A group comes to what it holds, a pending assignment included. -/
theorem Takes.group {l r : Token} (h : Takes n ts o) (hl : l.kind = .punct .lparen)
    (hr : r.kind = .punct .rparen) : Takes (n + 2) (l :: ts ++ [r]) o := by
  intro t ht
  obtain ⟨o', hsame, htakes⟩ := h r (by simp [IsStop, hr])
  refine ⟨o', hsame, fun m hm mark vs cs => ?_⟩
  obtain ⟨m, rfl⟩ : ∃ k, m = k + 2 := ⟨m - 2, by omega⟩
  have hnested := htakes (m + 1) (by omega) mark (t :: vs) cs
  rw [hr] at hnested
  rw [List.cons_append, List.cons_append, List.append_assoc, List.singleton_append,
    accept_expression_cons, accept_group (r := some o') hl ht hnested]
  show (resume (m + 1) t.kind l (ExprState.push {} o')).accept mark (t :: vs, cs) = _
  rw [accept_stop rfl ht]
  show (exprResult l t { work := { operands := [o'] } }).accept mark (vs, cs) = _
  rw [accept_result_bare, Work.accept_reduce]
  rfl

/-- **Groups are transparent**, however many there are. -/
theorem Takes.grouped {pairs : List (Token × Token)} (h : Takes n ts o)
    (hpairs : ∀ p ∈ pairs, p.1.kind = .punct .lparen ∧ p.2.kind = .punct .rparen) :
    Takes (n + 2 * pairs.length) (grouped pairs ts) o := by
  induction pairs with
  | nil => exact h
  | cons p pairs ih =>
    obtain ⟨⟨hl, hr⟩, hpairs⟩ := List.forall_mem_cons.1 hpairs
    exact (ih hpairs).group hl hr

end Parser

end ToyLang
