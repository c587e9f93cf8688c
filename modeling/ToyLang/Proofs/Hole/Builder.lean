import ToyLang.Proofs.Hole.Expression
import ToyLang.Proofs.Phrase.Accept

/-!
# Builders on the tokens of a source

`Builder.Leads src Q b before`: where an accepting run of `b` on the source `src` starts behind the
tokens `before`, it ends in a result `a` and behind tokens `before'` with `Q a before'`, and the
constants it declares have operands and items missing at empty groups only. Unlike `Builder.Only` it
knows the tokens that have been taken, which decide what a pair of parentheses belongs to.

An expression that starts behind the tokens `before` is a phrase there
(`Parser.leads_expression_of`), so what it comes to misses only what `Phrase.fits_of_run` allows.
-/

set_option autoImplicit false

namespace ToyLang

/-- A row of tokens, and the end mark that is read behind it however often. -/
structure Source where
  tokens : List Token
  mark : Token
  mark_eof : mark.kind = .eof

namespace Source

/-- The tokens with some end marks. -/
def row (src : Source) (k : Nat) : List Token := src.tokens ++ List.replicate k src.mark

/-- The tokens `before` have been taken, and `ts` are to come. -/
def Split (src : Source) (before ts : List Token) : Prop := ∃ k, before ++ ts = src.row k

/-- An empty group is closed at `q`. -/
abbrev Gap (src : Source) (q : Pos) : Prop := EmptyGroup src.tokens q

/-- An empty pair of parentheses directly behind the name at `p` is closed at `q`. -/
def NamedGap (src : Source) (p q : Pos) : Prop :=
  ∃ before name, name.kind = .ident ∧ name.pos = p ∧ EmptyPair src.tokens (before ++ [name]) q

/-- The end marks are no parentheses. -/
theorem emptyPair_of_row {src : Source} {k : Nat} {before : List Token} {q : Pos}
    (h : EmptyPair (src.row k) before q) : EmptyPair src.tokens before q := by
  obtain ⟨l, r, after, hrow, hl, hr, hq⟩ := h
  have hrow : src.tokens ++ List.replicate k src.mark = (before ++ [l, r]) ++ after := by
    rw [← row, hrow, List.append_assoc]
    rfl
  obtain ⟨marks, hpair, hmarks⟩ | ⟨rest, htokens, -⟩ := List.append_eq_append_iff.1 hrow
  · -- the pair is closed by a token of the source, so that there are no marks in it
    obtain rfl | ⟨marks, t, rfl⟩ := List.eq_nil_or_concat marks
    · exact ⟨l, r, [], by simpa using hpair.symm, hl, hr, hq⟩
    · have hpair : before ++ [l] ++ [r] = src.tokens ++ marks ++ [t] := by simpa using hpair
      obtain ⟨-, hclose⟩ := List.append_inj' hpair rfl
      cases hclose
      have hmark : r = src.mark := List.eq_of_mem_replicate (n := k) (by simp [hmarks])
      rw [hmark, src.mark_eof] at hr
      cases hr
  · exact ⟨l, r, rest, by simpa using htokens, hl, hr, hq⟩

end Source

namespace Builder

variable {α β : Type}

/-- Behind the tokens `before`, an accepting run on the source ends in `Q`, and the constants stay
as they should be. -/
def Leads (src : Source) (Q : α → List Token → Prop) (b : Builder α) (before : List Token) : Prop :=
  ∀ ts cs a us cs', src.Split before ts → (∀ c ∈ cs, c.expr.Filled src.Gap) →
    b.accept src.mark (ts, cs) = some (a, us, cs') →
      ∃ before', src.Split before' us ∧ Q a before' ∧ ∀ c ∈ cs', c.expr.Filled src.Gap

/-- No matter what comes out, and where. -/
abbrev Somewhere (_ : α) (_ : List Token) : Prop := True

variable {src : Source} {Q Q' : α → List Token → Prop} {R : β → List Token → Prop} {b : Builder α}
  {before : List Token} {t : Token}

theorem Leads.bind {f : α → Builder β} (h : b.Leads src Q before)
    (hf : ∀ a before', Q a before' → (f a).Leads src R before') :
    (b >>= f).Leads src R before := by
  intro ts cs a us cs' hsplit hcs hacc
  rw [accept_bind] at hacc
  obtain ⟨⟨a₁, us₁, cs₁⟩, hfirst, hrest⟩ := Option.bind_eq_some_iff.1 hacc
  obtain ⟨before₁, hsplit₁, hq, hcs₁⟩ := h _ _ _ _ _ hsplit hcs hfirst
  exact hf a₁ before₁ hq _ _ _ _ _ hsplit₁ hcs₁ hrest

theorem Leads.mono (h : b.Leads src Q before) (hq : ∀ a before', Q a before' → Q' a before') :
    b.Leads src Q' before := by
  intro ts cs a us cs' hsplit hcs hacc
  obtain ⟨before', hsplit', hqa, hcs'⟩ := h _ _ _ _ _ hsplit hcs hacc
  exact ⟨before', hsplit', hq a before' hqa, hcs'⟩

theorem leads_pure {a : α} (h : Q a before) : (pure a : Builder α).Leads src Q before := by
  intro ts cs a' us cs' hsplit hcs hacc
  cases hacc
  exact ⟨before, hsplit, h, hcs⟩

theorem leads_read : read.Leads src (fun t before' => before' = before ++ [t]) before := by
  intro ts cs t us cs' hsplit hcs hacc
  obtain ⟨k, hk⟩ := hsplit
  cases ts with
  | nil =>
    -- one more end mark
    cases hacc
    refine ⟨_, ⟨k + 1, ?_⟩, rfl, hcs⟩
    rw [List.append_nil] at hk ⊢
    rw [hk, Source.row, Source.row, List.replicate_succ', List.append_assoc]
  | cons u ts =>
    cases hacc
    exact ⟨_, ⟨k, by rw [List.append_assoc]; exact hk⟩, rfl, hcs⟩

/-- The token that has been read last can be put back. -/
theorem leads_putBack :
    (putBack t).Leads src (fun _ before' => before' = before) (before ++ [t]) := by
  intro ts cs u us cs' hsplit hcs hacc
  obtain ⟨k, hk⟩ := hsplit
  cases hacc
  exact ⟨before, ⟨k, by rw [← hk, List.append_assoc]; rfl⟩, rfl, hcs⟩

/-- A report is not accepted, and nothing behind it is. -/
theorem leads_report {p : Problem} {k : Builder α} : (report p t k).Leads src Q before := by
  intro ts cs a us cs' _ _ hacc
  cases hacc

theorem leads_fault {f : Fault} : (fault f : Builder α).Leads src Q before := by
  intro ts cs a us cs' _ _ hacc
  cases hacc

/-- A check is passed, or there is a report. -/
theorem leads_unless {c : Prop} [Decidable c] {b : Builder Unit}
    (h : ¬c → b.Leads src (fun _ before' => c ∧ before' = before) before) :
    (unless c do b).Leads src (fun _ before' => c ∧ before' = before) before := by
  by_cases hc : c
  · rw [if_pos hc]
    exact leads_pure ⟨hc, rfl⟩
  · rw [if_neg hc]
    exact h hc

theorem leads_addConst {c : TypedName} (h : c.expr.Filled src.Gap) :
    (addConst c).Leads src (fun _ before' => before' = before) before := by
  intro ts cs a us cs' hsplit hcs hacc
  cases hacc
  exact ⟨before, hsplit, rfl, List.forall_mem_append.2 ⟨hcs, List.forall_mem_singleton.2 h⟩⟩

theorem Leads.collected (h : b.Leads src Q before) :
    b.collected.Leads src
      (fun r before' => Q r.1 before' ∧ ∀ c ∈ r.2, c.expr.Filled src.Gap) before := by
  intro ts cs a us cs' hsplit hcs hacc
  rw [accept_collected] at hacc
  obtain ⟨⟨a₁, us₁, cs₁⟩, hb, hresult⟩ := Option.map_eq_some_iff.1 hacc
  cases hresult
  obtain ⟨before', hsplit', hq, hcs₁⟩ :=
    h _ _ _ _ _ hsplit (fun _ hc => absurd hc List.not_mem_nil) hb
  exact ⟨before', hsplit', ⟨hq, hcs₁⟩, hcs⟩

end Builder

open Builder

namespace Parser

variable {src : Source} {before : List Token} {n : Nat} {stop : TokenKind} {P : Pos → Prop}

/-! ## Expressions -/

/-- An expression ends behind its stop token, and misses nothing that its phrase does not. -/
theorem leads_expression_of (hstop : IsStop stop) (hP : ∀ q, src.Gap q → P q)
    (hopens : Opens src.tokens P before) :
    (expression n stop).Leads src
      (fun o before' =>
        o.Filled P ∧ ∃ (b : List Token) (t : Token), before' = b ++ [t] ∧ t.kind = stop)
      before := by
  intro ts cs o us cs' hsplit hcs hacc
  obtain ⟨k, hk⟩ := hsplit
  obtain ⟨rfl, ph, t, rfl, ht, hapart, hout⟩ := exists_phrase src.mark_eof hstop hacc
  refine ⟨before ++ ph.tokens ++ [t], ⟨k, by simpa using hk⟩, ⟨?_, _, t, rfl, ht⟩, hcs⟩
  refine Phrase.filled_of_outcome (fun st hrun => ?_) hout
  have hgroup (q : Pos) (hq : EmptyGroup (src.row k) q) : P q := by
    obtain ⟨b, hb, hpair⟩ := hq
    exact hP q ⟨b, hb, Source.emptyPair_of_row hpair⟩
  have hrow : src.row k = before ++ ph.tokens ++ t :: us := by rw [← hk, List.append_assoc]
  exact Phrase.fits_of_run hgroup hapart hrow
    (fun _ q hq => hopens q (Source.emptyPair_of_row hq)) ExprState.fits_empty hrun

/-- Behind a token that is no name an expression misses only what stands at empty groups. -/
theorem leads_expression {t : Token} (hstop : IsStop stop) (ht : t.kind ≠ .ident) :
    (expression n stop).Leads src
      (fun o before' =>
        o.Filled src.Gap ∧ ∃ (b : List Token) (t : Token), before' = b ++ [t] ∧ t.kind = stop)
      (before ++ [t]) :=
  leads_expression_of hstop (fun _ hq => hq) fun _ hq => ⟨_, not_endsInName_of_kind ht, hq⟩

theorem leads_settle {o : Operand} (h : o.Filled P) :
    o.settle.Leads src (fun e before' => e.Filled P ∧ before' = before) before := by
  cases o with
  | plain e => exact leads_pure ⟨h, rfl⟩
  | pending p => exact leads_report

theorem leads_plainExpression {t : Token} (hstop : IsStop stop) (ht : t.kind ≠ .ident) :
    (plainExpression n stop).Leads src
      (fun e before' =>
        e.Filled src.Gap ∧ ∃ (b : List Token) (t : Token), before' = b ++ [t] ∧ t.kind = stop)
      (before ++ [t]) := by
  refine (leads_expression hstop ht).bind fun o before' ho => ?_
  exact (leads_settle ho.1).mono fun e _ he => ⟨he.1, he.2 ▸ ho.2⟩

end Parser

end ToyLang
