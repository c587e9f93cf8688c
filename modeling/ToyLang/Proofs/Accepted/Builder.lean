import ToyLang.Proofs.Accepted.Token
import ToyLang.Proofs.Policy

/-!
# Results without a report

`Builder.Only Q b`: on tokens that the lexer makes, the builder `b` reports something or ends in a
result in `Q`, and the constants it declares are regular. It is a predicate on the builder alone,
like `Builder.Ensures`, and says nothing about builders that report; `Builder.only_run` turns it
into a statement about runs of which nothing was collected.
-/

set_option autoImplicit false

namespace ToyLang

namespace Builder

variable {α β : Type}

/-- What the builder ends in if it reports nothing. -/
def Only (Q : α → Prop) : Builder α → Prop
  | done a => Q a
  | next k => ∀ t, t.Lexed → (k t).Only Q
  | back t k => t.Lexed ∧ k.Only Q
  | report _ _ _ => True
  | declare c k => c.IsConstant False ∧ k.Only Q
  | fault _ => True

variable {Q : α → Prop} {R : β → Prop} {b : Builder α} {t : Token}

theorem Only.bind {f : α → Builder β} (h : b.Only Q) (hf : ∀ a, Q a → (f a).Only R) :
    (b >>= f).Only R := by
  show (b.bind f).Only R
  induction b with
  | done a => exact hf a h
  | next k ih => exact fun t ht => ih t (h t ht)
  | back t k ih => exact ⟨h.1, ih h.2⟩
  | declare c k ih => exact ⟨h.1, ih h.2⟩
  | report p t k ih | fault f => trivial

theorem Only.mono {Q' : α → Prop} (h : b.Only Q) (hq : ∀ a, Q a → Q' a) : b.Only Q' := by
  rw [← bind_pure b]
  exact h.bind hq

/-! ## Steps -/

theorem only_read : read.Only Token.Lexed := fun _ ht => ht

theorem only_putBack (ht : t.Lexed) : (putBack t).Only fun _ => True := ⟨ht, trivial⟩

/-- A check is passed, or there is a report. -/
theorem only_unless {c : Prop} [Decidable c] {b : Builder Unit} (h : ¬c → b.Only fun _ => c) :
    (unless c do b).Only fun _ => c := by
  by_cases hc : c
  · rw [if_pos hc]
    exact hc
  · rw [if_neg hc]
    exact h hc

theorem only_addConst {c : TypedName} (h : c.IsConstant False) :
    (addConst c).Only fun _ => True := ⟨h, trivial⟩

theorem Only.collected (h : b.Only Q) :
    b.collected.Only fun r => Q r.1 ∧ ∀ c ∈ r.2, c.IsConstant False := by
  induction b with
  | done a => exact ⟨h, fun _ hc => absurd hc List.not_mem_nil⟩
  | next k ih => exact fun t ht => ih t (h t ht)
  | back t k ih => exact ⟨h.1, ih h.2⟩
  | declare c k ih =>
    exact (ih h.2).bind fun r hr => ⟨hr.1, List.forall_mem_cons.2 ⟨h.1, hr.2⟩⟩
  | report p t k ih | fault f => trivial

/-! ## Runs -/

/-- **A builder that comes to an end without a report ends as it should**, on a stream of tokens
that the lexer makes. -/
theorem only_run {a : α} {s s' : Session} (h : b.Only Q) (hs : s.diagnostics.failFast = false)
    (hv : s.stream.view.Delivers Token.Lexed) (hrun : b.run s = (.ok a, s'))
    (hquiet : s'.diagnostics.items = s.diagnostics.items) : Q a := by
  induction b generalizing s with
  | done a' =>
    cases hrun
    exact h
  | next k ih =>
    obtain ⟨r, stream, hn⟩ : ∃ r stream, s.stream.next = (r, stream) := ⟨_, _, rfl⟩
    simp only [run, hn] at hrun
    cases r with
    | error e => cases hrun
    | ok t =>
      obtain ⟨ht, hv'⟩ := hv.next (Stream.view_of_next hn)
      exact ih t (s := { s with stream }) (h t ht) hs hv' hrun hquiet
  | back t k ih =>
    cases hb : s.stream.putBack t with
    | error o =>
      simp only [run, hb] at hrun
      cases hrun
    | ok stream =>
      rw [run_back k hb] at hrun
      have hv' : stream.view.Delivers Token.Lexed := Stream.view_of_putBack hb ▸ hv.push h.1
      exact ih (s := { s with stream }) h.2 hs hv' hrun hquiet
  | report p t k ih =>
    have hitems := run_record_items k hs (p.seenAt t)
    rw [← run_report p t k hs, hrun] at hitems
    exact absurd hquiet hitems
  | declare c k ih => exact ih (s := { s with consts := s.consts ++ [c] }) h.2 hs hv hrun hquiet
  | fault f => cases hrun

end Builder

end ToyLang
