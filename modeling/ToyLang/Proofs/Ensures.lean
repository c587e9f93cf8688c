import ToyLang.Parser.Builder
import ToyLang.Proofs.View

/-!
# What a builder ensures

`Builder.Ensures Q b v`: a builder that runs on a stream with the view `v`, with reports collected,
comes to an end with a result and a view in `Q`, or the stream breaks off with a lexical failure. In
particular no token is put back over another one and no bound is exceeded. It is a predicate on the
builder alone, one equation for each step and one for going on (`ensures_bind`);
`Builder.run_of_ensures` turns it into a statement about runs.
-/

set_option autoImplicit false

namespace ToyLang

namespace Builder

variable {α β : Type}

/-- From the view `v` the builder ends in `Q`, unless there is a lexical failure. -/
def Ensures (Q : α → View → Prop) : Builder α → View → Prop
  | done a, v => Q a v
  | next k, v => ∀ t v', v.next = (.ok t, v') → (k t).Ensures Q v'
  | back t k, v => v.held = false ∧ k.Ensures Q (v.push t)
  | report _ _ k, v => k.Ensures Q v
  | declare _ k, v => k.Ensures Q v
  | fault _, _ => False

variable {Q R : α → View → Prop} {v : View} {b : Builder α}

theorem ensures_bind {f : α → Builder β} {Q : β → View → Prop} :
    (b >>= f).Ensures Q v ↔ b.Ensures (fun a v => (f a).Ensures Q v) v := by
  show (b.bind f).Ensures Q v ↔ _
  induction b generalizing v with
  | done a => rfl
  | next k ih => exact forall_congr' fun t => forall_congr' fun _ => imp_congr_right fun _ => ih t
  | back t k ih => exact and_congr_right fun _ => ih
  | report p t k ih | declare c k ih => exact ih
  | fault e => rfl

theorem Ensures.mono (h : b.Ensures Q v) (hqr : ∀ a v, Q a v → R a v) : b.Ensures R v := by
  induction b generalizing v with
  | done a => exact hqr _ _ h
  | next k ih => exact fun t v' hn => ih t (h t v' hn)
  | back t k ih => exact ⟨h.1, ih h.2⟩
  | report p t k ih | declare c k ih => exact ih h
  | fault e => exact h

/-- A builder and what goes on with its result. -/
theorem Ensures.bind {f : α → Builder β} {Q' : β → View → Prop} (h : b.Ensures Q v)
    (hf : ∀ a v, Q a v → (f a).Ensures Q' v) : (b >>= f).Ensures Q' v :=
  ensures_bind.2 (h.mono hf)

/-- No builder changes how the row of tokens closes. -/
theorem Ensures.close (h : b.Ensures Q v) :
    b.Ensures (fun a v' => Q a v' ∧ v'.close = v.close) v := by
  suffices ∀ c, v.close = c → b.Ensures (fun a v' => Q a v' ∧ v'.close = c) v from this _ rfl
  intro c hc
  induction b generalizing v with
  | done a => exact ⟨h, hc⟩
  | next k ih => exact fun t v' hn => ih t (h t v' hn) ((View.close_of_next hn).trans hc)
  | back t k ih => exact ⟨h.1, ih h.2 hc⟩
  | report p t k ih | declare c k ih => exact ih h hc
  | fault e => exact h

/-! ## Steps -/

/-- A read gives a token in hand. -/
theorem ensures_take {m : Nat} (h : v.Within m) :
    read.Ensures (fun t v' => v'.Taken t m) v :=
  fun _ _ hn => (View.taken_of_next h hn).1

/-- A token in hand can be put back. -/
theorem ensures_putBack {t : Token} {m : Nat} (h : v.Taken t m) :
    (putBack t).Ensures (fun _ v' => v'.Within m) v :=
  ⟨h.free, h.within⟩

theorem ensures_collected {Q : α × List TypedName → View → Prop}
    (h : b.Ensures (fun a v => ∀ cs, Q (a, cs) v) v) : b.collected.Ensures Q v := by
  induction b generalizing v Q with
  | done a => exact h []
  | next k ih => exact fun t v' hn => ih t (h t v' hn)
  | back t k ih => exact ⟨h.1, ih h.2⟩
  | report p t k ih => exact ih h
  | declare c k ih =>
    show (k.collected >>= fun r => done (r.1, c :: r.2)).Ensures Q v
    exact ensures_bind.2 (ih (Ensures.mono h fun _ _ hq cs => hq (c :: cs)))
  | fault e => exact h

end Builder

/-! ## Runs -/

namespace Builder

variable {α : Type} {Q : α → View → Prop} {s : Session} {t : Token} {stream : Stream}

theorem run_next (k : Token → Builder α) (hn : s.stream.next = (.ok t, stream)) :
    (next k).run s = (k t).run { s with stream } := by
  simp only [run, hn]

theorem run_back (k : Builder α) (hb : s.stream.putBack t = .ok stream) :
    (back t k).run s = k.run { s with stream } := by
  simp only [run, hb]

/-- A report is collected. -/
theorem run_report (p : Problem) (t : Token) (k : Builder α)
    (hs : s.diagnostics.failFast = false) :
    (report p t k).run s = k.run { s with diagnostics := s.diagnostics.record (p.seenAt t) } := by
  have hr : s.diagnostics.report (p.seenAt t) = (.ok (), s.diagnostics.record (p.seenAt t)) := by
    simp [Diagnostics.report, hs]
  simp only [run, hr]

/-- **A builder runs as it ensures** where reports are collected: it ends in `Q`, or the stream
breaks off, which it does only if its view says so. -/
theorem run_of_ensures {b : Builder α} (hs : s.diagnostics.failFast = false)
    (h : b.Ensures Q s.stream.view) :
    (∃ a s', b.run s = (.ok a, s') ∧ Q a s'.stream.view ∧ s'.diagnostics.failFast = false) ∨
      ∃ e s', b.run s = (.error (.lexical e), s') ∧ s.stream.view.close = .error e := by
  induction b generalizing s with
  | done a => exact .inl ⟨a, s, rfl, h, hs⟩
  | next k ih =>
    cases hn : s.stream.next with
    | mk r stream =>
      have hv := Stream.view_of_next hn
      cases r with
      | error e =>
        have hrun : (Builder.next k).run s = (.error (.lexical e), { s with stream }) := by
          simp only [run, hn]
        exact .inr ⟨e, _, hrun, View.close_of_failure (congrArg Prod.fst hv)⟩
      | ok t =>
        rw [run_next k hn, ← View.close_of_next hv]
        exact ih t (s := { s with stream }) hs (h t _ hv)
  | back t k ih =>
    obtain ⟨s', hb, hv⟩ := (s.stream.putBack_view t).1 h.1
    rw [run_back k hb]
    have := ih (s := { s with stream := s' }) hs (by rw [hv]; exact h.2)
    rw [hv] at this
    exact this
  | report p t k ih =>
    rw [run_report p t k hs]
    exact ih (s := { s with diagnostics := s.diagnostics.record (p.seenAt t) }) hs h
  | declare c k ih => exact ih (s := { s with consts := s.consts ++ [c] }) hs h
  | fault e => exact h.elim

/-- A builder that comes to an end has no fault, whether reports are collected or not. -/
theorem Ensures.run_ne_fault {b : Builder α} (h : b.Ensures Q s.stream.view) (f : Fault) :
    (b.run s).1 ≠ .error (.fault f) := by
  induction b generalizing s with
  | done a => simp [run]
  | next k ih =>
    cases hn : s.stream.next with
    | mk r stream =>
      cases r with
      | error e => simp [run, hn]
      | ok t =>
        rw [run_next k hn]
        exact ih t (h t _ (Stream.view_of_next hn))
  | back t k ih =>
    obtain ⟨s', hb, hv⟩ := (s.stream.putBack_view t).1 h.1
    rw [run_back k hb]
    exact ih (by rw [hv]; exact h.2)
  | report p t k ih =>
    simp only [run]
    split
    · exact ih h
    · simp
  | declare c k ih => exact ih (s := { s with consts := s.consts ++ [c] }) h
  | fault e => exact h.elim

end Builder

end ToyLang
