import ToyLang.Proofs.Progress.File
import ToyLang.Proofs.Policy

/-!
# Accepting runs

`Builder.accept mark b st` runs a builder on a plain row of tokens that closes with `mark`, and
gives up at the first report. It is what remains of a run where streams and sessions are of no
interest:

* `accept_bind` and the steps: it goes through a builder as a run does;
* `Builder.run_accept`: a builder that comes to an end either accepts, with the same result, or
  reports something; where it accepts, its run is quiet (`Builder.run_of_accept`);
* `build_accept`: so does the parser, and what it accepts it builds quietly (`build_of_accept`).
-/

set_option autoImplicit false

namespace ToyLang

namespace Builder

variable {α β : Type}

/-- The accepting run from the tokens to come and the constants declared so far; `none` at a
report. Behind the tokens there is the end mark. -/
def accept (mark : Token) :
    Builder α → List Token × List TypedName → Option (α × List Token × List TypedName)
  | done a, st => some (a, st)
  | next k, (t :: ts, cs) => (k t).accept mark (ts, cs)
  | next k, ([], cs) => (k mark).accept mark ([], cs)
  | back t k, (ts, cs) => k.accept mark (t :: ts, cs)
  | report _ _ _, _ => none
  | declare c k, (ts, cs) => k.accept mark (ts, cs ++ [c])
  | fault _, _ => none

variable (mark : Token) (ts : List Token) (cs : List TypedName)

theorem accept_bind (b : Builder α) (f : α → Builder β) (st : List Token × List TypedName) :
    (b >>= f).accept mark st =
      (b.accept mark st).bind fun r => (f r.1).accept mark r.2 := by
  show (b.bind f).accept mark st = _
  induction b generalizing st with
  | done a => rfl
  | next k ih =>
    obtain ⟨_ | ⟨t, ts⟩, cs⟩ := st
    · exact ih mark _
    · exact ih t _
  | back t k ih | declare c k ih => exact ih _
  | report p t k ih | fault f => rfl

@[simp] theorem accept_pure (a : α) (st : List Token × List TypedName) :
    (pure a : Builder α).accept mark st = some (a, st) := rfl

@[simp] theorem accept_putBack (t : Token) :
    (putBack t).accept mark (ts, cs) = some ((), t :: ts, cs) := rfl

/-- A read goes on with the token in front. -/
theorem accept_read_bind (t : Token) (f : Token → Builder α) :
    (read >>= f).accept mark (t :: ts, cs) = (f t).accept mark (ts, cs) := rfl

/-- A read behind the row goes on with the end mark. -/
theorem accept_read_end (f : Token → Builder α) :
    (read >>= f).accept mark ([], cs) = (f mark).accept mark ([], cs) := rfl

theorem accept_bind_pure (b : Builder α) (f : α → β) (st : List Token × List TypedName) :
    (b >>= fun a => pure (f a)).accept mark st = (b.accept mark st).map fun r => (f r.1, r.2) := by
  rw [accept_bind, Option.map_eq_bind]
  rfl

/-- The constants declared so far are of no influence. -/
theorem accept_consts (b : Builder α) (ts : List Token) (cs : List TypedName) :
    b.accept mark (ts, cs) =
      (b.accept mark (ts, [])).map fun r => (r.1, r.2.1, cs ++ r.2.2) := by
  induction b generalizing ts cs with
  | done a => simp [accept]
  | next k ih =>
    cases ts with
    | nil => exact ih mark _ _
    | cons t ts => exact ih t _ _
  | back t k ih => exact ih _ _
  | report p t k ih | fault f => rfl
  | declare c k ih =>
    show k.accept mark (ts, cs ++ [c]) = (k.accept mark (ts, [] ++ [c])).map _
    rw [ih ts (cs ++ [c]), ih ts ([] ++ [c])]
    cases k.accept mark (ts, []) <;> simp

/-- Collecting keeps the constants apart. -/
theorem accept_collected (b : Builder α) (ts : List Token) (cs : List TypedName) :
    b.collected.accept mark (ts, cs) =
      (b.accept mark (ts, [])).map fun r => ((r.1, r.2.2), r.2.1, cs) := by
  induction b generalizing ts cs with
  | done a => rfl
  | next k ih =>
    cases ts with
    | nil => exact ih mark _ _
    | cons t ts => exact ih t _ _
  | back t k ih => exact ih _ _
  | report p t k ih | fault f => rfl
  | declare c k ih =>
    show (k.collected >>= fun r => done (r.1, c :: r.2)).accept mark (ts, cs) =
      (k.accept mark (ts, [] ++ [c])).map _
    rw [accept_bind, ih, accept_consts mark k ts ([] ++ [c])]
    cases k.accept mark (ts, []) <;> rfl

/-! ## Runs -/

/-- A read takes the token that the view delivers. -/
theorem accept_next {v v' : View} {t : Token} (hc : v.close = .ok mark)
    (hn : v.next = (.ok t, v')) (k : Token → Builder α) :
    (next k).accept mark (v.ahead, cs) = (k t).accept mark (v'.ahead, cs) := by
  obtain ⟨ahead, close, held⟩ := v
  cases hc
  cases ahead with
  | nil | cons _ _ =>
    simp only [View.next, Prod.mk.injEq, Except.ok.injEq] at hn
    obtain ⟨rfl, rfl⟩ := hn
    rfl

variable {Q : α → View → Prop}

/-- **A builder that comes to an end accepts or reports something**, on a stream that does not break
off; where it accepts, it does so with the same result. -/
theorem run_accept {b : Builder α} {s : Session} (hs : s.diagnostics.failFast = false)
    (hc : s.stream.view.close = .ok mark) (h : b.Ensures Q s.stream.view) :
    ∃ a s', b.run s = (.ok a, s') ∧
      (s'.diagnostics.items = s.diagnostics.items ∧
          (∃ st, b.accept mark (s.stream.view.ahead, s.consts) = some (a, st)) ∨
        s'.diagnostics.items ≠ s.diagnostics.items ∧
          b.accept mark (s.stream.view.ahead, s.consts) = none) := by
  induction b generalizing s with
  | done a => exact ⟨a, s, rfl, .inl ⟨rfl, _, rfl⟩⟩
  | next k ih =>
    obtain ⟨r, stream, hn⟩ : ∃ r stream, s.stream.next = (r, stream) := ⟨_, _, rfl⟩
    have hv := Stream.view_of_next hn
    cases r with
    | error e =>
      rw [View.close_of_failure (congrArg Prod.fst hv)] at hc
      cases hc
    | ok t =>
      rw [run_next k hn, accept_next mark s.consts hc hv]
      exact ih t (s := { s with stream }) hs ((View.close_of_next hv).trans hc) (h t _ hv)
  | back t k ih =>
    obtain ⟨stream, hb, hv⟩ := (s.stream.putBack_view t).1 h.1
    have hacc : (back t k).accept mark (s.stream.view.ahead, s.consts) =
        k.accept mark (stream.view.ahead, s.consts) := by rw [hv]; rfl
    rw [run_back k hb, hacc]
    exact ih (s := { s with stream }) hs (by rw [hv]; exact hc) (by rw [hv]; exact h.2)
  | report p t k ih =>
    obtain ⟨a, s', hk, -⟩ :=
      ih (s := { s with diagnostics := s.diagnostics.record (p.seenAt t) }) hs hc h
    have hitems := run_record_items k hs (p.seenAt t)
    rw [hk] at hitems
    exact ⟨a, s', (run_report p t k hs).trans hk, .inr ⟨hitems, rfl⟩⟩
  | declare c k ih => exact ih (s := { s with consts := s.consts ++ [c] }) hs hc h
  | fault f => exact h.elim

/-- **What is accepted is run without a report**, whether reports are collected or not. What is left
of the row is what the stream behind the run delivers. -/
theorem run_of_accept {b : Builder α} {s : Session} (hc : s.stream.view.close = .ok mark)
    (h : b.Ensures Q s.stream.view) {a : α} {st : List Token × List TypedName}
    (hacc : b.accept mark (s.stream.view.ahead, s.consts) = some (a, st)) :
    ∃ r, b.run s = (.ok a, r) ∧ Q a r.stream.view ∧ r.stream.view.ahead = st.1 ∧
      r.stream.view.close = .ok mark ∧ r.diagnostics = s.diagnostics := by
  induction b generalizing s with
  | done a' =>
    cases hacc
    exact ⟨s, rfl, h, rfl, hc, rfl⟩
  | next k ih =>
    obtain ⟨r, stream, hn⟩ : ∃ r stream, s.stream.next = (r, stream) := ⟨_, _, rfl⟩
    have hv := Stream.view_of_next hn
    cases r with
    | error e =>
      rw [View.close_of_failure (congrArg Prod.fst hv)] at hc
      cases hc
    | ok t =>
      rw [accept_next mark s.consts hc hv] at hacc
      rw [run_next k hn]
      exact ih t (s := { s with stream }) ((View.close_of_next hv).trans hc) (h t _ hv) hacc
  | back t k ih =>
    obtain ⟨stream, hb, hv⟩ := (s.stream.putBack_view t).1 h.1
    rw [run_back k hb]
    refine ih (s := { s with stream }) ?_ ?_ ?_ <;> rw [hv]
    · exact hc
    · exact h.2
    · exact hacc
  | report p t k ih => cases hacc
  | declare c k ih => exact ih (s := { s with consts := s.consts ++ [c] }) hc h hacc
  | fault f => cases hacc

end Builder

/-- The parser builds a file from tokens that do not break off, and accepts them or reports
something. -/
theorem build_accept {stream : Stream} (hheld : stream.held = none) (hended : stream.ended = none)
    {mark : Token} (hc : stream.view.close = .ok mark) (name : String) :
    ∃ f s, (Session.over stream false).build (Parser.file name) = (.ok f, s) ∧
      (s.diagnostics.items = #[] ∧
          (∃ st, (Parser.file name (stream.size + 1)).accept mark (stream.view.ahead, []) =
            some (f, st)) ∨
        s.diagnostics.items ≠ #[] ∧
          (Parser.file name (stream.size + 1)).accept mark (stream.view.ahead, []) = none) := by
  have hv := Stream.view_within hheld hended
  exact Builder.run_accept mark (s := .over stream false) rfl hc
    (Parser.file_ensures hv (Nat.lt_succ_self _) name)

/-- **What is accepted is built without a report**, whether the session fails fast or not. -/
theorem build_of_accept {stream : Stream} (hheld : stream.held = none)
    (hended : stream.ended = none) {mark : Token} (hc : stream.view.close = .ok mark)
    {name : String} {f : File} {st : List Token × List TypedName}
    (h : (Parser.file name (stream.size + 1)).accept mark (stream.view.ahead, []) = some (f, st))
    (strict : Bool) :
    ∃ s, (Session.over stream strict).build (Parser.file name) = (.ok f, s) ∧
      s.diagnostics.items = #[] := by
  have hv := Stream.view_within hheld hended
  obtain ⟨s, hrun, -, -, -, hdiagnostics⟩ := Builder.run_of_accept mark
    (s := .over stream strict) hc (Parser.file_ensures hv (Nat.lt_succ_self _) name) h
  exact ⟨s, hrun, congrArg Diagnostics.items hdiagnostics⟩

/-- The parser builds a file from a text that does not break off, and accepts the tokens of the text
or reports something. -/
theorem parse_accept {source : String} {mark : Token}
    (hc : (Stream.ofText source).view.close = .ok mark) (name : String) :
    ∃ f s, parse source name = (.ok f, s) ∧
      (s.diagnostics.items = #[] ∧
          (∃ st, (Parser.file name ((Stream.ofText source).size + 1)).accept mark
            ((Stream.ofText source).view.ahead, []) = some (f, st)) ∨
        s.diagnostics.items ≠ #[] ∧
          (Parser.file name ((Stream.ofText source).size + 1)).accept mark
            ((Stream.ofText source).view.ahead, []) = none) :=
  build_accept rfl rfl hc name

end ToyLang
