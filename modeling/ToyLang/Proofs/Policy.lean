import ToyLang.Proofs.Progress.File

/-!
# Failing fast and collecting

A builder does not know what a report leads to, so the run that fails fast can be read off the run
that collects: it is the same run where nothing was reported, and otherwise it stops at the first
report (`run_failFast`). The parser adds that a collecting run gives a file or a lexical failure:
strict and collecting parses agree (`strict_parse_agrees`).
-/

set_option autoImplicit false

namespace ToyLang

/-- The session with a collector that fails fast. -/
def Session.strict (s : Session) : Session :=
  { s with diagnostics := { s.diagnostics with failFast := true } }

namespace Builder

variable {α : Type}

/-- What failing fast makes of a run that began with the diagnostics `items` and collected `added`:
nothing else happens, or the first report stops it. -/
def StopsAtFirst (items : Array Diagnostic) (added : List Diagnostic)
    (collecting failFast : Except Halt α × Session) : Prop :=
  match added with
  | [] => failFast = (collecting.1, collecting.2.strict)
  | d :: _ => failFast.1 = .error (.rejected d) ∧ failFast.2.diagnostics.items = items.push d

/-- **A run that fails fast** is the collecting run up to the first report. -/
theorem run_failFast (b : Builder α) (s : Session) (hs : s.diagnostics.failFast = false) :
    ∃ added, (b.run s).2.diagnostics.items.toList = s.diagnostics.items.toList ++ added ∧
      StopsAtFirst s.diagnostics.items added (b.run s) (b.run s.strict) := by
  induction b generalizing s with
  | done a => exact ⟨[], by simp [run], rfl⟩
  | next k ih =>
    have strict : s.strict.stream = s.stream := rfl
    simp only [run, strict]
    cases hn : s.stream.next with
    | mk r stream =>
      cases r with
      | ok t => exact ih t { s with stream } hs
      | error e => exact ⟨[], by simp, rfl⟩
  | back t k ih =>
    have strict : s.strict.stream = s.stream := rfl
    simp only [run, strict]
    cases s.stream.putBack t with
    | ok stream => exact ih { s with stream } hs
    | error o => exact ⟨[], by simp, rfl⟩
  | report p t k ih =>
    -- the collecting run goes on behind the report, the other one ends here
    have collects : s.diagnostics.report (p.seenAt t) =
        (.ok (), s.diagnostics.record (p.seenAt t)) := by simp [Diagnostics.report, hs]
    have fails : s.strict.diagnostics.report (p.seenAt t) =
        (.error (p.seenAt t), s.strict.diagnostics.record (p.seenAt t)) := rfl
    obtain ⟨added, hadded, -⟩ :=
      ih { s with diagnostics := s.diagnostics.record (p.seenAt t) } hs
    refine ⟨p.seenAt t :: added, ?_, ?_⟩
    · simp only [run, collects]
      rw [hadded]
      simp [Diagnostics.record]
    · simp only [run, fails]
      exact ⟨rfl, rfl⟩
  | declare c k ih => exact ih { s with consts := s.consts ++ [c] } hs
  | fault f => exact ⟨[], by simp [run], rfl⟩

/-- What was collected stays collected. -/
theorem run_record_items (b : Builder α) {s : Session} (hs : s.diagnostics.failFast = false)
    (d : Diagnostic) :
    (b.run { s with diagnostics := s.diagnostics.record d }).2.diagnostics.items ≠
      s.diagnostics.items := by
  intro hsame
  obtain ⟨added, hadded, -⟩ := run_failFast b { s with diagnostics := s.diagnostics.record d } hs
  have hlength := congrArg List.length hadded
  rw [hsame] at hlength
  simp [Diagnostics.record] at hlength

end Builder

/-- **Strict and collecting parses agree.** With reports collected, a file is built or the text
breaks off. If nothing was reported, the strict parse comes to the same and reports nothing; if
something was, it is rejected with the first report, which is all it has collected. -/
theorem strict_parse_agrees (source name : String) :
    ((∃ f, (parse source name).1 = .ok f) ∨ ∃ e, (parse source name).1 = .error (.lexical e)) ∧
    (match (parse source name).2.diagnostics.items.toList with
      | [] => (parse source name true).1 = (parse source name).1 ∧
          (parse source name true).2.diagnostics.items = #[]
      | d :: _ => (parse source name true).1 = .error (.rejected d) ∧
          (parse source name true).2.diagnostics.items = #[d]) ∧
    ((∃ d, (parse source name true).1 = .error (.rejected d)) ↔
      (parse source name).2.diagnostics.hasErrors = true) := by
  have hends := parse_ends source name
  obtain ⟨added, hitems, hstops⟩ := Builder.run_failFast
    (Parser.file name ((Stream.ofText source).size + 1)) (.over (.ofText source) false) rfl
  change (parse source name).2.diagnostics.items.toList = [] ++ added at hitems
  change Builder.StopsAtFirst #[] added (parse source name) (parse source name true) at hstops
  rw [Diagnostics.hasErrors, Bool.not_eq_true', ← Array.isEmpty_toList, hitems, List.nil_append]
  refine ⟨hends, ?_⟩
  cases added with
  | nil =>
    have hsame : parse source name true = ((parse source name).1, (parse source name).2.strict) :=
      hstops
    have hnone : (parse source name).2.diagnostics.items = #[] := by simpa using hitems
    rw [hsame]
    refine ⟨⟨rfl, hnone⟩, ?_⟩
    rcases hends with ⟨f, hf⟩ | ⟨e, he⟩ <;> simp_all
  | cons d rest => exact ⟨hstops, fun _ => rfl, fun _ => ⟨d, hstops.1⟩⟩

end ToyLang
