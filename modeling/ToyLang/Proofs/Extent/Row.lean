import ToyLang.Proofs.Locality.Builder

/-!
# Quiet runs on a row of tokens

A view forgets where the feed of a stream stands. `Stream.Row ts` says it: the tokens `ts` are still
to be read, end marks and what is behind them included, and no end mark has been read yet. A builder
that reports something wherever it meets the end mark (`Builder.Heeds Short`) runs quietly from row
to row only, takes no end mark on the way, and accepts what it takes (`Builder.Heeds.run_row`).
-/

set_option autoImplicit false

namespace ToyLang

/-! ## Streams that stand at a row -/

namespace Stream

/-- No end mark has been read, and what is held and what is listed are the tokens `ts`. -/
structure Row (s : Stream) (ts : List Token) : Prop where
  unended : s.ended = none
  ahead : ∃ rest, s.feed = .listed rest ∧ s.held.toList ++ rest = ts
  held : ∀ t, s.held = some t → t.kind ≠ .eof

/-- An end mark has been read, and nothing else is held. -/
structure Marked (s : Stream) : Prop where
  ended : ∃ e, s.ended = some e ∧ e.kind = .eof
  held : ∀ t, s.held = some t → t.kind = .eof

variable {s s' : Stream} {t : Token} {ts : List Token}

theorem row_ofList (ts : List Token) : (ofList ts).Row ts :=
  ⟨rfl, ⟨ts, rfl, rfl⟩, fun _ h => by cases h⟩

/-- Where nothing is held, the stream is that of its row. -/
theorem Row.eq_ofList (h : s.Row ts) (hheld : s.held = none) : s = ofList ts := by
  obtain ⟨rest, hfeed, rfl⟩ := h.ahead
  obtain ⟨feed, held, ended⟩ := s
  cases hheld
  cases h.unended
  cases hfeed
  rfl

/-- A read takes the first token of the row, or it meets the end mark. -/
theorem Row.next (h : s.Row ts) :
    (∃ t rest s', ts = t :: rest ∧ t.kind ≠ .eof ∧ s.next = (.ok t, s') ∧ s'.Row rest) ∨
      ∃ t s', t.kind = .eof ∧ s.next = (.ok t, s') ∧ s'.Marked := by
  obtain ⟨rest, hfeed, rfl⟩ := h.ahead
  obtain ⟨feed, _ | t, ended⟩ := s
  · cases hfeed
    cases h.unended
    cases rest with
    | nil =>
      exact .inr ⟨.endMark ⟨0, 0⟩, _, rfl, rfl, ⟨⟨_, rfl, rfl⟩, fun _ h => by cases h⟩⟩
    | cons t rest =>
      by_cases ht : t.kind = .eof
      · refine .inr ⟨t, _, ht, rfl, ⟨⟨t, ?_, ht⟩, fun _ h => by cases h⟩⟩
        exact if_pos ht
      · refine .inl ⟨t, rest, _, rfl, ht, rfl, ⟨?_, ⟨rest, rfl, rfl⟩, fun _ h => by cases h⟩⟩
        exact if_neg ht
  · exact .inl ⟨t, rest, _, rfl, h.held t rfl, rfl,
      ⟨h.unended, ⟨rest, hfeed, rfl⟩, fun _ h => by cases h⟩⟩

theorem Marked.next (h : s.Marked) :
    ∃ t s', t.kind = .eof ∧ s.next = (.ok t, s') ∧ s'.Marked := by
  obtain ⟨e, hended, he⟩ := h.ended
  obtain ⟨feed, _ | t, ended⟩ := s
  · cases hended
    exact ⟨e, _, he, rfl, ⟨⟨e, rfl, he⟩, fun _ h => by cases h⟩⟩
  · exact ⟨t, _, h.held t rfl, rfl, ⟨⟨e, hended, he⟩, fun _ h => by cases h⟩⟩

/-- A token can be put back in front of the row, if it is no end mark. -/
theorem Row.putBack (h : s.Row ts) (ht : t.kind ≠ .eof) (hb : s.putBack t = .ok s') :
    s'.Row (t :: ts) := by
  obtain ⟨rest, hfeed, rfl⟩ := h.ahead
  obtain ⟨feed, _ | u, ended⟩ := s
  · cases hb
    exact ⟨h.unended, ⟨rest, hfeed, rfl⟩, fun _ h => by cases h; exact ht⟩
  · cases hb

theorem Marked.putBack (h : s.Marked) (ht : t.kind = .eof) (hb : s.putBack t = .ok s') :
    s'.Marked := by
  obtain ⟨feed, _ | u, ended⟩ := s
  · cases hb
    exact ⟨h.ended, fun _ h => by cases h; exact ht⟩
  · cases hb

end Stream

/-! ## Quiet runs -/

/-- The number of end marks in a row. -/
def marks (ts : List Token) : Nat := ts.countP fun t => t.kind = .eof

theorem marks_cons {t : Token} (ht : t.kind ≠ .eof) (ts : List Token) :
    marks (t :: ts) = marks ts := List.countP_cons_of_neg (by simpa using ht)

namespace Builder

variable {α : Type} {b : Builder α} {s s' : Session} {a : α}

/-- The run comes to the result `a` in the session `s'`, and nothing is reported on the way. -/
def Quiet (b : Builder α) (s : Session) (a : α) (s' : Session) : Prop :=
  b.run s = (.ok a, s') ∧ s'.diagnostics.items = s.diagnostics.items

theorem not_quiet_report {p : Problem} {t : Token} {k : Builder α} :
    ¬(report p t k).Quiet s a s' := by
  rintro ⟨hrun, hitems⟩
  cases hs : s.diagnostics.failFast with
  | true => simp [run, Diagnostics.report, hs] at hrun
  | false =>
    rw [run_report p t k hs] at hrun
    have hrecord := run_record_items k hs (p.seenAt t)
    rw [hrun] at hrecord
    exact hrecord hitems

theorem Quiet.of_next {k : Token → Builder α} {t : Token} {stream : Stream}
    (h : (next k).Quiet s a s') (hn : s.stream.next = (.ok t, stream)) :
    (k t).Quiet { s with stream } a s' := by
  rw [Quiet, run_next k hn] at h
  exact h

theorem Quiet.of_back {k : Builder α} {t : Token} (h : (back t k).Quiet s a s') :
    ∃ stream, s.stream.putBack t = .ok stream ∧ k.Quiet { s with stream } a s' := by
  cases hb : s.stream.putBack t with
  | error o =>
    have hrun := h.1
    simp [run, hb] at hrun
  | ok stream =>
    rw [Quiet, run_back k hb] at h
    exact ⟨stream, rfl, h⟩

/-- Once an end mark has been read there is nothing else. -/
theorem Heeds.run_marked {Q : α → Prop → Prop} (h : b.Heeds Q True) (hs : s.stream.Marked)
    (hrun : b.Quiet s a s') : Q a True := by
  induction b generalizing s with
  | done a' =>
    cases hrun.1
    exact h
  | next k ih =>
    obtain ⟨t, stream, ht, hn, hmarked⟩ := hs.next
    have hk := h t fun _ => ht
    rw [eq_true ht] at hk
    exact ih t hk (s := { s with stream }) hmarked (hrun.of_next hn)
  | back t k ih =>
    obtain ⟨stream, hb, hquiet⟩ := hrun.of_back
    exact ih h.2 (s := { s with stream }) (hs.putBack (h.1.2 trivial) hb) hquiet
  | report p t k ih => exact (not_quiet_report hrun).elim
  | declare c k ih => exact ih h (s := { s with consts := s.consts ++ [c] }) hs hrun
  | fault f => cases hrun.1

/-- **A quiet run goes from row to row**, if the builder reports something wherever it meets the end
mark: no end mark is taken off the row, and the builder accepts what is. -/
theorem Heeds.run_row {ts : List Token} (h : b.Heeds Short False) (hs : s.stream.Row ts)
    (hrun : b.Quiet s a s') :
    ∃ rest, s'.stream.Row rest ∧ marks rest = marks ts ∧
      ∀ mark cs, ∃ cs', b.accept mark (ts, cs) = some (a, rest, cs') := by
  induction b generalizing s ts with
  | done a' =>
    cases hrun.1
    exact ⟨ts, hs, rfl, fun mark cs => ⟨cs, rfl⟩⟩
  | next k ih =>
    rcases hs.next with ⟨t, rest, stream, rfl, ht, hn, hrow⟩ | ⟨t, stream, ht, hn, hmarked⟩
    · have hk := h t False.elim
      rw [eq_false ht] at hk
      obtain ⟨us, hus, hmarks, hacc⟩ :=
        ih t hk (s := { s with stream }) hrow (hrun.of_next hn)
      exact ⟨us, hus, hmarks.trans (marks_cons ht rest).symm, hacc⟩
    · have hk := h t False.elim
      rw [eq_true ht] at hk
      exact absurd trivial
        (hk.run_marked (s := { s with stream }) hmarked (hrun.of_next hn))
  | back t k ih =>
    obtain ⟨stream, hb, hquiet⟩ := hrun.of_back
    have ht : t.kind ≠ .eof := fun ht => h.1.1 ht
    obtain ⟨us, hus, hmarks, hacc⟩ :=
      ih h.2 (s := { s with stream }) (hs.putBack ht hb) hquiet
    exact ⟨us, hus, hmarks.trans (marks_cons ht ts), hacc⟩
  | report p t k ih => exact (not_quiet_report hrun).elim
  | declare c k ih =>
    obtain ⟨us, hus, hmarks, hacc⟩ :=
      ih h (s := { s with consts := s.consts ++ [c] }) hs hrun
    exact ⟨us, hus, hmarks, fun mark cs => hacc mark (cs ++ [c])⟩
  | fault f => cases hrun.1

end Builder

end ToyLang
