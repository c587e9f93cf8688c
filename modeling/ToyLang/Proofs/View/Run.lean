import ToyLang.Proofs.Accept
import ToyLang.Proofs.Lexing.Text
import ToyLang.Proofs.Widening.File

/-!
# Runs depend on what the stream delivers

A builder sees its stream through reads and put-backs only, so sessions with the same tokens to come
lead to the same result and the same reports (`Builder.run_sameView`), whatever the streams are
made of and whether reports are collected or not.

For the parser this means that it does not matter whether the tokens of a text are made one at a
time, when a builder asks for them, or all of them beforehand (`lexing_on_demand_agrees`). The size
of a stream, which depends on how it is made, is only a bound (`run_file_sameView`). Since a parse
with reports collected comes to the end of its stream, it meets the failure of a text that breaks
off wherever that is.
-/

set_option autoImplicit false

namespace ToyLang

/-! ## Streams with one view -/

/-- Putting back over a token names the token in the place, which is the next one. -/
theorem Stream.putBack_of_held {s : Stream} (hheld : s.view.held = true) (t : Token) :
    ∃ h ts, s.view.ahead = h :: ts ∧ s.putBack t = .error ⟨h, t⟩ := by
  rw [view_held] at hheld
  obtain ⟨feed, _ | h, ended⟩ := s
  · cases hheld
  · exact ⟨h, _, rfl, rfl⟩

/-- Streams with the same tokens to come read the same; whether the first one was put back does not
matter. -/
theorem Stream.next_alike {s s' : Stream} (hahead : s.view.ahead = s'.view.ahead)
    (hclose : s.view.close = s'.view.close) :
    ∃ r t t', s.next = (r, t) ∧ s'.next = (r, t') ∧ t.view = t'.view := by
  have hnext : s.view.next = s'.view.next := by rw [View.next, View.next, hahead, hclose]
  have hr : s.next.1 = s'.next.1 := by rw [s.next_view.1, s'.next_view.1, hnext]
  have hview : s.next.2.view = s'.next.2.view := by rw [s.next_view.2, s'.next_view.2, hnext]
  exact ⟨s.next.1, s.next.2, s'.next.2, rfl, Prod.ext hr.symm rfl, hview⟩

/-- Two sessions with the same tokens to come and the same reports. What their streams are made of
and which constants are declared is left open. -/
structure Session.SameView (s s' : Session) : Prop where
  view : s.stream.view = s'.stream.view
  diagnostics : s.diagnostics = s'.diagnostics

/-- **Runs depend on the view of the stream alone**, whatever the policy. -/
theorem Builder.run_sameView {α : Type} (b : Builder α) {s s' : Session} (h : s.SameView s') :
    (b.run s).1 = (b.run s').1 ∧ (b.run s).2.SameView (b.run s').2 := by
  induction b generalizing s s' with
  | done a => exact ⟨rfl, h⟩
  | next k ih =>
    obtain ⟨r, stream, stream', hn, hn', hview⟩ :=
      Stream.next_alike (congrArg View.ahead h.view) (congrArg View.close h.view)
    simp only [run, hn, hn']
    cases r with
    | ok t => exact ih t ⟨hview, h.diagnostics⟩
    | error e => exact ⟨rfl, hview, h.diagnostics⟩
  | back t k ih =>
    cases hheld : s.stream.view.held with
    | false =>
      obtain ⟨stream, hb, hview⟩ := (s.stream.putBack_view t).1 hheld
      obtain ⟨stream', hb', hview'⟩ := (s'.stream.putBack_view t).1 (h.view ▸ hheld)
      rw [run_back k hb, run_back k hb']
      exact ih ⟨by rw [hview, hview', h.view], h.diagnostics⟩
    | true =>
      obtain ⟨t₀, ts, hahead, hb⟩ := Stream.putBack_of_held hheld t
      obtain ⟨t₀', ts', hahead', hb'⟩ := Stream.putBack_of_held (h.view ▸ hheld) t
      rw [← h.view, hahead] at hahead'
      obtain rfl := (List.cons.inj hahead').1
      simp only [run, hb, hb', true_and]
      exact h
  | report p t k ih =>
    simp only [run, ← h.diagnostics]
    split
    · exact ih ⟨h.view, rfl⟩
    · exact ⟨rfl, h.view, rfl⟩
  | declare c k ih => exact ih ⟨h.view, h.diagnostics⟩
  | fault f => exact ⟨rfl, h⟩

/-- Behind a read nothing tells whether the token was put back before. -/
theorem Builder.run_read_sameView {α : Type} (f : Token → Builder α) {s s' : Session}
    (hahead : s.stream.view.ahead = s'.stream.view.ahead)
    (hclose : s.stream.view.close = s'.stream.view.close)
    (hdiagnostics : s.diagnostics = s'.diagnostics) :
    ((read >>= f).run s).1 = ((read >>= f).run s').1 ∧
      ((read >>= f).run s).2.SameView ((read >>= f).run s').2 := by
  show ((next f).run s).1 = ((next f).run s').1 ∧ ((next f).run s).2.SameView ((next f).run s').2
  obtain ⟨r, stream, stream', hn, hn', hview⟩ := Stream.next_alike hahead hclose
  simp only [run, hn, hn']
  cases r with
  | ok t => exact (f t).run_sameView ⟨hview, hdiagnostics⟩
  | error e => exact ⟨rfl, hview, hdiagnostics⟩

/-! ## The parser -/

/-- The parser, which begins with a read, builds the same from sessions that deliver the same, each
with a bound of its own. -/
theorem run_file_sameView {s s' : Session} (hahead : s.stream.view.ahead = s'.stream.view.ahead)
    (hclose : s.stream.view.close = s'.stream.view.close)
    (hdiagnostics : s.diagnostics = s'.diagnostics) {k n k' n' : Nat}
    (hv : s.stream.view.Within k) (hn : k < n) (hv' : s'.stream.view.Within k') (hn' : k' < n')
    (name : String) :
    ((Parser.file name n).run s).1 = ((Parser.file name n').run s').1 ∧
      ((Parser.file name n).run s).2.SameView ((Parser.file name n').run s').2 := by
  have hleft : s.stream.view.left = s'.stream.view.left := by rw [View.left, View.left, hahead]
  have hreach : s.stream.view.left < n' := hleft ▸ Nat.lt_of_le_of_lt hv'.left_le hn'
  rw [run_file_bound ⟨hv.sane, Nat.le_refl _⟩ (Nat.lt_of_le_of_lt hv.left_le hn) hreach name]
  exact Builder.run_read_sameView
    (fun t => Parser.fileLoop n' t >>= fun f => pure { f with name }) hahead hclose hdiagnostics

/-- With reports collected, a stream that breaks off is read up to where it does. -/
theorem build_of_close_error {stream : Stream} (hheld : stream.held = none)
    (hended : stream.ended = none) {e : LexicalError} (hc : stream.view.close = .error e)
    (name : String) :
    ((Session.over stream false).build (Parser.file name)).1 = .error (.lexical e) := by
  have hv := Stream.view_within hheld hended
  have hfile := (Parser.file_ensures hv (Nat.lt_succ_self _) name).close
  rcases Builder.run_of_ensures (s := .over stream false) rfl hfile with
    ⟨f, s, -, ⟨⟨mark, hmark, -⟩, hclose⟩, -⟩ | ⟨e', s, hrun, hc'⟩
  · -- a file is built at the end mark only, and there is none
    rw [hmark, hc] at hclose
    cases hclose
  · obtain rfl : e = e' := by
      have := hc.symm.trans hc'
      cases this
      rfl
    exact congrArg Prod.fst hrun

/-- A text and the list of its tokens deliver the same. -/
theorem view_ofList_tokens {source : String} {ts : List Token}
    (h : (Cursor.ofText source).tokens = (ts, none)) :
    (Stream.ofText source).view = (Stream.ofList ts).view := by
  show View.upToMark _ (Cursor.ofText source).tokens.1 = _
  rw [h]
  rfl

/-- **Lexing on demand and lexing beforehand agree.** If the text is lexed to its end, the parser
comes from the text to what it comes to from the list of the tokens, fails fast or not: to the same
file, report or failure, with the same diagnostics. If lexing breaks off, so does the parser with
reports collected, and with the same failure, whatever it has reported before. So the parser fails
on the texts that the lexer fails on, and on no others. -/
theorem lexing_on_demand_agrees (source name : String) :
    (match (Cursor.ofText source).tokens with
      | (ts, none) => ∀ strict,
          (parse source name strict).1 =
              ((Session.over (.ofList ts) strict).build (Parser.file name)).1 ∧
            (parse source name strict).2.diagnostics =
              ((Session.over (.ofList ts) strict).build (Parser.file name)).2.diagnostics
      | (_, some e) => (parse source name).1 = .error (.lexical e)) ∧
    ((∃ h, (parse source name).1 = .error h) ↔
      ∃ e, (Cursor.ofText source).tokens.2 = some e) := by
  obtain ⟨us, q, rest, -, -, ⟨-, htokens, hclose⟩ | ⟨e, htokens, hclose⟩⟩ :=
    exists_view_ofText source
  · rw [htokens]
    refine ⟨fun strict => ?_, ⟨fun ⟨h, hparse⟩ => ?_, fun ⟨e, he⟩ => by cases he⟩⟩
    · have hview : (Session.over (.ofText source) strict).stream.view =
          (Session.over (.ofList (us ++ [Token.endMark (q.after rest)])) strict).stream.view :=
        view_ofList_tokens htokens
      obtain ⟨hresult, hbehind⟩ := run_file_sameView
        (congrArg View.ahead hview) (congrArg View.close hview) rfl
        (Stream.view_within rfl rfl) (Nat.lt_succ_self _)
        (Stream.view_within rfl rfl) (Nat.lt_succ_self _) name
      exact ⟨hresult, hbehind.diagnostics⟩
    · obtain ⟨f, s, hbuild, -⟩ := build_accept rfl rfl hclose name
      have hf : (parse source name).1 = .ok f := congrArg Prod.fst hbuild
      rw [hf] at hparse
      cases hparse
  · have hparse : (parse source name).1 = .error (.lexical e) :=
      build_of_close_error rfl rfl hclose name
    rw [htokens]
    exact ⟨hparse, fun _ => ⟨e, rfl⟩, fun _ => ⟨_, hparse⟩⟩

end ToyLang
