import ToyLang.Proofs.Extent.Expression
import ToyLang.Proofs.Locality.Expression

/-!
# Reading expressions from lists of tokens

`Builder.Reads` is a run without a report that takes a list of tokens up to a rest: nothing is put
back at the end, and the next token is the first one of the rest. An expression that is read up to
one stop token is read up to any other, and in any number of parentheses, with the same result up to
positions (`expression_extent`).

A run is turned into what the builder accepts by `Builder.Heeds.run_row`, and back by
`Builder.run_of_accept`; in between there is a phrase (`phrase_of_reads`, `reads_of_phrase`), and
expressions are compared as what they take (`Parser.Takes`).
-/

set_option autoImplicit false

namespace ToyLang

/-- From the tokens `ts` the builder comes to `a` and reports nothing, and just the tokens `rest`
are left. -/
def Builder.Reads {α : Type} (b : Nat → Builder α) (strict : Bool) (ts : List Token) (a : α)
    (rest : List Token) : Prop :=
  ∃ s, (Session.over (.ofList ts) strict).build b = (.ok a, s) ∧ s.diagnostics.items = #[] ∧
    s.stream = .ofList rest

open Builder

namespace Parser

variable {n : Nat} {stop : TokenKind} {first t : Token} {st : ExprState} {s s' : Session}
  {o : Operand} {ts us rest : List Token} {strict : Bool}

/-! ## The end of an expression -/

/-- What reads and goes on starts with nothing put back. -/
theorem run_read {f : Token → Builder Operand}
    (hrun : (Builder.read >>= f).run s = (.ok o, s')) :
    ∃ t stream, stream.held = none ∧ (f t).run { s with stream } = (.ok o, s') := by
  change (next f).run s = _ at hrun
  cases hn : s.stream.next with
  | mk r stream =>
    cases r with
    | error e =>
      simp only [Builder.run, hn] at hrun
      cases hrun
    | ok t => exact ⟨t, stream, Stream.held_of_next hn, (run_next f hn).symm.trans hrun⟩

/-- The token that ends an expression is not put back. -/
theorem held_expressionLoop (hs : s.stream.held = none)
    (hrun : (expressionLoop n stop first t st).run s = (.ok o, s')) : s'.stream.held = none := by
  induction n generalizing t st s with
  | zero => cases hrun
  | succ n ih =>
    rw [expressionLoop] at hrun
    split at hrun
    · have hstream := (idle_exprEnd stop first t st).stream_run s
      rw [hrun] at hstream
      exact (congrArg Stream.held hstream).trans hs
    · rw [run_bind] at hrun
      split at hrun
      · obtain ⟨u, stream, hheld, hrest⟩ := run_read hrun
        exact ih hheld hrest
      · cases hrun

theorem held_expression (hrun : (expression n stop).run s = (.ok o, s')) :
    s'.stream.held = none :=
  let ⟨_, _, hheld, hrest⟩ := run_read hrun
  held_expressionLoop hheld hrest

/-! ## Runs and what they take -/

/-- A quiet run of an expression leaves the stream of a rest, and accepts what it takes. -/
theorem expression_of_quiet (hstop : IsStop stop) (hs : s.stream = .ofList ts)
    (hquiet : (expression n stop).Quiet s o s') :
    ∃ rest, s'.stream = .ofList rest ∧ marks rest = marks ts ∧
      ∀ mark cs, ∃ cs', (expression n stop).accept mark (ts, cs) = some (o, rest, cs') := by
  obtain ⟨rest, hrow, hmarks, hacc⟩ :=
    (heeds_expression n hstop.ne_eof).run_row (hs ▸ Stream.row_ofList ts) hquiet
  exact ⟨rest, hrow.eq_ofList (held_expression hquiet.1), hmarks, hacc⟩

/-- **A quiet run of an expression reads a phrase** up to a stop token, and comes to what the phrase
comes to. -/
theorem phrase_of_quiet (hstop : IsStop stop) (hs : s.stream = .ofList ts)
    (hquiet : (expression n stop).Quiet s o s') :
    ∃ (ph : Phrase) (t : Token) (rest : List Token), ts = ph.tokens ++ t :: rest ∧ t.kind = stop ∧
      s'.stream = .ofList rest ∧ ph.Apart ∧ ph.outcome t = some o := by
  obtain ⟨rest, hrest, -, hacc⟩ := expression_of_quiet hstop hs hquiet
  obtain ⟨cs', hacc⟩ := hacc (.endMark ⟨0, 0⟩) []
  obtain ⟨-, ph, t, hts, ht, hapart, hout⟩ := exists_phrase rfl hstop hacc
  exact ⟨ph, t, rest, hts, ht, hrest, hapart, hout⟩

/-- What is read up to a token and a rest is a phrase. -/
theorem phrase_of_reads (ht : IsStop t.kind)
    (h : Reads (expression · t.kind) strict (ts ++ t :: rest) o rest) :
    ∃ ph : Phrase, ph.tokens = ts ∧ ph.Apart ∧ ph.outcome t = some o := by
  obtain ⟨s, hrun, hitems, hstream⟩ := h
  obtain ⟨ph, u, us, hts, -, hus, hapart, hout⟩ := phrase_of_quiet ht rfl ⟨hrun, hitems⟩
  obtain rfl : us = rest := by
    have hfeed := congrArg Stream.feed (hus.symm.trans hstream)
    cases hfeed
    rfl
  obtain ⟨rfl, hu⟩ := List.append_inj hts (by simpa using congrArg List.length hts)
  obtain ⟨rfl, -⟩ := List.cons.inj hu
  exact ⟨ph, rfl, hapart, hout⟩

/-- What is read without a report is taken up to any stop token, and holds no end mark. -/
theorem takes_of_reads (ht : IsStop t.kind)
    (h : Reads (expression · t.kind) strict (ts ++ t :: rest) o rest) :
    marks ts = 0 ∧ Takes ((ts ++ t :: rest).length + 1) ts o := by
  obtain ⟨ph, rfl, hapart, hout⟩ := phrase_of_reads ht h
  exact ⟨ph.marks_tokens, (takes_phrase hapart hout).mono (by simp)⟩

/-- Tokens without an end mark are delivered up to the next token. -/
theorem ahead_of_marks (hts : marks ts = 0) (ht : t.kind ≠ .eof) (rest : List Token) :
    ∃ vs, (Stream.ofList (ts ++ t :: rest)).view.ahead = ts ++ t :: vs := by
  have hne : ∀ u ∈ ts, u.kind ≠ .eof := by simpa [marks, List.countP_eq_zero] using hts
  refine ⟨(View.upToMark (.ok (.endMark ⟨0, 0⟩)) rest).ahead, ?_⟩
  show (View.upToMark (.ok (.endMark ⟨0, 0⟩)) (ts ++ t :: rest)).ahead = _
  rw [View.upToMark_append _ hne, View.upToMark, if_neg ht]

/-- What is accepted with a bound that is large enough, whatever follows, is read without a report,
whether reports are collected or not. -/
theorem reads_of_accepted (ht : IsStop t.kind) (hts : marks ts = 0)
    (h : ∀ m ≥ (ts ++ t :: rest).length + 1, ∀ mark vs cs,
      (expression m t.kind).accept mark (ts ++ t :: vs, cs) = some (o, vs, cs)) (strict : Bool) :
    Reads (expression · t.kind) strict (ts ++ t :: rest) o rest := by
  let mark := endMarkOf (ts ++ t :: rest)
  let stream := Stream.ofList (ts ++ t :: rest)
  obtain ⟨vs, hahead⟩ := ahead_of_marks hts ht.ne_eof rest
  have hdelivered : (expression (stream.size + 1) t.kind).accept mark (stream.view.ahead, []) =
      some (o, vs, []) := by
    rw [hahead]
    exact h _ (Nat.le_refl _) mark vs []
  have hensures := nested_expression (stream.size + 1) t.kind stream.view stream.size
    (Stream.view_within rfl rfl) (Nat.lt_succ_self _)
  obtain ⟨s, hrun, -, -, -, hdiagnostics⟩ := run_of_accept mark (s := .over stream strict)
    (close_view_ofList _) hensures hdelivered
  have hitems : s.diagnostics.items = #[] := congrArg Diagnostics.items hdiagnostics
  -- the view does not tell where the feed stands; what is left of the list does
  obtain ⟨us, hus, -, hacc⟩ := expression_of_quiet ht rfl ⟨hrun, hitems⟩
  obtain ⟨cs', hacc⟩ := hacc mark []
  cases (h _ (Nat.le_refl _) mark rest []).symm.trans hacc
  exact ⟨s, hrun, hitems, hus⟩

/-- What is taken is read without a report. -/
theorem reads_of_takes (ht : IsStop t.kind) (hts : marks ts = 0)
    (h : Takes ((ts ++ t :: rest).length + 1) ts o) (strict : Bool) :
    ∃ o', Reads (expression · t.kind) strict (ts ++ t :: rest) o' rest ∧
      o'.unplaced = o.unplaced := by
  obtain ⟨o', hsame, htakes⟩ := h t ht
  exact ⟨o', reads_of_accepted ht hts htakes strict, hsame⟩

/-- **A phrase is read without a report**, if it comes to a result. -/
theorem reads_of_phrase {ph : Phrase} (hapart : ph.Apart) (ht : IsStop t.kind)
    (h : ph.outcome t = some o) (rest : List Token) (strict : Bool) :
    Reads (expression · t.kind) strict (ph.tokens ++ t :: rest) o rest := by
  refine reads_of_accepted ht ph.marks_tokens (fun m hm mark vs cs => ?_) strict
  obtain ⟨m, rfl⟩ : ∃ k, m = k + 1 := ⟨m - 1, by omega⟩
  simp only [List.length_append] at hm
  rw [Phrase.accept_expression hapart rfl ht (by omega), h]
  rfl

/-- **The extent of an expression** does not depend on the stop token, and groups are transparent:
if an expression is read up to the stop token `t` without a report, it is read up to any stop token
`u`, and in any number of parentheses, with the same result up to positions; and so it is whether
the session fails fast or not. -/
theorem expression_extent (ht : IsStop t.kind)
    (h : Reads (expression · t.kind) strict (ts ++ t :: rest) o rest) :
    (∀ u, IsStop u.kind → ∀ strict', ∃ o',
      Reads (expression · u.kind) strict' (ts ++ u :: rest) o' rest ∧ o'.unplaced = o.unplaced) ∧
    ∀ pairs : List (Token × Token),
      (∀ p ∈ pairs, p.1.kind = .punct .lparen ∧ p.2.kind = .punct .rparen) → ∀ strict', ∃ o',
        Reads (expression · t.kind) strict' (grouped pairs ts ++ t :: rest) o' rest ∧
          o'.unplaced = o.unplaced := by
  obtain ⟨hmarks, htakes⟩ := takes_of_reads ht h
  refine ⟨fun u hu strict' => ?_, fun pairs hpairs strict' => ?_⟩
  · exact reads_of_takes hu hmarks (htakes.mono (by simp)) strict'
  · refine reads_of_takes ht ?_ ((htakes.grouped hpairs).mono ?_) strict'
    · rw [marks_grouped hpairs, hmarks]
    · simp only [List.length_append, List.length_cons, length_grouped]
      omega

/-- `:= f(a, 2)` up to a semicolon, and up to `do` or in two pairs of parentheses; an end mark comes
behind it. -/
theorem assigned_call_extent :
    let token (kind : TokenKind) (text : String) : Token := ⟨kind, .text text, ⟨1, 1⟩⟩
    let gets := token (.operator .assign) ":="
    let ts := [gets, token .ident "f", token (.punct .lparen) "(", token .ident "a",
      token (.punct .comma) ",", ⟨.number, .int 2, ⟨1, 1⟩⟩, token (.punct .rparen) ")"]
    let call : Expr := { kind := .call, value := .text "f", pos := ⟨1, 1⟩, args := [
      { kind := .list, pos := ⟨1, 1⟩, items := [.identifier (.text "a") ⟨1, 1⟩,
        { kind := .int, value := .int 2, pos := ⟨1, 1⟩ }] }] }
    let o := Operand.pending ⟨call, gets⟩
    let t := token (.punct .semicolon) ";"
    let u := token (.keyword .do_) "do"
    let pair := (token (.punct .lparen) "(", token (.punct .rparen) ")")
    let rest := [.endMark ⟨1, 1⟩, token .ident "b"]
    IsStop t.kind ∧ Reads (expression · t.kind) false (ts ++ t :: rest) o rest ∧
      (∃ o', Reads (expression · u.kind) false (ts ++ u :: rest) o' rest ∧
        o'.unplaced = o.unplaced) ∧
      ∃ o', Reads (expression · t.kind) false (grouped [pair, pair] ts ++ t :: rest) o' rest ∧
        o'.unplaced = o.unplaced := by
  intro token gets ts call o t u pair rest
  have ht : IsStop t.kind := by simp [t, token, IsStop]
  have hreads : Reads (expression · t.kind) false (ts ++ t :: rest) o rest :=
    ⟨_, rfl, rfl, rfl⟩
  have hextent := expression_extent ht hreads
  have hu : IsStop u.kind := by simp [u, token, IsStop]
  exact ⟨ht, hreads, hextent.1 u hu false, hextent.2 [pair, pair] (by decide) false⟩

end Parser

end ToyLang
