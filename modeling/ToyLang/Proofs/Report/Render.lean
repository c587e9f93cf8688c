import ToyLang.Proofs.Origin.Location
import ToyLang.Proofs.Report.Lines

/-!
# Rendered diagnostics line by line

A token of a text has a line feed only if it is free text: a string, a character or an error
(`Token.Plain`, `Cursor.plain_tokens`). Since messages quote tokens of other kinds only, the text of
a diagnostic has the line feeds of the token that it carries and no others
(`Problem.lineFeeds_text`). So the rendered diagnostics of a text are one line each if and only if
no reported token has a line feed: `rendered_lines`. A string over two lines makes two lines of one
diagnostic (`spanningString_two_lines`).
-/

set_option autoImplicit false

namespace ToyLang

open Text (lineFeeds)

/-! ## Words, names and numbers -/

namespace Text

theorem lineFeeds_toString (s : String) : lineFeeds (toString s) = lineFeeds s := rfl

theorem lineFeeds_ofList_eq_zero {cs : List Char} (h : '\n' ∉ cs) :
    lineFeeds (String.ofList cs) = 0 := by
  rwa [lineFeeds_eq_zero_iff, String.toList_ofList]

theorem lineFeeds_nat (n : Nat) : lineFeeds (toString n) = 0 := by
  rw [Nat.toString_eq_repr, lineFeeds_eq_zero_iff, Nat.toList_repr]
  intro h
  exact absurd (Nat.isDigit_of_mem_toDigits (by decide) (by decide) h) (by decide)

theorem lineFeeds_int (n : Int) : lineFeeds (toString n) = 0 := by
  cases n with
  | ofNat n => exact lineFeeds_nat n
  | negSucc n =>
    show lineFeeds ("-" ++ toString (n + 1)) = 0
    rw [lineFeeds_append, lineFeeds_nat]
    rfl

end Text

namespace TokenKind

theorem lineFeeds_of_mem_fixed {k : TokenKind} (h : k ∈ fixed) :
    lineFeeds k.name = 0 ∧ lineFeeds k.display = 0 := by
  revert k
  decide +kernel

theorem mem_fixed_of_isSome_spelling {k : TokenKind} (h : k.spelling?.isSome) : k ∈ fixed := by
  cases k with
  | keyword k => simp [fixed, Keyword.mem_all]
  | type s => simp [fixed, Scalar.mem_all]
  | punct p => simp [fixed, Punct.mem_all]
  | operator o => simp [fixed, Operator.mem_all]
  | _ => cases h

theorem free_subset_fixed : free ⊆ fixed := by decide

end TokenKind

/-! ## Tokens of a text -/

/-- The token is of a kind that the lexer makes, and has a line feed only if it is free text. -/
structure Token.Plain (t : Token) : Prop where
  kind : t.kind ∈ TokenKind.fixed
  value : t.kind ∉ TokenKind.free → lineFeeds t.value.display = 0

theorem Token.plain_endMark (p : Pos) : (endMark p).Plain :=
  ⟨show TokenKind.eof ∈ TokenKind.fixed by decide, fun _ => show lineFeeds "EOF" = 0 by decide⟩

theorem IsLexeme.plain {k : TokenKind} {v : Payload} {text rest : List Char}
    (h : IsLexeme k v text rest) (p : Pos) : (Token.mk k v p).Plain := by
  have free {k : TokenKind} (hk : k ∈ TokenKind.free) (v : Payload) : (Token.mk k v p).Plain :=
    ⟨TokenKind.free_subset_fixed hk, fun hfree => absurd hk hfree⟩
  cases h with
  | @word _ c cs _ hk start tail =>
    refine ⟨?_, fun _ => Text.lineFeeds_ofList_eq_zero fun hmem => ?_⟩
    · rcases hk with ⟨k, rfl, -⟩ | ⟨s, rfl, -⟩ | ⟨rfl, -⟩
      · exact TokenKind.mem_fixed_of_isSome_spelling rfl
      · exact TokenKind.mem_fixed_of_isSome_spelling rfl
      · show TokenKind.ident ∈ TokenKind.fixed
        decide
    · rcases List.mem_cons.1 hmem with rfl | hmem
      · exact absurd start (by decide)
      · exact absurd (tail _ hmem) (by decide)
  | number =>
    exact ⟨show TokenKind.number ∈ TokenKind.fixed by decide, fun _ => Text.lineFeeds_int _⟩
  | largeNumber | malformedChar | stray => exact free (k := .error) (by decide) _
  | string => exact free (k := .string) (by decide) _
  | char => exact free (k := .char) (by decide) _
  | symbol hk =>
    have hspelling : k.spelling?.isSome ∧ lineFeeds (String.ofList text) = 0 := by
      rcases hk with ⟨s, rfl, rfl⟩ | ⟨o, rfl, rfl⟩
      · refine ⟨rfl, ?_⟩
        cases s <;> decide
      · refine ⟨rfl, ?_⟩
        cases o <;> decide
    exact ⟨TokenKind.mem_fixed_of_isSome_spelling hspelling.1, fun _ => hspelling.2⟩

/-- **Only strings, characters and errors of a text have line feeds.** -/
theorem Cursor.plain_tokens (c : Cursor) : ∀ t ∈ c.tokens.1, t.Plain :=
  c.forall_tokens (fun _ _ _ _ p h => h.plain p) Token.plain_endMark

/-! ## Texts of diagnostics -/

namespace Problem

variable {p : Problem} {t : Token}

theorem lineFeeds_message (h : p.Quotes t) (ht : t.Plain) : lineFeeds p.message = 0 := by
  have quoting {before word behind : String} (hword : lineFeeds word = 0)
      (hbefore : lineFeeds before = 0) (hbehind : lineFeeds behind = 0) :
      lineFeeds (before ++ word ++ behind) = 0 := by
    simp only [Text.lineFeeds_append, hword, hbefore, hbehind]
  -- the messages that quote something, and then those that are texts of their own
  cases p with
  | strayClause word | clauseAfterElse word | elementAssignment word | initializer word
  | missingOperand word =>
    obtain ⟨rfl, hk⟩ := h
    exact quoting (ht.value hk) (by decide) (by decide)
  | expressionEnd stop =>
    have hstop := TokenKind.mem_fixed_of_isSome_spelling h
    exact quoting (TokenKind.lineFeeds_of_mem_fixed hstop).2 (by decide) (by decide)
  | leftovers count => exact quoting (Text.lineFeeds_nat count) (by decide) (by decide)
  | _ => exact Text.lineFeeds_ofList_eq_zero (by decide)

/-- The text of a diagnostic has the line feeds of the token that it carries. -/
theorem lineFeeds_text (h : p.Quotes t) (ht : t.Plain) :
    lineFeeds (p.seenAt t).text = lineFeeds t.value.display := by
  have hlabel : lineFeeds p.kind.label = 0 := by
    generalize p.kind = k
    cases k <;> decide
  have hname := (TokenKind.lineFeeds_of_mem_fixed ht.kind).1
  simp only [Diagnostic.text, seenAt, Diagnostic.seenAt, Token.display, Text.lineFeeds_append,
    Text.lineFeeds_toString, Text.lineFeeds_int, hlabel, hname, lineFeeds_message h ht]
  simp [lineFeeds]

end Problem

/-! ## The diagnostics of a text -/

/-- Every diagnostic of a text is a problem seen at a token of the text, and quotes this one. -/
theorem quotes_of_mem_diagnostics {source name : String} {strict : Bool} {d : Diagnostic}
    (h : d ∈ (parse source name strict).2.diagnostics.items) :
    ∃ (p : Problem) (t : Token), t ∈ (Cursor.ofText source).tokens.1 ∧ p.Quotes t ∧
      d = p.seenAt t := by
  obtain ⟨p, t, ht, hquotes, rfl⟩ := (made_parse source name strict).reports d h
  exact ⟨p, t, ht.1, hquotes, rfl⟩

theorem lineFeeds_of_mem_diagnostics {source name : String} {strict : Bool} {d : Diagnostic}
    (h : d ∈ (parse source name strict).2.diagnostics.items) :
    ∃ t ∈ (Cursor.ofText source).tokens.1, d.token = some t ∧
      lineFeeds d.text = lineFeeds t.value.display := by
  obtain ⟨p, t, ht, hquotes, rfl⟩ := quotes_of_mem_diagnostics h
  exact ⟨t, ht, rfl, Problem.lineFeeds_text hquotes (Cursor.plain_tokens _ t ht)⟩

/-- **Rendered diagnostics, line by line.** Each diagnostic of a text takes a line, and one more for
every line feed in the token that it carries, which is a token of the text and has line feeds only
if it is a string, a character or an error. So the lines of the rendered diagnostics are one for
each if and only if no reported token has a line feed, in particular if no token of the text has
one. -/
theorem rendered_lines (source name : String) (strict : Bool) :
    let ds := (parse source name strict).2.diagnostics
    (Text.lines ds.render = ds.entries ↔
        ∀ d ∈ ds.items, ∀ t ∈ d.token, lineFeeds t.value.display = 0) ∧
      Text.lines ds.render = ds.entries.flatMap Text.lines ∧
      (∀ d ∈ ds.items, ∃ t ∈ (Cursor.ofText source).tokens.1, d.token = some t ∧
        (Text.lines ("Error: " ++ d.text)).length = lineFeeds t.value.display + 1 ∧
        (t.kind ∉ TokenKind.free → lineFeeds t.value.display = 0)) ∧
      ((∀ t ∈ (Cursor.ofText source).tokens.1, lineFeeds t.value.display = 0) →
        Text.lines ds.render = ds.entries) := by
  intro ds
  have hone : Text.lines ds.render = ds.entries ↔
      ∀ d ∈ ds.items, ∀ t ∈ d.token, lineFeeds t.value.display = 0 := by
    rw [Diagnostics.lines_render_eq_entries_iff]
    refine forall_congr' fun d => forall_congr' fun hd => ?_
    obtain ⟨t, -, htoken, htext⟩ := lineFeeds_of_mem_diagnostics hd
    simp [htoken, htext]
  refine ⟨hone, ds.lines_render, fun d hd => ?_, fun hplain => hone.2 fun d hd t htoken => ?_⟩
  · obtain ⟨t, ht, htoken, htext⟩ := lineFeeds_of_mem_diagnostics hd
    have hlength : (Text.lines ("Error: " ++ d.text)).length = lineFeeds t.value.display + 1 := by
      rw [Text.length_lines (by simp [String.append_eq_empty_iff]), Text.lineFeeds_append, htext,
        show lineFeeds "Error: " = 0 by decide, Nat.zero_add]
    exact ⟨t, ht, htoken, hlength, (Cursor.plain_tokens _ t ht).value⟩
  · obtain ⟨u, hu, htoken', -⟩ := lineFeeds_of_mem_diagnostics hd
    obtain rfl : u = t := Option.some.inj (htoken'.symm.trans htoken)
    exact hplain u hu

/-- A string on one line and an operator out of place are two lines. -/
theorem strayTokens_rendered_lines :
    let ds := (parse "\x22a b\x22 +").2.diagnostics
    (∀ t ∈ (Cursor.ofText "\x22a b\x22 +").tokens.1, lineFeeds t.value.display = 0) ∧
      Text.lines ds.render = ds.entries ∧ ds.entries.length = 2 := by
  intro ds
  have hplain : ∀ t ∈ (Cursor.ofText "\x22a b\x22 +").tokens.1, lineFeeds t.value.display = 0 := by
    decide +kernel
  exact ⟨hplain, (rendered_lines "\x22a b\x22 +" "" false).2.2.2 hplain, by decide +kernel⟩

/-- A string over two lines, out of place, is one diagnostic and two lines. -/
theorem spanningString_two_lines :
    let ds := (parse "\x22a\nb\x22").2.diagnostics
    (parse "\x22a\nb\x22").1.toOption = some {} ∧ ds.items.size = 1 ∧
      Text.lines ds.render =
        ["Error: 1:1: error[unexpected-toplevel]: Unknown token in global scope. (got Token(STRING, a",
          "b))"] ∧
      Text.lines ds.render ≠ ds.entries := by
  decide +kernel

end ToyLang
