import ToyLang.Proofs.Accept
import ToyLang.Proofs.Accepted.File
import ToyLang.Proofs.Lexable.Statement
import ToyLang.Proofs.Origin.File

/-!
# What is parsed can be written and read again

Whatever is reported when a text is parsed, the file has a text of its own without lexical errors,
so that it can be parsed again.

* `File.From.unparse_yields`: files from the tokens of a text;
* `unparse_lexable`: the parser makes no other ones.
-/

set_option autoImplicit false

namespace ToyLang

/-! ## Declarations -/

namespace TypedName

variable {t : TypedName}

theorem From.clean_const (h : t.From Token.Lexed) : Clean t.printConst := by
  obtain ⟨text, htext, hvalue⟩ := h.value.writable.text
  exact Clean.of_ok htext (clean_line (lexable_const h.name.name t.dataType hvalue))

theorem lexable_typed (h : MaybeName t.name) : Lexable t.typed :=
  (lexable_name h).colon.then_lexable (lexable_type t.dataType)

theorem From.clean_item (h : t.From Token.Lexed) : Clean t.printItem := by
  obtain ⟨text, htext, hbounded, hvalue⟩ := h.value.printInitializer
  exact Clean.of_ok htext (clean_line
    ((lexable_typed h.name.name).then_lexable hbounded hvalue).semicolon)

end TypedName

theorem Struct.From.clean {s : Struct} (h : s.From Token.Lexed) : Clean s.print := by
  have hline := ((sealed_keyword (s := "struct ") .struct_ rfl).then_lexable
    (lexable_name h.name.name)).then_keyword (t := " is") .is_ rfl
  exact (clean_line hline).then
    ((clean_nested (clean_forM fun i hi => (h.items i hi).clean_item)).then clean_end)

/-! ## Functions -/

namespace Function

variable {f : Function}

theorem noErrors_typeTokens (f : Function) : NoErrors f.typeTokens := by
  unfold typeTokens
  cases f.dataType with
  | void => exact noErrors_nil
  | scalar s => exact (noErrors_punct .arrow).append (noErrors_single (by simp [Token.ofScalar]))

theorem From.lexable_header (h : f.From Token.Lexed) : Lexable f.header := by
  obtain ⟨ns, hns, hname⟩ := lexable_name h.name.name
  have hparams : ∀ s ∈ f.args.map TypedName.typed, Lexable s := by
    intro s hs
    obtain ⟨a, ha, rfl⟩ := List.mem_map.1 hs
    exact TypedName.lexable_typed (h.args a ha).name.name
  obtain ⟨ps, hps, hparams⟩ := lexable_intercalate hparams
  refine ⟨_, ?_, Function.spells_header hname hparams⟩
  have hargs : NoErrors (if f.args.isEmpty then [] else inParentheses ps) := by
    split
    · exact noErrors_nil
    · exact hps.inParentheses
  have hfront := ((noErrors_keyword .func_).append hns).append hargs
  exact (hfront.append f.noErrors_typeTokens).append (noErrors_keyword .is_)

theorem From.clean (h : f.From Token.Lexed) : Clean f.print := by
  obtain ⟨ss, hblock, hss⟩ := h.block
  have hbody : Clean f.block.print := by
    rw [hblock]
    exact Stmt.clean_all fun s hs => (hss.members s hs).clean
  exact (clean_line h.lexable_header).then ((clean_nested
    ((clean_forM fun c hc => (h.consts c hc).clean_const).then hbody)).then clean_end)

end Function

/-! ## Imports -/

/-- Names and slashes make a path. -/
theorem IsPathFrom.isPath {path : String} (h : IsPathFrom Token.Lexed path) :
    IsPath False path := by
  induction h with
  | empty => exact .empty
  | name t path ht hk _ ih =>
    obtain ⟨s, hs, hname⟩ := ht.name hk
    rw [hs]
    exact ih.word hname.1
  | slash path _ ih => exact ih.slash

theorem noErrors_wordTokens (w : List Char) : NoErrors (wordTokens w) := by
  unfold wordTokens
  split
  · exact noErrors_nil
  · exact noErrors_word _

theorem noErrors_wordsTokens (ws : List (List Char)) : NoErrors (wordsTokens ws) := by
  induction ws with
  | nil => exact noErrors_nil
  | cons w ws ih =>
    cases ws with
    | nil => exact noErrors_wordTokens w
    | cons w' ws =>
      exact (noErrors_wordTokens w).append ((noErrors_punct .dot).append ih)

theorem IsPathFrom.clean {path : String} (h : IsPathFrom Token.Lexed path) :
    Clean (Printing.line (importText path)) := by
  have hwords := noErrors_wordsTokens (path.toList.splitOn '/')
  refine ⟨importTokens path, ?_, h.isPath.writes⟩
  exact ((noErrors_keyword .import_).append hwords).append (noErrors_punct .semicolon)

/-! ## Files -/

/-- **A file from the tokens of a text has a text, which is read without errors.** -/
theorem File.From.unparse_yields {f : File} (h : f.From Token.Lexed) :
    ∃ text ts, f.unparse = .ok text ∧ NoErrors ts ∧ Yields text.toList ts := by
  obtain ⟨is, his, himports⟩ := clean_forM fun path hp => (h.imports path hp).clean
  obtain ⟨cs, hcs, hconsts⟩ := clean_forM fun c hc => (h.consts c hc).clean_const
  obtain ⟨ss, hss, hstructs⟩ := clean_forM fun s hs => (h.structs s hs).clean.gap
  obtain ⟨fs, hfs, hfunctions⟩ := clean_forM fun g hg => (h.functions g hg).clean.gap
  obtain ⟨text, htext, hyields⟩ := File.unparse_of_writes himports hconsts hstructs hfunctions
  exact ⟨text, _, htext, his.append (hcs.append (hss.append hfs)), hyields⟩

/-- A file that is parsed is from the tokens of its text, whatever is reported. -/
theorem File.from_of_parse {source name : String} {f : File} {s : Session}
    (h : parse source name = (.ok f, s)) : f.From Token.Lexed := by
  have hmakes := Parser.makes_file (T := Token.Lexed) name ((Stream.ofText source).size + 1)
  have hdelivered := hmakes.delivered (s := .over (.ofText source) false)
    (Stream.lexed_ofText source)
  exact (hmakes.run_over hdelivered).result f (congrArg Prod.fst h)

/-! ## Texts -/

/-- No token of a text that is read as tokens without errors is an error, the end mark included. -/
theorem Yields.tokens_ne_error {text : String} {ts : List Token} (h : Yields text.toList ts)
    (hts : NoErrors ts) : NoErrors (Cursor.ofText text).tokens.1 := by
  intro t ht
  have hbare : t.bare ∈ ts ++ [Token.endMark ⟨0, 0⟩] := by
    rw [← (h .start).1]
    exact List.mem_map_of_mem ht
  rcases List.mem_append.1 hbare with hmem | hmem
  · exact hts t.bare hmem
  · have hkind : t.kind = .eof := congrArg Token.kind (List.mem_singleton.1 hmem)
    simp [hkind]

/-- **A file that is parsed can be written and read again**, whatever is reported: its text is read
to its end, as tokens none of which is an error, and parsed as some file. -/
theorem unparse_lexable {source name : String} {f : File} {s : Session}
    (h : parse source name = (.ok f, s)) :
    ∃ text, f.unparse = .ok text ∧ (Cursor.ofText text).tokens.2 = none ∧
      (∀ t ∈ (Cursor.ofText text).tokens.1, t.kind ≠ .error) ∧
      ∀ name', ∃ g s', parse text name' = (.ok g, s') := by
  obtain ⟨text, ts, htext, hts, hyields⟩ := (File.from_of_parse h).unparse_yields
  obtain ⟨mark, -, hclose, -⟩ := hyields.view
  refine ⟨text, htext, (hyields.tokens .start).2, hyields.tokens_ne_error hts, fun name' => ?_⟩
  obtain ⟨g, s', hparse, -⟩ := parse_accept hclose name'
  exact ⟨g, s', hparse⟩

/-- An assignment without a target, and a type that is none. -/
theorem unparse_lexable_malformed :
    ∃ f s, parse "func f is x := := 1; var y : a; end" = (.ok f, s) ∧
      s.diagnostics.items.size = 2 ∧
        ∃ text, f.unparse = .ok text ∧ (Cursor.ofText text).tokens.2 = none ∧
          (∀ t ∈ (Cursor.ofText text).tokens.1, t.kind ≠ .error) ∧
          ∀ name', ∃ g s', parse text name' = (.ok g, s') := by
  obtain ⟨f, hf⟩ | ⟨e, he⟩ := parse_ends "func f is x := := 1; var y : a; end" ""
  · exact ⟨f, _, Prod.ext hf rfl, rfl, unparse_lexable (Prod.ext hf rfl)⟩
  · cases he

end ToyLang
