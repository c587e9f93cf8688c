import ToyLang.Proofs.Hole.Statement
import ToyLang.Proofs.View.Run

/-!
# Missing operands in files

Functions and files, and with them every text: where nothing is reported, an operand of an operator
or an item of a list is missing only where the text has an empty pair of parentheses as a group
(`File.filled_of_parse`). Such a group is read as an absent expression, and nobody asks it for more,
so a missing operand need not be reported (`emptyGroups_accepted`).
-/

set_option autoImplicit false

namespace ToyLang

open Builder

/-- The parameters, the constants and the statements of a function miss nothing unexplained. -/
structure Function.Explained (src : Source) (g : Function) : Prop where
  args : ∀ a ∈ g.args, a.Filled src
  consts : ∀ c ∈ g.consts, c.Filled src
  block : g.block.AllExplained src

/-- The declarations of a file miss nothing unexplained. -/
structure File.Explained (src : Source) (f : File) : Prop where
  consts : ∀ c ∈ f.consts, c.Filled src
  structs : ∀ s ∈ f.structs, ∀ i ∈ s.items, i.Filled src
  functions : ∀ g ∈ f.functions, g.Explained src

namespace Parser

variable {src : Source} {before : List Token} {n : Nat} {t : Token}

/-! ## Functions -/

theorem leads_returnType : (returnType t).Leads src Somewhere before := by
  unfold returnType
  split
  · exact leads_pure trivial
  · exact leads_dataType.bind fun d _ _ => leads_read.bind fun u _ _ => leads_pure trivial

theorem leads_optionalParams :
    (optionalParams n t).Leads src (fun r _ => ∀ a ∈ r.1, a.Filled src) before := by
  unfold optionalParams
  split
  · exact leads_pure fun _ ha => absurd ha List.not_mem_nil
  · exact leads_params.bind fun args _ hargs => leads_read.bind fun u _ _ => leads_pure hargs

theorem leads_function : (function n).Leads src (fun g _ => g.Explained src) before := by
  refine (leads_nameOr _ _).bind fun r _ _ => leads_optionalParams.bind fun r' _ hargs => ?_
  refine leads_returnType.bind fun r'' _ _ => (leads_expect _ _).bind fun _ _ _ => ?_
  refine (leads_block n false).collected.bind fun b _ hb => ?_
  obtain ⟨hblock, hconsts⟩ := hb
  exact leads_pure ⟨hargs, hconsts, hblock⟩

/-! ## Files -/

theorem leads_fileLoop : (fileLoop n t).Leads src (fun f _ => f.Explained src) before := by
  induction n generalizing t before with
  | zero => exact leads_fault
  | succ n ih =>
    have more (add : File → File) {before : List Token}
        (hadd : ∀ f : File, f.Explained src → (add f).Explained src) :
        (do let file ← fileLoop n (← read); return add file : Builder File).Leads src
          (fun f _ => f.Explained src) before :=
      leads_read.bind fun _ _ _ => ih.bind fun f _ hf => leads_pure (hadd f hf)
    rw [fileLoop]
    split
    · exact leads_pure ⟨fun _ h => absurd h List.not_mem_nil, fun _ h => absurd h List.not_mem_nil,
        fun _ h => absurd h List.not_mem_nil⟩
    · refine leads_function.bind fun g _ hg => ?_
      exact more (fun file => { file with functions := g :: file.functions }) fun f hf =>
        { hf with functions := List.forall_mem_cons.2 ⟨hg, hf.functions⟩ }
    · refine leads_structDef.bind fun s _ hs => ?_
      exact more (fun file => { file with structs := s :: file.structs }) fun f hf =>
        { hf with structs := List.forall_mem_cons.2 ⟨hs, hf.structs⟩ }
    · refine leads_constant.bind fun c _ hc => ?_
      exact more (fun file => { file with consts := c :: file.consts }) fun f hf =>
        { hf with consts := List.forall_mem_cons.2 ⟨hc, hf.consts⟩ }
    · refine leads_importPath.bind fun path _ _ => ?_
      exact more (fun file => { file with imports := path :: file.imports }) fun f hf => { hf with }
    · exact leads_report

theorem leads_file (name : String) (n : Nat) :
    (file name n).Leads src (fun f _ => f.Explained src) before :=
  leads_read.bind fun _ _ _ => leads_fileLoop.bind fun _ _ hf => leads_pure { hf with }

end Parser

/-! ## Texts -/

theorem EmptyPair.append {ts before : List Token} {q : Pos} (h : EmptyPair ts before q)
    (us : List Token) : EmptyPair (ts ++ us) before q := by
  obtain ⟨l, r, after, rfl, hl, hr, hq⟩ := h
  exact ⟨l, r, after ++ us, by simp, hl, hr, hq⟩

namespace File

variable {source name : String} {f : File} {s : Session}

/-- What a text is parsed as without a report misses only what its tokens explain. -/
theorem explained_of_parse (h : parse source name = (.ok f, s))
    (hquiet : s.diagnostics.items = #[]) :
    ∃ src : Source, (Cursor.ofText source).tokens.1 = src.tokens ++ [src.mark] ∧
      f.Explained src := by
  obtain ⟨us, q, rest, -, hahead, ⟨-, htokens, hclose⟩ | ⟨e, -, hclose⟩⟩ :=
    exists_view_ofText source
  · refine ⟨⟨us, .endMark (q.after rest), rfl⟩, congrArg Prod.fst htokens, ?_⟩
    obtain ⟨f', s', hparse, ⟨-, st, hacc⟩ | ⟨hloud, -⟩⟩ := parse_accept hclose name
    · cases h.symm.trans hparse
      let src : Source := ⟨us, .endMark (q.after rest), rfl⟩
      have hsplit : src.Split [] (Stream.ofText source).view.ahead :=
        ⟨0, by rw [hahead]; exact (List.append_nil us).symm⟩
      obtain ⟨-, -, hf, -⟩ :=
        Parser.leads_file name _ _ _ _ _ _ hsplit (fun _ hc => absurd hc List.not_mem_nil) hacc
      exact hf
    · cases h.symm.trans hparse
      exact absurd hquiet hloud
  · have hparse := build_of_close_error rfl rfl hclose name
    have hf : (parse source name).1 = .ok f := congrArg Prod.fst h
    cases hf.symm.trans hparse

/-- **Every missing operand and item is an empty group.** In what a text is parsed as without a
report, an operand of an operator (assignments included) or an item of a list is missing only where
an empty pair of parentheses in the text is closed, and this pair does not stand behind the name of
a function: there is no name before it, or that of a member, or the name that its statement starts
with. -/
theorem filled_of_parse (h : parse source name = (.ok f, s))
    (hquiet : s.diagnostics.items = #[]) :
    (∀ c ∈ f.typedNames, c.expr.Filled (EmptyGroup (Cursor.ofText source).tokens.1)) ∧
    ∀ t ∈ f.stmts, t.expr.Filled fun q =>
      EmptyGroup (Cursor.ofText source).tokens.1 q ∨
      ∃ before name, name.kind = .ident ∧ name.pos = t.pos ∧
        EmptyPair (Cursor.ofText source).tokens.1 (before ++ [name]) q := by
  obtain ⟨src, htokens, hconsts, hstructs, hfunctions⟩ := explained_of_parse h hquiet
  have hgap (q : Pos) (hq : src.Gap q) : EmptyGroup (Cursor.ofText source).tokens.1 q := by
    obtain ⟨before, hbefore, hpair⟩ := hq
    exact ⟨before, hbefore, htokens ▸ hpair.append _⟩
  refine ⟨fun c hc => ?_, fun t ht => ?_⟩
  · have hfilled : c.Filled src := by
      simp only [typedNames, constants, List.mem_append, List.mem_flatMap] at hc
      rcases hc with (hc | ⟨g, hg, hc⟩) | ⟨d, hd, hc⟩ | ⟨g, hg, hc⟩
      · exact hconsts c hc
      · exact (hfunctions g hg).consts c hc
      · exact hstructs d hd c hc
      · exact (hfunctions g hg).args c hc
    exact Expr.Filled.mono hfilled hgap
  · obtain ⟨g, hg, ht⟩ := List.mem_flatMap.1 ht
    refine ((hfunctions g hg).block t ht).mono fun q hq => ?_
    obtain hq | ⟨before, name, hname, hpos, hpair⟩ := hq
    · exact .inl (hgap q hq)
    · exact .inr ⟨before, name, hname, hpos, htokens ▸ hpair.append _⟩

end File

/-- What `func f is x := () + g((), 1); end` is parsed as. -/
def emptyGroups : File :=
  let one : Expr := { kind := .int, value := .int 1, pos := ⟨1, 27⟩ }
  let list : Expr := { kind := .list, items := [.none ⟨1, 24⟩, one], pos := ⟨1, 23⟩ }
  let call := Parser.accessExpr .call (.text "g") list ⟨1, 21⟩
  let sum := Expr.operation .add (.none ⟨1, 17⟩) call ⟨1, 19⟩
  let expr := Expr.operation .assign (.identifier (.text "x") ⟨1, 11⟩) sum ⟨1, 13⟩
  { functions := [
      { name := "f", block := .block [{ kind := .exprStmt, expr, pos := ⟨1, 11⟩ }] }] }

theorem parse_emptyGroups : ∃ s, parse "func f is x := () + g((), 1); end" = (.ok emptyGroups, s) ∧
    s.diagnostics.items = #[] := ⟨_, Prod.ext rfl rfl, rfl⟩

theorem emptyGroups_filled :
    ∃ s, parse "func f is x := () + g((), 1); end" = (.ok emptyGroups, s) ∧
      s.diagnostics.items = #[] ∧
      ∀ t ∈ emptyGroups.stmts, t.expr.Filled fun q =>
        EmptyGroup (Cursor.ofText "func f is x := () + g((), 1); end").tokens.1 q ∨
        ∃ before name, name.kind = .ident ∧ name.pos = t.pos ∧
          EmptyPair (Cursor.ofText "func f is x := () + g((), 1); end").tokens.1
            (before ++ [name]) q := by
  obtain ⟨s, hparse, hquiet⟩ := parse_emptyGroups
  exact ⟨s, hparse, hquiet, (File.filled_of_parse hparse hquiet).2⟩

/-- A sum without its left operand and a list without its first item are accepted. -/
theorem emptyGroups_accepted :
    (∃ s, parse "func f is x := () + g((), 1); end" = (.ok emptyGroups, s) ∧
      s.diagnostics.items = #[]) ∧
      (∃ e ∈ emptyGroups.exprs, e.kind = .operation .add ∧ ∃ m ∈ e.args, m.isNone) ∧
      ∃ e ∈ emptyGroups.exprs, e.kind = .list ∧ ∃ m ∈ e.items, m.isNone :=
  ⟨parse_emptyGroups, by decide +kernel, by decide +kernel⟩

end ToyLang
