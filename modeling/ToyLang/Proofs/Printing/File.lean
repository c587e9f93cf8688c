import ToyLang.Proofs.Printing.Statement

/-!
# Printed files

A regular file has a text, and the text is read as the tokens of the file
(`File.Regular.unparse_yields`).
-/

set_option autoImplicit false

namespace ToyLang

variable {definite : Prop}

/-! ## Declarations -/

theorem TypedName.IsConstant.writes {c : TypedName} (h : c.IsConstant definite) :
    Writes c.printConst c.constTokens := by
  obtain ⟨name, dataType, value⟩ := c
  obtain ⟨⟨hname, s, rfl⟩, hvalue⟩ := h
  obtain ⟨text, htext, hspells, -⟩ := hvalue.printed
  exact Writes.of_ok htext (writes_line (spells_const hname s hspells))

theorem TypedName.Declared.spells {t : TypedName} (h : t.Declared) :
    Spells t.typed.toList (typedTokens t.name t.dataType) := by
  obtain ⟨name, dataType, value⟩ := t
  obtain ⟨hname, s, rfl⟩ := h
  exact (spells_name hname).colon.then_spells (spells_scalar s)

theorem TypedName.IsItem.writes {i : TypedName} (h : i.IsItem definite) :
    Writes i.printItem i.itemTokens := by
  obtain ⟨text, htext, hbounded, hspells⟩ := h.value.printed
  exact Writes.of_ok htext (writes_line
    ((h.toDeclared.spells.then_spells hbounded hspells).semicolon))

theorem Struct.Regular.writes {s : Struct} (h : s.Regular definite) : Writes s.print s.tokens := by
  have hline := ((closed_keyword (s := "struct ") .struct_ rfl).then_spells
    (spells_name h.name)).then_keyword (t := " is") .is_ rfl
  have := (writes_line hline).then ((writes_nested (writes_forM fun i hi =>
    (h.items i hi).writes)).then Stmt.writes_end)
  have htokens : s.tokens =
      [Token.ofKeyword .struct_] ++ [Token.ofWord s.name] ++ [Token.ofKeyword .is_] ++
        (s.items.flatMap TypedName.itemTokens ++ [Token.ofKeyword .end_]) := by
    simp [Struct.tokens]
  rw [htokens]
  exact this

/-! ## Functions -/

theorem spells_params {args : List TypedName} (h : ∀ a ∈ args, a.Declared) :
    Spells (", ".intercalate (args.map TypedName.typed)).toList (TypedName.paramsTokens args) := by
  induction args with
  | nil => exact closed_nil.spells
  | cons a args ih =>
    have ha := (h a List.mem_cons_self).spells
    have ih := ih fun b hb => h b (List.mem_cons_of_mem a hb)
    cases args with
    | nil =>
      rw [List.map_cons, List.map_nil, String.intercalate_singleton]
      exact ha
    | cons a' args => exact spells_intercalate_cons ha ih

/-- The first line of a function whose name and parameters are read as tokens. -/
theorem Function.spells_header {f : Function} {ns ps : List Token}
    (hname : Spells f.name.toList ns)
    (hparams : Spells (", ".intercalate (f.args.map TypedName.typed)).toList ps) :
    Spells f.header.toList (.ofKeyword .func_ :: ns ++
      (if f.args.isEmpty then [] else inParentheses ps) ++ f.typeTokens ++
        [Token.ofKeyword .is_]) := by
  have hfunc := (closed_keyword (s := "func ") .func_ rfl).then_spells hname
  obtain ⟨params, hparams', hbounded, hspells⟩ : ∃ params,
      (if f.args.isEmpty then "" else
        parenthesised (", ".intercalate (f.args.map TypedName.typed))) = params ∧
      Bounded params.toList ∧
      Spells params.toList (if f.args.isEmpty then [] else inParentheses ps) := by
    refine ⟨_, rfl, ?_⟩
    split
    · exact ⟨fun _ hc => by simp at hc, closed_nil.spells⟩
    · refine ⟨?_, (closed_parenthesised hparams).spells⟩
      simpa [parenthesised] using bounded_cons rfl
  obtain ⟨result, hresult, hbounded', hspells'⟩ : ∃ result,
      (if f.dataType = .void then "" else " -> " ++ f.dataType.text) = result ∧
      Bounded result.toList ∧ Spells result.toList f.typeTokens := by
    refine ⟨_, rfl, ?_⟩
    unfold Function.typeTokens
    cases f.dataType with
    | void => exact ⟨fun _ hc => by simp at hc, closed_nil.spells⟩
    | scalar s =>
      have harrow : Closed " -> ".toList [.ofPunct .arrow] :=
        (closed_space rfl).append (spells_punct .arrow).space
      rw [if_neg (by simp)]
      refine ⟨?_, ?_⟩
      · simpa using bounded_cons rfl
      · have := harrow.then_spells (spells_scalar s)
        rwa [Token.ofWord_scalar] at this
  have hheader : f.header = "func " ++ f.name ++ params ++ result ++ " is" := by
    rw [← hparams', ← hresult]
    rfl
  rw [hheader]
  exact ((hfunc.then_spells hbounded hspells).then_spells hbounded' hspells').then_keyword .is_ rfl

theorem Function.Regular.spells_header {f : Function} (h : f.Regular definite) :
    Spells f.header.toList
      (.ofKeyword .func_ :: .ofWord f.name :: f.argsTokens ++ f.typeTokens ++
        [Token.ofKeyword .is_]) :=
  Function.spells_header (spells_name h.name) (spells_params fun a ha => (h.args a ha).toDeclared)

theorem Function.Regular.writes {f : Function} (h : f.Regular definite) :
    Writes f.print f.tokens := by
  obtain ⟨ss, pos, hblock, hss⟩ := h.block
  have hbody : Writes f.block.print f.block.tokens := by
    rw [hblock]
    exact Stmt.writes_all fun s hs => (hss s hs).written
  have := (writes_line h.spells_header).then ((writes_nested ((writes_forM fun c hc =>
    (h.consts c hc).writes).then hbody)).then Stmt.writes_end)
  have htokens : f.tokens = (.ofKeyword .func_ :: .ofWord f.name :: f.argsTokens ++ f.typeTokens ++
      [Token.ofKeyword .is_]) ++ ((f.consts.flatMap TypedName.constTokens ++ f.block.tokens) ++
        [Token.ofKeyword .end_]) := by
    simp [Function.tokens]
  rw [htokens]
  exact this

/-! ## Imports -/

theorem spells_wordTokens {w : List Char} (h : w = [] ∨ IsWord w) : Spells w (wordTokens w) := by
  unfold wordTokens
  split
  · next hnil =>
    subst hnil
    exact closed_nil.spells
  · next hne => exact spells_word (h.resolve_left hne)

/-- A path in which dots stand for slashes. -/
theorem spells_words {ws : List (List Char)} (h : ∀ w ∈ ws, w = [] ∨ IsWord w) :
    Spells ((['/'].intercalate ws).map fun c => if c = '/' then '.' else c) (wordsTokens ws) := by
  induction ws with
  | nil => exact closed_nil.spells
  | cons w ws ih =>
    have hw := h w List.mem_cons_self
    have hsame : w.map (fun c => if c = '/' then '.' else c) = w := by
      refine (List.map_congr_left fun c hc => ?_).trans (List.map_id w)
      have hne : c ≠ '/' := by
        rintro rfl
        rcases hw with rfl | hw
        · cases hc
        · exact absurd (hw.2 _ hc) (by decide)
      exact if_neg hne
    cases ws with
    | nil =>
      rw [List.intercalate_singleton, hsame]
      exact spells_wordTokens hw
    | cons w' ws =>
      rw [List.intercalate_cons_cons, List.map_append, List.map_append, hsame]
      have hrest := (closed_punct .dot (by decide)).spells_append
        (ih fun v hv => h v (List.mem_cons_of_mem w hv))
      rw [List.append_assoc]
      exact (spells_wordTokens hw).append (bounded_cons rfl) hrest

theorem IsPath.writes {path : String} (h : IsPath definite path) :
    Writes (Printing.line (importText path)) (importTokens path) := by
  have hwords := spells_words fun w hw => (h w hw).imp_right And.left
  rw [List.intercalate_splitOn, ← String.toList_map] at hwords
  exact writes_line ((closed_keyword (s := "import ") .import_ rfl).then_spells hwords).semicolon

/-! ## Files -/

/-- A declaration with an empty line behind it. -/
theorem Writes.gap {p : Printing Unit} {ts : List Token} (h : Writes p ts) :
    Writes (do p; Printing.gap) ts := by
  have := h.then writes_gap
  rwa [List.append_nil] at this

/-- A file whose parts write tokens has a text, which is read as these tokens one after another. -/
theorem File.unparse_of_writes {f : File} {is cs ss fs : List Token}
    (himports : Writes (f.imports.forM fun path => Printing.line (importText path)) is)
    (hconsts : Writes (f.consts.forM TypedName.printConst) cs)
    (hstructs : Writes (f.structs.forM fun s => do s.print; Printing.gap) ss)
    (hfunctions : Writes (f.functions.forM fun g => do g.print; Printing.gap) fs) :
    ∃ text, f.unparse = .ok text ∧ Yields text.toList (is ++ (cs ++ (ss ++ fs))) := by
  have hgap : Writes (do unless f.imports.isEmpty && f.consts.isEmpty do Printing.gap) [] := by
    split
    · exact writes_pure
    · exact writes_gap
  obtain ⟨ls, hls, hrun⟩ :=
    (himports.then (hconsts.then (hgap.then (hstructs.then hfunctions)))) {}
  have hprint : f.print.runOn {} = (.ok (), Page.dropGaps { lines := #[] ++ ls.toArray }) := by
    refine Eq.trans ?_ (runOn_then (q := modify Page.dropGaps) hrun)
    simp only [File.print, bind_assoc]
    cases f.imports.isEmpty && f.consts.isEmpty <;> simp
  have hlines : Lines (Page.mk (#[] ++ ls.toArray) 0).lines.toList (is ++ (cs ++ (ss ++ fs))) := by
    simpa using hls
  exact ⟨_, by rw [File.unparse, hprint]; rfl, hlines.yields_text⟩

/-- **A regular file has a text, which is read as the tokens of the file.** -/
theorem File.Regular.unparse_yields {f : File} (h : f.Regular definite) :
    ∃ text, f.unparse = .ok text ∧ Yields text.toList f.tokens := by
  have himports := writes_forM fun path hp => (h.imports path hp).writes
  have hconsts := writes_forM fun c hc => (h.consts c hc).writes
  have hstructs := writes_forM fun s hs => (h.structs s hs).writes.gap
  have hfunctions := writes_forM fun g hg => (h.functions g hg).writes.gap
  have htokens : f.tokens = f.imports.flatMap importTokens ++
      (f.consts.flatMap TypedName.constTokens ++ (f.structs.flatMap Struct.tokens ++
        f.functions.flatMap Function.tokens)) := by
    simp [File.tokens]
  rw [htokens]
  exact File.unparse_of_writes himports hconsts hstructs hfunctions

end ToyLang
