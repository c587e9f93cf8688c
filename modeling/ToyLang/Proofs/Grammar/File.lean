import ToyLang.Proofs.Grammar.Statement

/-!
# Derived files are accepted

The parser accepts the tokens of every file that the grammar derives, reports nothing and builds the
tree of the derivation (`derivation_parses`), whether it fails fast or not. The same holds of every
text that is read as these tokens (`SourceFile.parse_text`).
-/

set_option autoImplicit false

namespace ToyLang.Grammar

open Builder ToyLang.Parser

variable {mark t : Token} {n : Nat} {rest : List Token} {cs : List TypedName}

/-! ## Functions -/

theorem Params.exists_tokens (ps : Params) :
    ∃ (u : Name) (us : List Token), ps.tokens = u.toToken :: us := by
  cases ps <;> exact ⟨_, _, rfl⟩

/-- A row of parameters is accepted up to its parenthesis. -/
theorem Params.accept_loop (ps : Params) (mark : Token) (rest : List Token) (cs : List TypedName)
    (ht : t.kind = .punct .rparen) (hn : (ps.tokens ++ t :: rest).length ≤ n) :
    (read >>= paramsLoop n).accept mark (ps.tokens ++ t :: rest, cs) =
      some (ps.trees, rest, cs) := by
  induction ps generalizing n with
  | single p =>
    obtain ⟨n, rfl, -⟩ := bound_cons hn
    exact accept_paramsLoop_last p.name.kind_eq p.colon.kind_eq p.type.kind_eq ht
  | cons p comma ps ih =>
    obtain ⟨n, rfl, hle⟩ := bound_cons hn
    have ih := ih (n := n) (by simp at hle ⊢; omega)
    simp only [Params.tokens, Typed.tokens, List.cons_append, List.nil_append]
    rw [accept_paramsLoop_cons p.name.kind_eq p.colon.kind_eq p.type.kind_eq comma.kind_eq, ih]
    rfl

/-- A parameter list and the token behind it, which opens none. -/
theorem ParamList.accept (l : ParamList) (mark : Token) (rest : List Token) (cs : List TypedName)
    (ht : t.kind ≠ .punct .lparen) (hn : (l.tokens ++ t :: rest).length ≤ n) :
    (read >>= optionalParams n).accept mark (l.tokens ++ t :: rest, cs) =
      some ((l.trees, t), rest, cs) := by
  cases l with
  | absent => exact accept_optionalParams_absent ht
  | empty opening closing => exact accept_optionalParams_empty opening.kind_eq closing.kind_eq
  | params opening row closing =>
    simp only [ParamList.tokens, List.cons_append, List.append_assoc, List.nil_append] at hn ⊢
    obtain ⟨u, us, hu⟩ := row.exists_tokens
    have hloop := row.accept_loop (n := n) mark (t :: rest) cs closing.kind_eq
      (by rw [List.length_cons] at hn; omega)
    rw [hu, List.cons_append] at hloop ⊢
    exact accept_optionalParams_loop opening.kind_eq u.kind_eq hloop

/-- A result type and the token behind it, which announces none. -/
theorem ResultType.accept (r : ResultType) (mark : Token) (rest : List Token)
    (cs : List TypedName) (ht : t.kind ≠ .punct .arrow) :
    (read >>= returnType).accept mark (r.tokens ++ t :: rest, cs) =
      some ((r.tree, t), rest, cs) := by
  cases r with
  | absent => exact accept_returnType_absent ht
  | arrow arrow type => exact accept_returnType_arrow arrow.kind_eq type.kind_eq

/-- What follows a parameter list opens none. -/
theorem ResultType.exists_tokens (r : ResultType) (is_ : Word .is_) (rest : List Token) :
    ∃ u us, r.tokens ++ is_.toToken :: rest = u :: us ∧ u.kind ≠ .punct .lparen := by
  cases r with
  | absent => exact ⟨_, _, rfl, by simp⟩
  | arrow arrow type => exact ⟨_, _, rfl, by simp⟩

/-- The tokens behind the keyword of a function. -/
theorem FunctionDecl.tokens_append (f : FunctionDecl) (rest : List Token) :
    f.tokens ++ rest = f.keyword.toToken :: f.name.toToken :: (f.params.tokens ++
      (f.result.tokens ++ f.is_.toToken :: (f.body.tokens ++ f.end_.toToken :: rest))) := by
  simp [FunctionDecl.tokens]

/-- A function is accepted behind its keyword. -/
theorem FunctionDecl.accept (f : FunctionDecl) (mark : Token) (rest : List Token)
    (cs : List TypedName) (hn : (f.tokens ++ rest).length ≤ n + 1) :
    ∃ body, f.tokens ++ rest = f.keyword.toToken :: body ∧
      (function n).accept mark (body, cs) = some (f.tree, rest, cs) := by
  refine ⟨_, f.tokens_append rest, ?_⟩
  rw [f.tokens_append] at hn
  obtain ⟨u, us, hu, hkind⟩ := f.result.exists_tokens f.is_
    (f.body.tokens ++ f.end_.toToken :: rest)
  obtain ⟨v, vs, hv⟩ : ∃ v vs, f.params.tokens ++ u :: us = v :: vs :=
    List.exists_cons_of_ne_nil (by simp)
  have hlength := congrArg List.length hu
  simp only [List.length_cons, List.length_append] at hlength hn
  have hparams := f.params.accept (n := n) mark us cs hkind
    (by simp only [List.length_append, List.length_cons]; omega)
  have htype := f.result.accept (t := f.is_.toToken) mark
    (f.body.tokens ++ f.end_.toToken :: rest) cs (by simp)
  have hbody := f.body.runs.accept_block (n := n) false mark rest [] (.inl f.end_.kind_eq)
    (by simp only [List.length_append, List.length_cons]; omega)
  rw [hv, accept_read_bind] at hparams
  rw [hu, accept_read_bind] at htype
  rw [hu, hv, function, accept_bind, accept_nameOr f.name.kind_eq, Option.bind_some]
  dsimp only
  rw [accept_bind, hparams, Option.bind_some]
  dsimp only
  rw [accept_bind, htype, Option.bind_some]
  dsimp only
  rw [accept_bind, accept_expect f.is_.kind_eq, Option.bind_some, accept_bind, accept_collected,
    hbody]
  rfl

/-! ## Structures and imports -/

/-- An item is accepted behind its name. -/
theorem StructItem.accept (i : StructItem) (mark : Token) (rest : List Token)
    (cs : List TypedName) (hn : (i.tokens ++ rest).length ≤ n + 1) :
    ∃ body, i.tokens ++ rest = i.head.name.toToken :: body ∧
      (structItem n i.head.name.toToken).accept mark (body, cs) = some (i.tree, rest, cs) := by
  have htokens : i.tokens ++ rest = i.head.name.toToken :: i.head.colon.toToken ::
      i.head.type.toToken :: (i.init.tokens ++ i.semicolon.toToken :: rest) := by
    simp [StructItem.tokens, Typed.tokens]
  refine ⟨_, htokens, ?_⟩
  rw [htokens] at hn
  exact accept_structItem_of (r := some _) i.head.colon.kind_eq i.head.type.kind_eq
    (i.init.accept i.head.name.tree i.head.name.toToken mark rest cs i.semicolon.kind_eq
      (by simp only [List.length_cons] at hn; omega))

/-- The items of a structure are accepted up to its end. -/
theorem accept_structItems_of (items : List StructItem) (end_ : Word .end_) (mark : Token)
    (rest : List Token) (cs : List TypedName)
    (hn : (items.flatMap StructItem.tokens ++ end_.toToken :: rest).length ≤ n) :
    (read >>= structItems n).accept mark
        (items.flatMap StructItem.tokens ++ end_.toToken :: rest, cs) =
      some ((items.map StructItem.tree, end_.toToken), rest, cs) := by
  induction items generalizing n with
  | nil =>
    obtain ⟨n, rfl, -⟩ := bound_cons hn
    exact accept_structItems_end end_.kind_eq
  | cons i items ih =>
    rw [List.flatMap_cons, List.append_assoc] at hn ⊢
    obtain ⟨n, rfl, hle⟩ := bound_cons hn
    obtain ⟨body, hbody, hitem⟩ := i.accept mark
      (items.flatMap StructItem.tokens ++ end_.toToken :: rest) cs hn
    have ih := ih (n := n) (by simp at hle ⊢; omega)
    rw [hbody, accept_structItems_cons i.head.name.kind_eq, hitem, Option.bind_some, ih]
    rfl

/-- A structure is accepted behind its keyword. -/
theorem StructDecl.accept (s : StructDecl) (mark : Token) (rest : List Token)
    (cs : List TypedName) (hn : (s.tokens ++ rest).length ≤ n + 1) :
    ∃ body, s.tokens ++ rest = s.keyword.toToken :: body ∧
      (structDef n).accept mark (body, cs) = some (s.tree, rest, cs) := by
  have htokens : s.tokens ++ rest = s.keyword.toToken :: s.name.toToken :: s.is_.toToken ::
      (s.items.flatMap StructItem.tokens ++ s.end_.toToken :: rest) := by
    simp [StructDecl.tokens]
  refine ⟨_, htokens, ?_⟩
  rw [htokens] at hn
  have hitems := accept_structItems_of (n := n) s.items s.end_ mark rest cs
    (by simp only [List.length_cons] at hn; omega)
  exact accept_structDef_of (l := some _) s.name.kind_eq s.is_.kind_eq s.end_.kind_eq hitems

/-- A path is accepted up to its semicolon. -/
theorem Path.accept (p : Path) (mark : Token) (rest : List Token) (cs : List TypedName)
    (ht : t.kind = .punct .semicolon) (hn : (p.tokens ++ t :: rest).length ≤ n) :
    (read >>= importLoop n).accept mark (p.tokens ++ t :: rest, cs) =
      some ("/".intercalate p.names, rest, cs) := by
  induction p generalizing n with
  | single w =>
    obtain ⟨n, rfl, hle⟩ := bound_cons hn
    obtain ⟨n, rfl, -⟩ := bound_cons hle
    rw [Path.tokens, List.cons_append, accept_importLoop_word w.kind_eq, List.nil_append,
      accept_importLoop_end ht]
    simp [Path.names]
  | cons w dot p ih =>
    have hnames : "/".intercalate (w.value.display :: p.names) =
        w.value.display ++ ("/" ++ "/".intercalate p.names) := by
      cases p <;> simp [Path.names, String.append_assoc]
    simp only [Path.tokens, List.cons_append] at hn ⊢
    obtain ⟨n, rfl, hdot⟩ := bound_cons hn
    obtain ⟨n, rfl, hle⟩ := bound_cons hdot
    rw [accept_importLoop_word w.kind_eq, accept_importLoop_dot dot.kind_eq, ih hle, Path.names,
      hnames]
    rfl

/-- An import is accepted behind its keyword. -/
theorem ImportDecl.accept (i : ImportDecl) (mark : Token) (rest : List Token)
    (cs : List TypedName) (hn : (i.tokens ++ rest).length ≤ n + 1) :
    ∃ body, i.tokens ++ rest = i.keyword.toToken :: body ∧
      (importPath n).accept mark (body, cs) = some (i.tree, rest, cs) := by
  have htokens : i.tokens ++ rest =
      i.keyword.toToken :: (i.path.tokens ++ i.semicolon.toToken :: rest) := by
    simp [ImportDecl.tokens]
  refine ⟨_, htokens, ?_⟩
  rw [htokens] at hn
  exact i.path.accept mark rest cs i.semicolon.kind_eq
    (by simp only [List.length_cons] at hn; omega)

/-! ## Files -/

/-- The file with one more declaration in front. -/
def Declaration.addTo : Declaration → File → File
  | function f, file => { file with functions := f.tree :: file.functions }
  | struct s, file => { file with structs := s.tree :: file.structs }
  | constant c, file => { file with consts := c.tree :: file.consts }
  | importing i, file => { file with imports := i.tree :: file.imports }

theorem foldr_addTo (ds : List Declaration) :
    ds.foldr Declaration.addTo {} = SourceFile.tree ⟨ds⟩ "" := by
  induction ds with
  | nil => rfl
  | cons d ds ih =>
    rw [List.foldr_cons, ih]
    cases d <;> rfl

/-- A declaration behind its keyword is read by a builder of its own. -/
theorem accept_fileLoop_cons {α : Type} {b : Builder α} {a : α} {ts : List Token}
    (put : α → File → File)
    (hstart : fileLoop (n + 1) t =
      b >>= fun a => (read >>= fileLoop n) >>= fun f => pure (put a f))
    (h : ∃ body, ts = t :: body ∧ b.accept mark (body, []) = some (a, rest, [])) :
    (read >>= fileLoop (n + 1)).accept mark (ts, []) =
      ((read >>= fileLoop n).accept mark (rest, [])).map fun r => (put a r.1, r.2) := by
  obtain ⟨body, rfl, hread⟩ := h
  rw [accept_read_bind, hstart, accept_bind, hread]
  exact accept_bind_pure mark (read >>= fileLoop n) (put a) (rest, [])

/-- A declaration is accepted in front of others. -/
theorem Declaration.accept (d : Declaration) (mark : Token) (rest : List Token)
    (hn : (d.tokens ++ rest).length ≤ n + 1) :
    (read >>= fileLoop (n + 1)).accept mark (d.tokens ++ rest, []) =
      ((read >>= fileLoop n).accept mark (rest, [])).map fun r => (d.addTo r.1, r.2) := by
  cases d with
  | function f =>
    refine accept_fileLoop_cons (fun g file => { file with functions := g :: file.functions }) ?_
      (f.accept mark rest [] hn)
    rw [fileLoop]
    simp only [f.keyword.kind_eq]
    rfl
  | struct s =>
    refine accept_fileLoop_cons (fun s file => { file with structs := s :: file.structs }) ?_
      (s.accept mark rest [] hn)
    rw [fileLoop]
    simp only [s.keyword.kind_eq]
    rfl
  | constant c =>
    refine accept_fileLoop_cons (fun c file => { file with consts := c :: file.consts }) ?_
      (c.accept mark rest [] hn)
    rw [fileLoop]
    simp only [c.keyword.kind_eq]
    rfl
  | importing i =>
    refine accept_fileLoop_cons (fun path file => { file with imports := path :: file.imports })
      ?_ (i.accept mark rest [] hn)
    rw [fileLoop]
    simp only [i.keyword.kind_eq]
    rfl

theorem Declaration.tokens_ne_nil (d : Declaration) : d.tokens ≠ [] := by
  cases d <;> simp [Declaration.tokens, FunctionDecl.tokens, StructDecl.tokens, Constant.tokens,
    ImportDecl.tokens]

/-- A row of declarations is accepted up to the end mark. -/
theorem accept_declarations (ds : List Declaration) (hmark : mark.kind = .eof)
    (hn : (ds.flatMap Declaration.tokens).length < n) :
    (read >>= fileLoop n).accept mark (ds.flatMap Declaration.tokens, []) =
      some (ds.foldr Declaration.addTo {}, [], []) := by
  induction ds generalizing n with
  | nil =>
    obtain ⟨n, rfl⟩ : ∃ m, n = m + 1 := ⟨n - 1, by omega⟩
    show (fileLoop (n + 1) mark).accept mark ([], []) = _
    rw [fileLoop, hmark]
    rfl
  | cons d ds ih =>
    obtain ⟨n, rfl⟩ : ∃ m, n = m + 1 := ⟨n - 1, by omega⟩
    have hpos := List.length_pos_iff.2 d.tokens_ne_nil
    rw [List.flatMap_cons] at hn ⊢
    rw [d.accept mark _ (by omega), ih (by rw [List.length_append] at hn; omega)]
    rfl

/-- **The tokens of a derived file are accepted.** -/
theorem SourceFile.accept (d : SourceFile) (name : String) (hmark : mark.kind = .eof)
    (hn : d.tokens.length < n) :
    (file name n).accept mark (d.tokens, []) = some (d.tree name, [], []) := by
  have hfile : file name n = (read >>= fileLoop n) >>= fun f => pure { f with name } := rfl
  rw [hfile, accept_bind_pure, SourceFile.tokens, accept_declarations d.declarations hmark hn,
    foldr_addTo]
  rfl

/-! ## Streams of derived tokens -/

/-- A fresh stream that delivers the tokens of a derived file is built into its tree. -/
theorem SourceFile.build (d : SourceFile) (stream : Stream) (hheld : stream.held = none)
    (hended : stream.ended = none) (hview : stream.view = .upToMark (.ok mark) d.tokens)
    (hmark : mark.kind = .eof) (name : String) (strict : Bool) :
    ∃ s, (Session.over stream strict).build (Parser.file name) = (.ok (d.tree name), s) ∧
      s.diagnostics.items = #[] := by
  rw [View.upToMark_of_ne_eof d.ne_eof] at hview
  have hahead : stream.view.ahead = d.tokens := by rw [hview]
  -- none of the tokens is an end mark, so the size of the stream bounds their number
  have hsize : d.tokens.length < stream.size + 1 := by
    have hleft := (Stream.view_within hheld hended).left_le
    have hall : d.tokens.countP (fun t => t.kind ≠ .eof) = d.tokens.length :=
      List.countP_eq_length.2 fun t ht => by simpa using d.ne_eof t ht
    rw [View.left, hahead, hall] at hleft
    omega
  have hclose : stream.view.close = .ok mark := by rw [hview]
  have hacc : (file name (stream.size + 1)).accept mark (stream.view.ahead, []) =
      some (d.tree name, [], []) := by
    rw [hahead]
    exact d.accept name hmark hsize
  exact build_of_accept hheld hended hclose hacc strict

/-- **The parser accepts what the grammar derives.** On the tokens of any derivation it builds the
tree of the derivation and reports nothing. -/
theorem derivation_accepted (d : SourceFile) (name : String) (strict : Bool) :
    ∃ s, (Session.over (.ofList d.tokens) strict).build (Parser.file name) =
        (.ok (d.tree name), s) ∧
      s.diagnostics.items = #[] :=
  d.build _ rfl rfl rfl rfl name strict

/-- So it does on a text that is read as these tokens. -/
theorem SourceFile.parse_text (d : SourceFile) {source : String} (hmark : mark.kind = .eof)
    (h : (Cursor.ofText source).tokens = (d.tokens ++ [mark], none)) (name : String)
    (strict : Bool) :
    ∃ s, parse source name strict = (.ok (d.tree name), s) ∧ s.diagnostics.items = #[] := by
  refine d.build (.ofText source) rfl rfl ?_ hmark name strict
  show View.upToMark _ (Cursor.ofText source).tokens.1 = _
  rw [h, View.upToMark_append_mark d.ne_eof hmark, View.upToMark_of_ne_eof d.ne_eof]

end ToyLang.Grammar
