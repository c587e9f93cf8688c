import ToyLang.Proofs.Roundtrip.Statement

/-!
# Files are read as foreseen

The tokens of a regular file are accepted exactly where `File.reread` foresees it, with that result
(`accept_file`). The declarations of one class are a row each, with one lemma for all four classes
(`accept_declarations`).
-/

set_option autoImplicit false

namespace ToyLang.Parser

open Builder

variable {mark t u : Token} {n : Nat} {ts us rest : List Token} {cs : List TypedName}
  {ss : List Stmt} {name : String}

/-! ## Functions -/

/-- A constant that stands in a function is declared, and leaves no statement. -/
theorem accept_blockLoop_const {c : TypedName} (h : c.IsConstant False)
    (hn : (c.constTokens ++ rest).length ≤ n + 1) :
    (read >>= blockLoop (n + 1) false).accept mark (c.constTokens ++ rest, cs) =
      c.rereadConst.bind fun c' =>
        (read >>= blockLoop n false).accept mark (rest, cs ++ [c']) := by
  obtain ⟨body, hbody, hread⟩ := accept_constant mark cs h hn
  have hstart : (statement n (.ofKeyword .const_)).accept mark (body, cs) =
      (constant n >>= fun c => addConst c >>= fun _ => pure none).accept mark (body, cs) := rfl
  rw [hbody, accept_blockLoop_start (by simp [IsStart, Token.ofKeyword]), hstart, accept_bind,
    hread]
  cases c.rereadConst with
  | none => rfl
  | some c' =>
    show ((read >>= blockLoop n false).accept mark (rest, cs ++ [c'])).map _ = _
    simp

/-- The body of a function: its constants and its statements. -/
theorem accept_functionBody (mark : Token) (rest : List Token) (cs : List TypedName)
    {consts : List TypedName} (hc : ∀ c ∈ consts, c.IsConstant False)
    (hs : ∀ s ∈ ss, s.Regular False)
    (hn : (consts.flatMap TypedName.constTokens ++
      (Stmt.tokensAll ss ++ .ofKeyword .end_ :: rest)).length ≤ n) :
    (read >>= blockLoop n false).accept mark (consts.flatMap TypedName.constTokens ++
        (Stmt.tokensAll ss ++ .ofKeyword .end_ :: rest), cs) =
      (consts.mapM TypedName.rereadConst).bind fun consts' =>
        (Stmt.rereadAll ss).map fun ss' => ((ss', .ofKeyword .end_), rest, cs ++ consts') := by
  induction consts generalizing n cs with
  | nil =>
    refine (accept_row (fun s hm => runs (hs s hm)) (.inl rfl) hn).trans ?_
    simp
  | cons c consts ih =>
    rw [List.flatMap_cons, List.append_assoc] at hn ⊢
    have hpos : 0 < c.constTokens.length := by simp [TypedName.constTokens, constTokens]
    rw [List.length_append] at hn
    obtain ⟨n, rfl⟩ : ∃ m, n = m + 1 := ⟨n - 1, by omega⟩
    rw [accept_blockLoop_const (hc c List.mem_cons_self) (by rw [List.length_append]; omega),
      List.mapM_cons]
    cases c.rereadConst with
    | none => rfl
    | some c' =>
      refine (ih _ (fun d hd => hc d (List.mem_cons_of_mem c hd)) (by omega)).trans ?_
      cases consts.mapM TypedName.rereadConst <;> simp

/-- Parameters, if there are any, and the token behind them. -/
theorem accept_optionalParams (mark : Token) (us : List Token) (cs : List TypedName) {f : Function}
    (h : ∀ a ∈ f.args, a.IsParam)
    (hu : u.kind ≠ .punct .lparen) (hn : (f.argsTokens ++ u :: us).length ≤ n) :
    (read >>= optionalParams n).accept mark (f.argsTokens ++ u :: us, cs) =
      some ((f.args.map TypedName.unplaced, u), us, cs) := by
  unfold Function.argsTokens at hn ⊢
  cases hargs : f.args with
  | nil =>
    exact accept_optionalParams_absent hu
  | cons a args =>
    rw [hargs] at h hn
    simp only [List.isEmpty_cons, Bool.false_eq_true, if_false, inParentheses, List.cons_append,
      List.append_assoc, List.nil_append, List.length_cons] at hn ⊢
    have hparams := accept_paramsLoop (n := n) mark (u :: us) cs (by simp) h (by omega)
    -- the list does not end at once
    have hname := (h a List.mem_cons_self).name
    obtain ⟨ts, hts⟩ : ∃ ts, TypedName.paramsTokens (a :: args) = .ofWord a.name :: ts := by
      cases args <;> exact ⟨_, rfl⟩
    rw [hts, List.cons_append, hname.token] at hparams ⊢
    exact accept_optionalParams_loop rfl rfl hparams

/-- The result type, if there is one, and the token behind it. -/
theorem accept_returnType (mark : Token) (us : List Token) (cs : List TypedName) (f : Function)
    (hu : u.kind ≠ .punct .arrow) :
    (read >>= returnType).accept mark (f.typeTokens ++ u :: us, cs) =
      some ((f.dataType, u), us, cs) := by
  unfold Function.typeTokens
  cases f.dataType with
  | void =>
    exact accept_returnType_absent hu
  | scalar s => exact accept_returnType_arrow rfl rfl

/-- A function behind its keyword. -/
theorem accept_function {f : Function} (h : f.Regular False)
    (hn : (f.tokens ++ rest).length ≤ n + 1) :
    ∃ body, f.tokens ++ rest = .ofKeyword .func_ :: body ∧
      (function n).accept mark (body, cs) = f.reread.map fun f' => (f', rest, cs) := by
  obtain ⟨ss, pos, hblock, hss⟩ := h.block
  have htokens : f.tokens ++ rest = .ofKeyword .func_ :: .ofWord f.name :: (f.argsTokens ++
      (f.typeTokens ++ .ofKeyword .is_ :: (f.consts.flatMap TypedName.constTokens ++
        (Stmt.tokensAll ss ++ .ofKeyword .end_ :: rest)))) := by
    simp [Function.tokens, hblock, Stmt.block, Stmt.tokens]
  refine ⟨_, htokens, ?_⟩
  rw [htokens] at hn
  simp only [List.length_cons, List.length_append] at hn
  -- what follows the parameters, and the token behind the name
  obtain ⟨u, us, hu, hkind⟩ : ∃ u us, f.typeTokens ++ Token.ofKeyword .is_ ::
      (f.consts.flatMap TypedName.constTokens ++ (Stmt.tokensAll ss ++ .ofKeyword .end_ :: rest)) =
        u :: us ∧ u.kind ≠ .punct .lparen := by
    unfold Function.typeTokens
    cases f.dataType with
    | void => exact ⟨_, _, rfl, by simp [Token.ofKeyword]⟩
    | scalar s => exact ⟨_, _, rfl, by simp [Token.ofPunct]⟩
  obtain ⟨v, vs, hv⟩ : ∃ v vs, f.argsTokens ++ u :: us = v :: vs :=
    List.exists_cons_of_ne_nil (by simp)
  have hlength := congrArg List.length hu
  simp only [List.length_cons, List.length_append] at hlength
  have hparams := accept_optionalParams (n := n) mark us cs h.args hkind
    (by simp only [List.length_cons, List.length_append]; omega)
  have htype := accept_returnType (u := .ofKeyword .is_) mark
    (f.consts.flatMap TypedName.constTokens ++ (Stmt.tokensAll ss ++ .ofKeyword .end_ :: rest)) cs
    f (by simp [Token.ofKeyword])
  have hbody := accept_functionBody (n := n) mark rest [] h.consts hss
    (by simp only [List.length_cons, List.length_append]; omega)
  rw [hv] at hparams
  rw [hu] at htype ⊢
  have hname : (Token.ofWord f.name).kind = .ident := by rw [h.name.token]
  rw [hv, function, accept_bind, accept_nameOr hname, Option.bind_some]
  dsimp only
  rw [accept_read_bind] at hparams htype
  rw [accept_bind, hparams, Option.bind_some]
  dsimp only
  rw [accept_bind, htype, Option.bind_some]
  dsimp only
  rw [accept_bind, accept_expect (k := .keyword .is_) rfl, Option.bind_some, accept_bind,
    accept_collected, block_eq, accept_bind, hbody, Function.reread, hblock, reread_block]
  cases f.consts.mapM TypedName.rereadConst <;> cases Stmt.rereadAll ss <;> rfl

/-! ## Files -/

section

variable {α : Type} {tokens : α → List Token} {read' : α → Option α} {put : List α → File → File}

/-- A declaration is read as foreseen in front of others. -/
def Declares (tokens : α → List Token) (read' : α → Option α) (put : List α → File → File)
    (a : α) : Prop :=
  ∀ mark n rest, (tokens a ++ rest).length ≤ n →
    (read >>= fileLoop (n + 1)).accept mark (tokens a ++ rest, []) =
      (read' a).bind fun a' =>
        ((read >>= fileLoop n).accept mark (rest, [])).map fun r => (put [a'] r.1, r.2)

/-- A declaration behind its keyword is read by a builder of its own. -/
theorem declares {a : α} {k : Keyword} (b : Nat → Builder α)
    (hstart : ∀ mark n body, (read >>= fileLoop (n + 1)).accept mark (.ofKeyword k :: body, []) =
      (b n >>= fun a => (read >>= fileLoop n) >>= fun f => pure (put [a] f)).accept mark (body, []))
    (hread : ∀ mark n rest, (tokens a ++ rest).length ≤ n + 1 →
      ∃ body, tokens a ++ rest = .ofKeyword k :: body ∧
        (b n).accept mark (body, []) = (read' a).map fun a' => (a', rest, [])) :
    Declares tokens read' put a := by
  intro mark n rest hn
  obtain ⟨body, hbody, hread⟩ := hread mark n rest (by omega)
  rw [hbody, hstart, accept_bind, hread]
  cases read' a with
  | none => rfl
  | some a' => exact accept_bind_pure ..

/-- **A row of declarations** of one class in front of others. -/
theorem accept_declarations {as : List α} {g : Option File}
    (hnil : ∀ f, put [] f = f) (hcons : ∀ a as f, put (a :: as) f = put [a] (put as f))
    (h : ∀ a ∈ as, Declares tokens read' put a)
    (hrest : ∀ m, rest.length < m →
      (read >>= fileLoop m).accept mark (rest, []) = g.map fun f => (f, [], []))
    (hn : (as.flatMap tokens ++ rest).length < n) (hne : ∀ a ∈ as, 0 < (tokens a).length) :
    (read >>= fileLoop n).accept mark (as.flatMap tokens ++ rest, []) =
      ((as.mapM read').bind fun as' => g.map (put as')).map fun f => (f, [], []) := by
  induction as generalizing n with
  | nil =>
    refine (hrest n hn).trans ?_
    cases g <;> simp [hnil]
  | cons a as ih =>
    obtain ⟨n, rfl⟩ : ∃ m, n = m + 1 := ⟨n - 1, by omega⟩
    rw [List.flatMap_cons, List.append_assoc] at hn ⊢
    have hpos := hne a List.mem_cons_self
    rw [h a List.mem_cons_self mark n _ (by omega), List.mapM_cons,
      ih (fun b hb => h b (List.mem_cons_of_mem a hb)) (by rw [List.length_append] at hn; omega)
        fun b hb => hne b (List.mem_cons_of_mem a hb)]
    cases read' a <;> cases as.mapM read' <;> cases g <;> simp [← hcons]

end

/-- **The tokens of a regular file are accepted as foreseen.** -/
theorem accept_file {f : File} (h : f.Regular False) (hmark : mark.kind = .eof)
    (hn : f.tokens.length < n) :
    (file name n).accept mark (f.tokens, []) =
      f.reread.map fun f' => ({ f' with name }, [], []) := by
  have himport (path : String) (hp : path ∈ f.imports) : Declares importTokens rereadImport
      (fun ps f => { f with imports := ps ++ f.imports }) path :=
    declares importPath (fun _ _ _ => rfl) fun _ _ _ hn => accept_import (h.imports path hp) hn
  have hconst (c : TypedName) (hc : c ∈ f.consts) : Declares TypedName.constTokens
      TypedName.rereadConst (fun cs f => { f with consts := cs ++ f.consts }) c :=
    declares constant (fun _ _ _ => rfl) fun mark _ _ hn =>
      accept_constant mark [] (h.consts c hc) hn
  have hstruct (s : Struct) (hs : s ∈ f.structs) : Declares Struct.tokens Struct.reread
      (fun ss f => { f with structs := ss ++ f.structs }) s :=
    declares structDef (fun _ _ _ => rfl) fun _ _ _ hn => accept_structDef (h.structs s hs) hn
  have hfunction (g : Function) (hg : g ∈ f.functions) : Declares Function.tokens Function.reread
      (fun gs f => { f with functions := gs ++ f.functions }) g :=
    declares function (fun _ _ _ => rfl) fun _ _ _ hn => accept_function (h.functions g hg) hn
  have hend (m : Nat) (hm : ([] : List Token).length < m) :
      (read >>= fileLoop m).accept mark ([], []) = (some ({} : File)).map fun f => (f, [], []) := by
    obtain ⟨m, rfl⟩ : ∃ m', m = m' + 1 := ⟨m - 1, by simp at hm; omega⟩
    show (fileLoop (m + 1) mark).accept mark ([], []) = _
    rw [fileLoop, hmark]
    rfl
  have hfunctions (m : Nat) hm := accept_declarations (n := m) (fun _ => rfl) (fun _ _ _ => rfl)
    hfunction hend hm fun g _ => by simp [Function.tokens]
  have hstructs (m : Nat) hm := accept_declarations (n := m) (fun _ => rfl) (fun _ _ _ => rfl)
    hstruct hfunctions hm fun s _ => by simp [Struct.tokens]
  have hconsts (m : Nat) hm := accept_declarations (n := m) (fun _ => rfl) (fun _ _ _ => rfl)
    hconst hstructs hm fun c _ => by simp [TypedName.constTokens, constTokens]
  have hfile : file name n = (read >>= fileLoop n) >>= fun f => pure { f with name } := rfl
  have htokens : f.tokens = f.imports.flatMap importTokens ++
      (f.consts.flatMap TypedName.constTokens ++ (f.structs.flatMap Struct.tokens ++
        (f.functions.flatMap Function.tokens ++ []))) := by
    simp [File.tokens]
  rw [htokens] at hn ⊢
  rw [hfile, accept_bind_pure, accept_declarations (fun _ => rfl) (fun _ _ _ => rfl) himport
    hconsts hn fun p _ => by simp [importTokens], File.reread]
  cases f.imports.mapM rereadImport <;> cases f.consts.mapM TypedName.rereadConst <;>
    cases f.structs.mapM Struct.reread <;> cases f.functions.mapM Function.reread <;> simp

end ToyLang.Parser
