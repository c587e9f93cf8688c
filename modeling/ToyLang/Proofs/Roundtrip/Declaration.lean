import ToyLang.Proofs.Accept.Declaration
import ToyLang.Proofs.Roundtrip.Expression

/-!
# Declarations are read as foreseen

Types, values, constants, parameters, structures and imports: each builder accepts the tokens of the
regular declaration it builds, behind the keyword or the parenthesis that announces it, exactly
where the declaration is foreseen to be read.
-/

set_option autoImplicit false

namespace ToyLang.Parser

open Builder

variable {mark t : Token} {n : Nat} {ts rest : List Token} {cs : List TypedName} {e : Expr}
  {name : String}

/-! ## Types and values -/

theorem kind_ofWord_scalar (s : Scalar) : (Token.ofWord s.spelling).kind = .type s := by
  rw [Token.ofWord_scalar]
  rfl

/-- The value of a declaration, up to its semicolon. -/
theorem accept_initializer (mark : Token) (rest : List Token) (cs : List TypedName)
    (h : e.Initializes False name) (t : Token)
    (hn : (e.initializerTokens ++ .ofPunct .semicolon :: rest).length ≤ n) :
    (expression n (.punct .semicolon) >>= fun o =>
        initializer o (.identifier (.text name) ⟨0, 0⟩) t).accept mark
        (e.initializerTokens ++ .ofPunct .semicolon :: rest, cs) =
      e.rereadInitializer.map fun e' => (e', rest, cs) := by
  cases h with
  | absent pos =>
    rw [accept_bind]
    show ((expression n (Token.ofPunct .semicolon).kind).accept mark
      (Expr.none.tokens ++ .ofPunct .semicolon :: rest, cs)).bind _ = _
    rw [accept_expression (.none ⟨0, 0⟩) isStop_semicolon rfl hn]
    rfl
  | assign v pos tpos hv =>
    rw [accept_bind]
    show ((expression n (Token.ofPunct .semicolon).kind).accept mark
      (.ofOperator .assign :: (v.tokens ++ .ofPunct .semicolon :: rest), cs)).bind _ =
        (Expr.rereadAssignment (.identifier (.text name) tpos) v).map _
    rw [accept_assigned hv.regular isStop_semicolon hn]
    rw [Expr.rereadAssignment]
    cases v.rereadAssigned <;> rfl

/-! ## Constants -/

/-- A constant behind its keyword. -/
theorem accept_constant (mark : Token) (cs : List TypedName) {c : TypedName}
    (h : c.IsConstant False)
    (hn : (c.constTokens ++ rest).length ≤ n + 1) :
    ∃ body, c.constTokens ++ rest = .ofKeyword .const_ :: body ∧
      (constant n).accept mark (body, cs) = c.rereadConst.map fun c' => (c', rest, cs) := by
  obtain ⟨name, dataType, value⟩ := c
  obtain ⟨⟨hname, s, rfl⟩, hvalue⟩ := h
  dsimp only at hname
  have htokens : (TypedName.mk name (.scalar s) value).constTokens ++ rest =
      .ofKeyword .const_ :: .ofWord name :: .ofPunct .colon :: .ofWord s.spelling ::
        .ofOperator .assign :: (value.tokens ++ .ofPunct .semicolon :: rest) := by
    simp [TypedName.constTokens, constTokens, typedTokens, DataType.text]
  refine ⟨_, htokens, ?_⟩
  rw [htokens] at hn
  have hread := accept_plainExpression (t := .ofPunct .semicolon) (n := n) mark cs hvalue
    isStop_semicolon rfl (show (_ ++ _ :: rest).length ≤ n by
      simp only [List.length_cons] at hn ⊢; omega)
  rw [hname.token]
  refine (accept_constant_of rfl rfl (kind_ofWord_scalar s) rfl (r := value.reread) hread).trans ?_
  unfold TypedName.rereadConst
  cases value.reread <;> rfl

/-! ## Parameters and structures -/

theorem accept_paramsLoop (mark : Token) (rest : List Token) (cs : List TypedName)
    {args : List TypedName} (hargs : args ≠ []) (h : ∀ a ∈ args, a.IsParam)
    (hn : (TypedName.paramsTokens args ++ .ofPunct .rparen :: rest).length ≤ n) :
    (read >>= paramsLoop n).accept mark
        (TypedName.paramsTokens args ++ .ofPunct .rparen :: rest, cs) =
      some (args.map TypedName.unplaced, rest, cs) := by
  induction args generalizing n with
  | nil => exact absurd rfl hargs
  | cons a args ih =>
    obtain ⟨⟨hname, s, hs⟩, pos, hbare⟩ := h a List.mem_cons_self
    obtain ⟨name, dataType, value⟩ := a
    cases hs
    cases hbare
    obtain ⟨m, rfl⟩ : ∃ m, n = m + 1 := by
      rw [List.length_append, List.length_cons] at hn
      exact ⟨n - 1, by omega⟩
    cases args with
    | nil =>
      show (read >>= paramsLoop (m + 1)).accept mark (.ofWord name :: .ofPunct .colon ::
        .ofWord s.spelling :: .ofPunct .rparen :: rest, cs) = _
      rw [hname.token, accept_paramsLoop_last rfl rfl (kind_ofWord_scalar s) rfl]
      rfl
    | cons a' args =>
      have ih := ih (n := m) (by simp) (fun b hb => h b (List.mem_cons_of_mem _ hb))
        (by simp [TypedName.paramsTokens] at hn ⊢; omega)
      show (read >>= paramsLoop (m + 1)).accept mark (.ofWord name :: .ofPunct .colon ::
        .ofWord s.spelling :: .ofPunct .comma ::
          (TypedName.paramsTokens (a' :: args) ++ .ofPunct .rparen :: rest), cs) = _
      rw [hname.token, accept_paramsLoop_cons rfl rfl (kind_ofWord_scalar s) rfl, ih]
      rfl

/-- An item of a structure behind its name. -/
theorem accept_structItem (mark : Token) (cs : List TypedName) {i : TypedName} (h : i.IsItem False)
    (hn : (i.itemTokens ++ rest).length ≤ n + 1) :
    ∃ body, i.itemTokens ++ rest = ⟨.ident, .text i.name, ⟨0, 0⟩⟩ :: body ∧
      (structItem n ⟨.ident, .text i.name, ⟨0, 0⟩⟩).accept mark (body, cs) =
        i.rereadItem.map fun i' => (i', rest, cs) := by
  obtain ⟨name, dataType, value⟩ := i
  obtain ⟨⟨hname, s, rfl⟩, hvalue⟩ := h
  dsimp only at hname hvalue
  have htokens : (TypedName.mk name (.scalar s) value).itemTokens ++ rest =
      ⟨.ident, .text name, ⟨0, 0⟩⟩ :: .ofPunct .colon :: .ofWord s.spelling ::
        (value.initializerTokens ++ .ofPunct .semicolon :: rest) := by
    simp [TypedName.itemTokens, typedTokens, DataType.text, hname.token]
  refine ⟨_, htokens, ?_⟩
  rw [htokens] at hn
  have hread := accept_initializer (n := n) mark rest cs hvalue
    ⟨.ident, .text name, ⟨0, 0⟩⟩ (by simp only [List.length_cons] at hn; omega)
  rw [accept_structItem_of rfl (kind_ofWord_scalar s) (r := value.rereadInitializer) hread]
  unfold TypedName.rereadItem
  cases value.rereadInitializer <;> rfl

theorem accept_structItems (mark : Token) (rest : List Token) (cs : List TypedName)
    {items : List TypedName} (h : ∀ i ∈ items, i.IsItem False)
    (hn : (items.flatMap TypedName.itemTokens ++ .ofKeyword .end_ :: rest).length ≤ n) :
    (read >>= structItems n).accept mark
        (items.flatMap TypedName.itemTokens ++ .ofKeyword .end_ :: rest, cs) =
      (items.mapM TypedName.rereadItem).map fun items' =>
        ((items', .ofKeyword .end_), rest, cs) := by
  induction items generalizing n with
  | nil =>
    obtain ⟨m, rfl⟩ : ∃ m, n = m + 1 := ⟨n - 1, by simp at hn; omega⟩
    rfl
  | cons i items ih =>
    obtain ⟨m, rfl⟩ : ∃ m, n = m + 1 := ⟨n - 1, by simp at hn; omega⟩
    rw [List.flatMap_cons, List.append_assoc] at hn ⊢
    obtain ⟨body, hbody, hitem⟩ := accept_structItem mark cs (h i List.mem_cons_self) hn
    have ih := ih (n := m) (fun j hj => h j (List.mem_cons_of_mem i hj)) (by
      have : 0 < i.itemTokens.length := by simp [TypedName.itemTokens, typedTokens]
      rw [List.length_append] at hn
      omega)
    rw [hbody, accept_structItems_cons rfl, hitem, List.mapM_cons]
    cases i.rereadItem with
    | none => rfl
    | some i' =>
      show ((Builder.read >>= structItems m).accept mark _).map _ = _
      rw [ih]
      cases items.mapM TypedName.rereadItem <;> rfl

/-- A structure behind its keyword. -/
theorem accept_structDef {s : Struct} (h : s.Regular False)
    (hn : (s.tokens ++ rest).length ≤ n + 1) :
    ∃ body, s.tokens ++ rest = .ofKeyword .struct_ :: body ∧
      (structDef n).accept mark (body, cs) = s.reread.map fun s' => (s', rest, cs) := by
  obtain ⟨name, items⟩ := s
  have htokens : (Struct.mk name items).tokens ++ rest =
      .ofKeyword .struct_ :: .ofWord name :: .ofKeyword .is_ ::
        (items.flatMap TypedName.itemTokens ++ .ofKeyword .end_ :: rest) := by
    simp [Struct.tokens]
  refine ⟨_, htokens, ?_⟩
  rw [htokens] at hn
  have hitems := accept_structItems (n := n) mark rest cs h.items
    (by simp only [List.length_cons] at hn ⊢; omega)
  have hname : IsName name := h.name
  rw [hname.token, accept_structDef_of rfl rfl rfl hitems]
  unfold Struct.reread
  cases items.mapM TypedName.rereadItem <;> rfl

/-! ## Imports -/

/-- A word in front of what the rest of a path is read as; a reserved one is reported. -/
theorem accept_word {w : List Char} (hw : w = [] ∨ IsWord w)
    {r : Option (String × List Token × List TypedName)}
    (hts : ∀ m, ts.length ≤ m → (read >>= importLoop m).accept mark (ts, cs) = r)
    (hn : (wordTokens w ++ ts).length ≤ n) :
    (read >>= importLoop n).accept mark (wordTokens w ++ ts, cs) =
      if w = [] ∨ TokenKind.ofWord (String.ofList w) = .ident then
        r.map fun q => (String.ofList w ++ q.1, q.2)
      else none := by
  rcases hw with rfl | hw
  · rw [if_pos (.inl rfl)]
    refine (hts n hn).trans ?_
    cases r <;> simp
  · have hne : w ≠ [] := by
      rintro rfl
      obtain ⟨⟨c, cs, hnil, -⟩, -⟩ := hw
      cases hnil
    rw [wordTokens, if_neg hne] at hn ⊢
    obtain ⟨m, rfl, hlen⟩ := bound_cons hn
    show (importLoop (m + 1) (.ofWord (String.ofList w))).accept mark (ts, cs) = _
    by_cases hk : TokenKind.ofWord (String.ofList w) = .ident
    · rw [if_pos (.inr hk), ← hts m hlen]
      exact accept_importLoop_word (t := .ofWord (String.ofList w)) hk
    · have hkeyword : (∃ k, TokenKind.ofWord (String.ofList w) = .keyword k) ∨
          ∃ s, TokenKind.ofWord (String.ofList w) = .type s := by
        unfold TokenKind.ofWord at hk ⊢
        split <;> simp_all
      rw [if_neg (by simp [hne, hk]), Token.ofWord]
      rcases hkeyword with ⟨k, hk⟩ | ⟨s, hk⟩ <;> rw [hk] <;> rfl

theorem accept_words {ws : List (List Char)} (hws : ws ≠ []) (h : ∀ w ∈ ws, w = [] ∨ IsWord w)
    (hn : (wordsTokens ws ++ .ofPunct .semicolon :: rest).length ≤ n) :
    (read >>= importLoop n).accept mark (wordsTokens ws ++ .ofPunct .semicolon :: rest, cs) =
      if ∀ w ∈ ws, w = [] ∨ TokenKind.ofWord (String.ofList w) = .ident then
        some (String.ofList (['/'].intercalate ws), rest, cs)
      else none := by
  induction ws generalizing n with
  | nil => exact absurd rfl hws
  | cons w ws ih =>
    have hw := h w List.mem_cons_self
    cases ws with
    | nil =>
      refine (accept_word hw (r := some ("", rest, cs)) (fun m hm => ?_) hn).trans ?_
      · obtain ⟨m, rfl, -⟩ := bound_cons hm
        rfl
      · simp
    | cons w' ws =>
      have htokens : wordsTokens (w :: w' :: ws) ++ .ofPunct .semicolon :: rest =
          wordTokens w ++
            (.ofPunct .dot :: (wordsTokens (w' :: ws) ++ .ofPunct .semicolon :: rest)) := by
        rw [← List.cons_append, ← List.append_assoc]
        rfl
      rw [htokens] at hn ⊢
      have htail (m : Nat) (hm : (Token.ofPunct .dot :: (wordsTokens (w' :: ws) ++
          .ofPunct .semicolon :: rest)).length ≤ m) :
          (read >>= importLoop m).accept mark (.ofPunct .dot :: (wordsTokens (w' :: ws) ++
            .ofPunct .semicolon :: rest), cs) =
              if ∀ v ∈ w' :: ws, v = [] ∨ TokenKind.ofWord (String.ofList v) = .ident then
                some ("/" ++ String.ofList (['/'].intercalate (w' :: ws)), rest, cs)
              else none := by
        obtain ⟨m, rfl, hlen⟩ := bound_cons hm
        rw [accept_importLoop_dot rfl,
          ih (by simp) (fun v hv => h v (List.mem_cons_of_mem w hv)) hlen]
        split <;> rfl
      have hjoin : String.ofList (['/'].intercalate (w :: w' :: ws)) =
          String.ofList w ++ ("/" ++ String.ofList (['/'].intercalate (w' :: ws))) := by
        rw [List.intercalate_cons_cons, ← String.toList_inj]
        simp
      rw [accept_word hw htail hn, hjoin]
      by_cases hw : w = [] ∨ TokenKind.ofWord (String.ofList w) = .ident
      · simp only [List.forall_mem_cons (p := fun v => v = [] ∨ TokenKind.ofWord _ = .ident), hw,
          true_and, if_true]
        split <;> rfl
      · rw [if_neg hw, if_neg fun hall => hw (hall w List.mem_cons_self)]

/-- An import behind its keyword. -/
theorem accept_import {path : String} (h : IsPath False path)
    (hn : (importTokens path ++ rest).length ≤ n + 1) :
    ∃ body, importTokens path ++ rest = .ofKeyword .import_ :: body ∧
      (importPath n).accept mark (body, cs) = (rereadImport path).map fun p => (p, rest, cs) := by
  have htokens : importTokens path ++ rest = .ofKeyword .import_ ::
      (wordsTokens (path.toList.splitOn '/') ++ .ofPunct .semicolon :: rest) := by
    simp [importTokens]
  refine ⟨_, htokens, ?_⟩
  rw [htokens] at hn
  have hjoin : String.ofList (['/'].intercalate (path.toList.splitOn '/')) = path := by
    rw [List.intercalate_splitOn, String.ofList_toList]
  refine (accept_words (List.splitOn_ne_nil _ _) (fun w hw => (h w hw).imp_right And.left)
    (Nat.le_of_succ_le_succ hn)).trans ?_
  rw [hjoin, rereadImport]
  split <;> rfl

end ToyLang.Parser
