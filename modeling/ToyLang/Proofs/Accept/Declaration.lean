import ToyLang.Proofs.Accept.Expression

/-!
# Accepting declarations

The accepting run of the builders of declarations on tokens of the kinds they expect, wherever these
stand. What is read for the value of a declaration is a parameter `r`, so the lemmas say what each
builder makes of it, also where it is not accepted.
-/

set_option autoImplicit false

namespace ToyLang.Parser

open Builder

variable {mark t u name colon type op semicolon : Token} {n : Nat} {ts rest : List Token}
  {cs : List TypedName} {s : Scalar} {r : Option Expr}

/-! ## Parts -/

theorem accept_expect {k : TokenKind} {p : Problem} (h : t.kind = k)
    (s : List Token × List TypedName) : (expect k p t).accept mark s = some ((), s) := by
  rw [expect, if_pos h]
  rfl

theorem accept_dataType (ht : t.kind = .type s) :
    dataType.accept mark (t :: ts, cs) = some (.scalar s, ts, cs) := by
  rw [dataType, accept_read_bind]
  simp only [ht, accept_pure]

theorem accept_nameBeforeColon {p : Problem} (ht : t.kind = .ident) :
    (nameBeforeColon p).accept mark (t :: ts, cs) = some (t.value.display, ts, cs) := by
  rw [nameBeforeColon, accept_read_bind, if_pos ht]
  rfl

theorem accept_nameOr {p : Problem} {followers : List TokenKind} (ht : t.kind = .ident) :
    (nameOr p followers).accept mark (t :: u :: ts, cs) = some ((t.value.display, u), ts, cs) := by
  rw [nameOr, accept_read_bind, if_pos ht]
  rfl

/-! ## Declarations with a value -/

/-- A constant, behind its keyword, is what its value makes it. -/
theorem accept_constant_of (hname : name.kind = .ident) (hcolon : colon.kind = .punct .colon)
    (htype : type.kind = .type s) (hop : op.kind = .operator .assign)
    (hvalue : (plainExpression n (.punct .semicolon)).accept mark (ts, cs) =
      r.map fun e => (e, rest, cs)) :
    (constant n).accept mark (name :: colon :: type :: op :: ts, cs) =
      r.map fun e => (⟨name.value.display, .scalar s, e⟩, rest, cs) := by
  unfold constant
  rw [accept_bind, accept_nameBeforeColon hname, Option.bind_some, accept_read_bind, accept_bind,
    accept_expect hcolon, Option.bind_some, accept_bind, accept_dataType htype, Option.bind_some,
    accept_read_bind, accept_bind, accept_expect hop, Option.bind_some, accept_bind_pure, hvalue,
    Option.map_map]
  rfl

/-- So is an item of a structure, behind its name. -/
theorem accept_structItem_of (hcolon : colon.kind = .punct .colon) (htype : type.kind = .type s)
    (hvalue : (expression n (.punct .semicolon) >>= fun o =>
        initializer o (.identifier (.ofPayload name.value) name.pos) name).accept mark (ts, cs) =
      r.map fun e => (e, rest, cs)) :
    (structItem n name).accept mark (colon :: type :: ts, cs) =
      r.map fun e => (⟨name.value.display, .scalar s, e⟩, rest, cs) := by
  unfold structItem
  rw [accept_read_bind, accept_bind, accept_expect hcolon, Option.bind_some, accept_bind,
    accept_dataType htype, Option.bind_some]
  dsimp only
  rw [← LawfulMonad.bind_assoc, accept_bind_pure, hvalue, Option.map_map]
  rfl

/-- So is a variable; no bracket follows its type. -/
theorem accept_variableDec_of {start : Token} (hname : name.kind = .ident)
    (hcolon : colon.kind = .punct .colon) (htype : type.kind = .type s)
    (ht : t.kind ≠ .punct .lbracket)
    (hvalue : (expression n (.punct .semicolon) >>= fun o =>
        initializer o (.identifier (.text name.value.display) name.pos) name).accept mark
          (t :: ts, cs) =
      r.map fun e => (e, rest, cs)) :
    (variableDec n start).accept mark (name :: colon :: type :: t :: ts, cs) =
      r.map fun e => ({ kind := .varDec, name := name.value.display, dataType := .scalar s,
                        expr := e, pos := start.pos }, rest, cs) := by
  unfold variableDec
  rw [accept_read_bind, if_neg (not_not_intro hname), accept_read_bind,
    if_neg (not_not_intro hcolon), accept_bind, accept_dataType htype, Option.bind_some,
    accept_read_bind, if_neg ht, accept_bind, accept_putBack, Option.bind_some]
  dsimp only
  rw [← LawfulMonad.bind_assoc, accept_bind_pure, hvalue, Option.map_map]
  rfl

/-- So is an array, with its size in brackets. -/
theorem accept_arrayDec_of {start : Token} (hname : name.kind = .ident)
    (hcolon : colon.kind = .punct .colon) (htype : type.kind = .type s)
    (ht : t.kind = .punct .lbracket) (hsemicolon : semicolon.kind = .punct .semicolon)
    (hsize : (plainExpression n (.punct .rbracket)).accept mark (ts, cs) =
      r.map fun e => (e, semicolon :: rest, cs)) :
    (variableDec n start).accept mark (name :: colon :: type :: t :: ts, cs) =
      r.map fun e => ({ kind := .arrayDec, name := name.value.display, dataType := .scalar s,
                        expr := e, pos := start.pos }, rest, cs) := by
  unfold variableDec
  rw [accept_read_bind, if_neg (not_not_intro hname), accept_read_bind,
    if_neg (not_not_intro hcolon), accept_bind, accept_dataType htype, Option.bind_some,
    accept_read_bind, if_pos ht, accept_bind, hsize]
  cases r with
  | none => rfl
  | some e =>
    rw [Option.map_some, Option.bind_some, accept_read_bind, if_neg (not_not_intro hsemicolon)]
    rfl

/-- A variable of a structure type, with the name of that type. -/
theorem accept_structDec_of {start : Token} (hname : name.kind = .ident)
    (hcolon : colon.kind = .punct .colon) (htype : type.kind = .ident)
    (hsemicolon : semicolon.kind = .punct .semicolon)
    (hn : (type :: semicolon :: rest).length ≤ n) :
    (structDec n start).accept mark (name :: colon :: type :: semicolon :: rest, cs) =
      some ({ kind := .structDec, name := name.value.display,
              expr := .identifier (.ofPayload type.value) type.pos, pos := start.pos },
        rest, cs) := by
  have hstop : IsStop (.punct .semicolon) := isStop_semicolon
  have hfollows : Follows (semicolon :: rest) := (hsemicolon ▸ hstop : IsStop _).follows rest
  have hread : (plainExpression n (.punct .semicolon)).accept mark (type :: semicolon :: rest, cs) =
      some (.identifier (.ofPayload type.value) type.pos, rest, cs) := by
    obtain ⟨n, rfl, hlen⟩ := bound_cons hn
    obtain ⟨n, rfl, -⟩ := bound_cons hlen
    rw [plainExpression, accept_bind, accept_expression_cons,
      accept_name (r := some _) htype hstop (accept_suffix_bare hfollows), Option.bind_some,
      accept_stop hsemicolon hstop]
    rfl
  unfold structDec
  rw [accept_bind, accept_nameBeforeColon hname, Option.bind_some, accept_read_bind, accept_bind,
    accept_expect hcolon, Option.bind_some, accept_bind, hread]
  rfl

/-! ## Rows -/

section

variable (hname : name.kind = .ident) (hcolon : colon.kind = .punct .colon)
  (htype : type.kind = .type s)

include hname hcolon htype

/-- A parameter in front of others. -/
theorem accept_paramsLoop_cons (ht : t.kind = .punct .comma) :
    (read >>= paramsLoop (n + 1)).accept mark (name :: colon :: type :: t :: ts, cs) =
      ((read >>= paramsLoop n).accept mark (ts, cs)).map fun r =>
        (⟨name.value.display, .scalar s, .none⟩ :: r.1, r.2) := by
  rw [accept_read_bind, paramsLoop, if_neg (not_not_intro hname), accept_read_bind,
    if_neg (not_not_intro hcolon), accept_bind, accept_dataType htype, Option.bind_some,
    accept_read_bind]
  simp only [ht]
  exact accept_bind_pure mark (read >>= paramsLoop n) (_ :: ·) (ts, cs)

/-- The last parameter. -/
theorem accept_paramsLoop_last (ht : t.kind = .punct .rparen) :
    (read >>= paramsLoop (n + 1)).accept mark (name :: colon :: type :: t :: ts, cs) =
      some ([⟨name.value.display, .scalar s, .none⟩], ts, cs) := by
  rw [accept_read_bind, paramsLoop, if_neg (not_not_intro hname), accept_read_bind,
    if_neg (not_not_intro hcolon), accept_bind, accept_dataType htype, Option.bind_some,
    accept_read_bind]
  simp only [ht, accept_pure]

end

/-- An item of a structure in front of others. -/
theorem accept_structItems_cons (ht : t.kind = .ident) :
    (read >>= structItems (n + 1)).accept mark (t :: ts, cs) =
      ((structItem n t).accept mark (ts, cs)).bind fun r =>
        ((read >>= structItems n).accept mark r.2).map fun q =>
          ((r.1 :: q.1.1, q.1.2), q.2) := by
  rw [accept_read_bind, structItems]
  simp only [ht]
  refine (accept_bind mark (structItem n t) _ (ts, cs)).trans (congrArg _ (funext fun r => ?_))
  exact accept_bind_pure mark (read >>= structItems n) (fun q => (r.1 :: q.1, q.2)) r.2

/-- The end of a structure. -/
theorem accept_structItems_end (ht : t.kind = .keyword .end_) :
    (read >>= structItems (n + 1)).accept mark (t :: ts, cs) = some (([], t), ts, cs) := by
  rw [accept_read_bind, structItems]
  simp only [ht, accept_pure]

/-- A structure, behind its keyword, is what its items make it. -/
theorem accept_structDef_of {is_ last : Token} {l : Option (List TypedName)}
    (hname : name.kind = .ident) (his : is_.kind = .keyword .is_)
    (hlast : last.kind = .keyword .end_)
    (hitems : (read >>= structItems n).accept mark (ts, cs) =
      l.map fun items => ((items, last), rest, cs)) :
    (structDef n).accept mark (name :: is_ :: ts, cs) =
      l.map fun items => (⟨name.value.display, items⟩, rest, cs) := by
  have hstart : (structDef n).accept mark (name :: is_ :: ts, cs) =
      ((read >>= structItems n) >>= fun r => do
        if r.2.kind = .eof then note .structEnd r.2
        return { name := name.value.display, items := r.1 }).accept mark (ts, cs) := by
    unfold structDef
    rw [accept_bind, accept_nameOr hname, Option.bind_some]
    dsimp only
    rw [accept_bind, accept_expect his]
    rfl
  rw [hstart, accept_bind, hitems]
  cases l with
  | none => rfl
  | some items =>
    rw [Option.map_some, Option.bind_some, if_neg (by simp [hlast])]
    rfl

/-! ## Imports -/

/-- A word of a path. -/
theorem accept_importLoop_word (ht : t.kind = .ident) :
    (read >>= importLoop (n + 1)).accept mark (t :: ts, cs) =
      ((read >>= importLoop n).accept mark (ts, cs)).map fun r =>
        (t.value.display ++ r.1, r.2) := by
  rw [accept_read_bind, importLoop_name n ht]
  exact accept_bind_pure mark (importPath n) (t.value.display ++ ·) (ts, cs)

/-- A dot in a path. -/
theorem accept_importLoop_dot (ht : t.kind = .punct .dot) :
    (read >>= importLoop (n + 1)).accept mark (t :: ts, cs) =
      ((read >>= importLoop n).accept mark (ts, cs)).map fun r => ("/" ++ r.1, r.2) := by
  rw [accept_read_bind, importLoop_dot n ht]
  exact accept_bind_pure mark (importPath n) ("/" ++ ·) (ts, cs)

/-- The end of a path. -/
theorem accept_importLoop_end (ht : t.kind = .punct .semicolon) :
    (read >>= importLoop (n + 1)).accept mark (t :: ts, cs) = some ("", ts, cs) := by
  rw [accept_read_bind, importLoop_end n (.inl ht), accept_pure]

/-! ## Headings of functions -/

theorem accept_optionalParams_absent (ht : t.kind ≠ .punct .lparen) :
    (read >>= optionalParams n).accept mark (t :: ts, cs) = some (([], t), ts, cs) := by
  rw [accept_read_bind, optionalParams, if_pos ht]
  rfl

theorem accept_optionalParams_empty (ht : t.kind = .punct .lparen) (hu : u.kind = .punct .rparen)
    {v : Token} :
    (read >>= optionalParams n).accept mark (t :: u :: v :: ts, cs) = some (([], v), ts, cs) := by
  rw [accept_read_bind, optionalParams, if_neg (not_not_intro ht), accept_bind, params,
    accept_read_bind, if_pos hu]
  rfl

/-- A list of parameters, the first of which has the name `u`. -/
theorem accept_optionalParams_loop (ht : t.kind = .punct .lparen) (hu : u.kind = .ident)
    {v : Token} {args : List TypedName}
    (hloop : (read >>= paramsLoop n).accept mark (u :: ts, cs) = some (args, v :: rest, cs)) :
    (read >>= optionalParams n).accept mark (t :: u :: ts, cs) = some ((args, v), rest, cs) := by
  have hparams : (params n).accept mark (u :: ts, cs) =
      (read >>= paramsLoop n).accept mark (u :: ts, cs) := by
    rw [params, accept_read_bind, if_neg (by simp [hu]), accept_bind, accept_putBack]
    rfl
  rw [accept_read_bind, optionalParams, if_neg (not_not_intro ht), accept_bind, hparams, hloop]
  rfl

theorem accept_returnType_absent (ht : t.kind ≠ .punct .arrow) :
    (read >>= returnType).accept mark (t :: ts, cs) = some ((.void, t), ts, cs) := by
  rw [accept_read_bind, returnType, if_pos ht]
  rfl

theorem accept_returnType_arrow (ht : t.kind = .punct .arrow) (htype : type.kind = .type s) :
    (read >>= returnType).accept mark (t :: type :: u :: ts, cs) =
      some ((.scalar s, u), ts, cs) := by
  rw [accept_read_bind, returnType, if_neg (not_not_intro ht), accept_bind,
    accept_dataType htype]
  rfl

end ToyLang.Parser
