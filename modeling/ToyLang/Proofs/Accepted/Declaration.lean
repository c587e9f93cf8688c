import ToyLang.Proofs.Accepted.Expression

/-!
# Declarations built without a report are regular

Types, values, parameters, structures, constants and imports. The path of an import is regular only:
words that stand side by side are joined to one, which may well be reserved.
-/

set_option autoImplicit false

namespace ToyLang

open Builder

/-! ## Paths -/

theorem splitOn_append {c : Char} {w : List Char} (h : c ∉ w) (cs : List Char) :
    (w ++ cs).splitOn c = (cs.splitOn c).modifyHead (w ++ ·) := by
  induction w with
  | nil =>
    show cs.splitOn c = (cs.splitOn c).modifyHead id
    rw [List.modifyHead_id, id]
  | cons d w ih =>
    obtain ⟨hd, hw⟩ := List.ne_and_not_mem_of_not_mem_cons h
    rw [List.cons_append, List.splitOn_cons_eq_if_modifyHead, if_neg (by simpa using hd.symm),
      ih hw, List.modifyHead_modifyHead]
    rfl

theorem IsWord.append {w v : List Char} (hw : IsWord w) (hv : v = [] ∨ IsWord v) :
    IsWord (w ++ v) := by
  obtain ⟨⟨c, cs, rfl, hc⟩, hall⟩ := hw
  refine ⟨⟨c, cs ++ v, rfl, hc⟩, fun d hd => ?_⟩
  rcases List.mem_append.1 hd with hd | hd
  · exact hall d hd
  · rcases hv with rfl | hv
    · cases hd
    · exact hv.2 d hd

namespace IsPath

variable {path : String}

theorem empty : IsPath False "" := by
  intro w hw
  exact .inl (List.mem_singleton.1 hw)

theorem slash (h : IsPath False path) : IsPath False ("/" ++ path) := by
  have hsplit : ("/" ++ path).toList.splitOn '/' = [] :: path.toList.splitOn '/' := by
    rw [String.toList_append]
    exact List.splitOn_cons_eq_if_modifyHead _ _
  unfold IsPath
  rw [hsplit]
  exact List.forall_mem_cons.2 ⟨.inl rfl, h⟩

theorem word {s : String} (hs : IsWord s.toList) (h : IsPath False path) :
    IsPath False (s ++ path) := by
  have hslash : '/' ∉ s.toList := fun hmem => absurd (hs.2 _ hmem) (by decide)
  unfold IsPath
  rw [String.toList_append, splitOn_append hslash]
  unfold IsPath at h
  cases hws : path.toList.splitOn '/' with
  | nil => exact absurd hws (List.splitOn_ne_nil _ _)
  | cons w ws =>
    rw [hws] at h
    obtain ⟨hw, hws⟩ := List.forall_mem_cons.1 h
    exact List.forall_mem_cons.2 ⟨.inr ⟨hs.append (hw.imp_right And.left), False.elim⟩, hws⟩

end IsPath

namespace Parser

variable {t : Token} {n : Nat}

/-! ## Types and values -/

theorem only_dataType : dataType.Only fun d => ∃ s, d = .scalar s := by
  refine only_read.bind fun t ht => ?_
  split
  · next s _ => exact ⟨s, rfl⟩
  · trivial

theorem only_initializer {o : Operand} (h : o.Regular) (name : String) (pos : Pos) (t : Token) :
    (initializer o (.identifier (.text name) pos) t).Only (Expr.Initializes False name) := by
  cases o with
  | pending p => exact .assign p.value p.token.pos pos ⟨h, False.elim⟩
  | plain e =>
    unfold initializer
    dsimp only
    split
    · next hnone =>
      cases h <;> cases hnone
      exact .absent _
    · trivial

theorem only_expect (k : TokenKind) (p : Problem) (t : Token) :
    (expect k p t).Only fun _ => t.kind = k :=
  only_unless fun _ => trivial

theorem only_nameOr (p : Problem) (followers : List TokenKind) :
    (nameOr p followers).Only fun r => IsName r.1 ∧ r.2.Lexed := by
  refine only_read.bind fun t ht => ?_
  split
  · next hk =>
    obtain ⟨s, hs, hname⟩ := ht.name hk
    rw [hs]
    exact only_read.bind fun u hu => ⟨hname, hu⟩
  · trivial

theorem only_nameBeforeColon (p : Problem) : (nameBeforeColon p).Only IsName := by
  refine only_read.bind fun t ht => ?_
  split
  · next hk =>
    obtain ⟨s, hs, hname⟩ := ht.name hk
    rw [hs]
    exact hname
  · trivial

/-! ## Parameters -/

theorem only_paramsLoop (ht : t.Lexed) :
    (paramsLoop n t).Only fun args => ∀ a ∈ args, a.IsParam := by
  induction n generalizing t with
  | zero => trivial
  | succ n ih =>
    rw [paramsLoop]
    split
    · trivial
    next hk =>
    obtain ⟨s, hs, hname⟩ := ht.name (by simpa using hk)
    refine only_read.bind fun colon _ => ?_
    split
    · trivial
    refine only_dataType.bind fun d hd => ?_
    have hparam : TypedName.IsParam { name := t.value.display, dataType := d } := by
      rw [hs]
      exact ⟨⟨hname, hd⟩, _, rfl⟩
    refine only_read.bind fun u _ => ?_
    split
    · exact List.forall_mem_singleton.2 hparam
    · refine only_read.bind fun v hv => (ih hv).bind fun args hargs => ?_
      exact List.forall_mem_cons.2 ⟨hparam, hargs⟩
    · trivial

theorem only_params : (params n).Only fun args => ∀ a ∈ args, a.IsParam := by
  refine only_read.bind fun t ht => ?_
  split
  · exact fun _ ha => absurd ha List.not_mem_nil
  · exact (only_putBack ht).bind fun _ _ => only_read.bind fun _ hu => only_paramsLoop hu

/-! ## Structures -/

theorem only_structItem (ht : t.Lexed) (hk : t.kind = .ident) :
    (structItem n t).Only (TypedName.IsItem False) := by
  obtain ⟨s, hs, hname⟩ := ht.name hk
  unfold structItem
  rw [hs]
  refine only_read.bind fun colon _ => (only_expect _ _ _).bind fun _ _ => ?_
  refine only_dataType.bind fun d hd => (only_expression n _).bind fun o ho => ?_
  exact (only_initializer ho s t.pos t).bind fun e he => ⟨⟨hname, hd⟩, he⟩

theorem only_structItems (ht : t.Lexed) :
    (structItems n t).Only fun r => ∀ i ∈ r.1, i.IsItem False := by
  induction n generalizing t with
  | zero => trivial
  | succ n ih =>
    rw [structItems]
    split
    · exact fun _ hi => absurd hi List.not_mem_nil
    · exact fun _ hi => absurd hi List.not_mem_nil
    · next hk =>
      refine (only_structItem ht hk).bind fun item hitem => ?_
      refine only_read.bind fun u hu => (ih hu).bind fun r hr => ?_
      exact List.forall_mem_cons.2 ⟨hitem, hr⟩
    · trivial

theorem only_structDef : (structDef n).Only (Struct.Regular False) := by
  refine (only_nameOr _ _).bind fun r hr => (only_expect _ _ _).bind fun _ _ => ?_
  refine only_read.bind fun t ht => (only_structItems ht).bind fun items hitems => ?_
  dsimp only
  split
  · trivial
  · exact ⟨hr.1, hitems⟩

/-! ## Constants and imports -/

theorem only_constant : (constant n).Only (TypedName.IsConstant False) := by
  refine (only_nameBeforeColon _).bind fun name hname => ?_
  refine only_read.bind fun _ _ => (only_expect _ _ _).bind fun _ _ => ?_
  refine only_dataType.bind fun d hd => ?_
  refine only_read.bind fun _ _ => (only_expect _ _ _).bind fun _ _ => ?_
  exact (only_plainExpression n _).bind fun e he => ⟨⟨hname, hd⟩, he⟩

theorem only_importLoop (ht : t.Lexed) : (importLoop n t).Only (IsPath False) := by
  induction n generalizing t with
  | zero => trivial
  | succ n ih =>
    rw [importLoop]
    split
    · exact IsPath.empty
    · exact IsPath.empty
    · next hk =>
      obtain ⟨s, hs, hname⟩ := ht.name hk
      rw [hs]
      exact only_read.bind fun u hu => (ih hu).bind fun path hpath => hpath.word hname.1
    · exact only_read.bind fun u hu => (ih hu).bind fun path hpath => hpath.slash
    · trivial

theorem only_importPath : (importPath n).Only (IsPath False) :=
  only_read.bind fun _ ht => only_importLoop ht

end Parser

end ToyLang
