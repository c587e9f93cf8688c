import ToyLang.Proofs.Hole.Builder

/-!
# Missing operands in declarations

Types, values, parameters, structures, constants and imports. An expression in a declaration stands
behind a colon, a type, an assignment or a bracket, so that an empty pair of parentheses at its
start is a group.
-/

set_option autoImplicit false

namespace ToyLang

open Builder

/-- An assignment with its target misses what its value misses. -/
theorem PendingAssignment.filled_complete {p : PendingAssignment} {target : Expr} {P : Pos → Prop}
    (h : p.value.Fits P) (ht : target.Fits P) : (p.complete target).Filled P :=
  (Expr.fits_operation .assign p.token.pos ht h).filled

/-- The value of the declared name, if there is one, misses empty groups only. -/
abbrev TypedName.Filled (src : Source) (c : TypedName) : Prop := c.expr.Filled src.Gap

namespace Parser

variable {src : Source} {before : List Token} {n : Nat} {t : Token} {P : Pos → Prop}

/-! ## Types and values -/

theorem leads_dataType :
    dataType.Leads src (fun _ before' => ∃ t : Token, before' = before ++ [t] ∧ t.kind ≠ .ident)
      before := by
  refine leads_read.bind fun t _ ht => ?_
  subst ht
  split
  · next hk => exact leads_pure ⟨t, rfl, by simp [hk]⟩
  · exact leads_report

theorem leads_initializer {o : Operand} {target : Expr} (h : o.Filled P) (ht : target.Fits P) :
    (initializer o target t).Leads src (fun e _ => e.Filled P) before := by
  cases o with
  | pending p => exact leads_pure (p.filled_complete h ht)
  | plain e =>
    unfold initializer
    dsimp only
    split
    · exact leads_pure h
    · exact leads_report

theorem leads_expect (kind : TokenKind) (p : Problem) :
    (expect kind p t).Leads src (fun _ before' => t.kind = kind ∧ before' = before) before :=
  leads_unless fun _ => leads_report

theorem leads_nameOr (p : Problem) (followers : List TokenKind) :
    (nameOr p followers).Leads src (fun r before' => ∃ b, before' = b ++ [r.2]) before := by
  refine leads_read.bind fun t _ ht => ?_
  subst ht
  split
  · exact leads_read.bind fun u _ hu => leads_pure ⟨_, hu⟩
  · exact leads_report

theorem leads_nameBeforeColon (p : Problem) :
    (nameBeforeColon p).Leads src Somewhere before := by
  refine leads_read.bind fun t _ _ => ?_
  split
  · exact leads_pure trivial
  · exact leads_report

/-! ## Parameters -/

theorem leads_paramsLoop :
    (paramsLoop n t).Leads src (fun args _ => ∀ a ∈ args, a.Filled src) before := by
  induction n generalizing t before with
  | zero => exact leads_fault
  | succ n ih =>
    rw [paramsLoop]
    split
    · exact leads_report
    refine leads_read.bind fun colon _ _ => ?_
    split
    · exact leads_report
    refine leads_dataType.bind fun d _ _ => leads_read.bind fun u _ _ => ?_
    have hparam : TypedName.Filled src { name := t.value.display, dataType := d } :=
      Expr.filled_leaf .none .absent ⟨0, 0⟩
    split
    · exact leads_pure (List.forall_mem_singleton.2 hparam)
    · refine leads_read.bind fun v _ _ => ih.bind fun args _ hargs => ?_
      exact leads_pure (List.forall_mem_cons.2 ⟨hparam, hargs⟩)
    · exact leads_report

theorem leads_params :
    (params n).Leads src (fun args _ => ∀ a ∈ args, a.Filled src) before := by
  refine leads_read.bind fun t _ ht => ?_
  subst ht
  split
  · exact leads_pure fun _ ha => absurd ha List.not_mem_nil
  · exact leads_putBack.bind fun _ _ _ => leads_read.bind fun u _ _ => leads_paramsLoop

/-! ## Structures -/

theorem leads_structItem :
    (structItem n t).Leads src (fun i _ => i.Filled src) before := by
  refine leads_read.bind fun colon _ _ => (leads_expect _ _).bind fun _ _ _ => ?_
  refine leads_dataType.bind fun d _ hd => ?_
  obtain ⟨u, rfl, hu⟩ := hd
  refine (leads_expression isStop_semicolon hu).bind fun o _ ho => ?_
  have htarget : (Expr.identifier (.ofPayload t.value) t.pos).Fits src.Gap :=
    Expr.fits_leaf .identifier _ _ (by simp)
  exact (leads_initializer ho.1 htarget).bind fun e _ he => leads_pure he

theorem leads_structItems :
    (structItems n t).Leads src (fun r _ => ∀ i ∈ r.1, i.Filled src) before := by
  induction n generalizing t before with
  | zero => exact leads_fault
  | succ n ih =>
    rw [structItems]
    split
    · exact leads_pure fun _ hi => absurd hi List.not_mem_nil
    · exact leads_pure fun _ hi => absurd hi List.not_mem_nil
    · refine leads_structItem.bind fun item _ hitem => leads_read.bind fun u _ _ => ?_
      exact ih.bind fun r _ hr => leads_pure (List.forall_mem_cons.2 ⟨hitem, hr⟩)
    · exact leads_report

theorem leads_structDef :
    (structDef n).Leads src (fun s _ => ∀ i ∈ s.items, i.Filled src) before := by
  refine (leads_nameOr _ _).bind fun r _ _ => (leads_expect _ _).bind fun _ _ _ => ?_
  refine leads_read.bind fun t _ _ => leads_structItems.bind fun items _ hitems => ?_
  dsimp only
  split
  · exact leads_report
  · exact leads_pure hitems

/-! ## Constants and imports -/

theorem leads_constant : (constant n).Leads src (fun c _ => c.Filled src) before := by
  refine (leads_nameBeforeColon _).bind fun name _ _ => leads_read.bind fun _ _ _ => ?_
  refine (leads_expect _ _).bind fun _ _ _ => leads_dataType.bind fun d _ _ => ?_
  refine leads_read.bind fun assign _ hassign => (leads_expect _ _).bind fun _ _ h => ?_
  obtain ⟨hkind, rfl⟩ := h
  subst hassign
  refine (leads_plainExpression isStop_semicolon (by simp [hkind])).bind fun e _ he => ?_
  exact leads_pure he.1

theorem leads_importLoop : (importLoop n t).Leads src Somewhere before := by
  induction n generalizing t before with
  | zero => exact leads_fault
  | succ n ih =>
    rw [importLoop]
    split
    · exact leads_pure trivial
    · exact leads_pure trivial
    · exact leads_read.bind fun u _ _ => ih.bind fun _ _ _ => leads_pure trivial
    · exact leads_read.bind fun u _ _ => ih.bind fun _ _ _ => leads_pure trivial
    · exact leads_report

theorem leads_importPath : (importPath n).Leads src Somewhere before :=
  leads_read.bind fun _ _ _ => leads_importLoop

end Parser

end ToyLang
