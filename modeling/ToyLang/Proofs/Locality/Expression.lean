import ToyLang.Proofs.Locality.Builder
import ToyLang.Proofs.Progress.Expression

/-!
# Expressions and declarations heed the end mark

An expression that meets the end mark before its stop token reports it, and so does every mark that
has to stand somewhere, a type, a name, a row of parameters. What puts the end mark back without a
report is the look at what follows an identifier; the expression around it meets the end mark again.
-/

set_option autoImplicit false

namespace ToyLang

open Builder

variable {seen : Prop} {t : Token} {n : Nat}

/-! ## Expressions -/

namespace Parser

theorem heeds_member : member.Heeds Short seen := by
  refine heeds_read.bind fun t _ ht => ?_
  split
  · next hk => exact short_of_kind ht hk (by simp)
  · trivial

section
variable {nested : TokenKind → Builder Operand}
  (hn : ∀ stop seen, stop ≠ .eof → (nested stop).Heeds Short seen)
include hn

/-- What follows an identifier is put back, and may be the end mark. -/
theorem heeds_identifierSuffix (name : Token) :
    (identifierSuffix nested name).Heeds Anyhow seen := by
  refine heeds_read.bind fun t _ ht => ?_
  split
  · exact (hn _ _ (by simp)).bind fun o _ _ => o.idle_settle.heeds.bind fun _ _ _ => trivial
  · exact (hn _ _ (by simp)).bind fun o _ _ => o.idle_settle.heeds.bind fun _ _ _ => trivial
  · exact heeds_member.bind fun _ _ _ => trivial
  · exact (heeds_putBack ht).bind fun _ _ _ => trivial

theorem heeds_exprStep (t : Token) (st : ExprState) : (exprStep nested t st).Heeds Anyhow seen := by
  unfold exprStep
  split
  · exact (hn _ _ (by simp)).bind fun _ _ _ => trivial
  · exact (idle_listItem t st).heeds.mono fun _ _ _ => trivial
  · exact (heeds_identifierSuffix hn t).bind fun _ _ _ => trivial
  all_goals trivial

end

/-- The end mark is reported where another token had to stand. -/
theorem heeds_exprEnd {stop : TokenKind} (hstop : stop ≠ .eof) (first : Token) (st : ExprState)
    (ht : t.kind = .eof ↔ seen) : (exprEnd stop first t st).Heeds Short seen := by
  rw [exprEnd_eq]
  split
  · trivial
  · next hk =>
    have hshort : ¬seen := fun hs => hk ⟨ht.2 hs, hstop⟩
    exact (idle_exprResult first t st).heeds.mono fun _ s hs => hs ▸ hshort

theorem heeds_expressionLoop (n : Nat) {stop : TokenKind} (hstop : stop ≠ .eof) (first t : Token)
    (st : ExprState) (seen : Prop) (ht : t.kind = .eof ↔ seen) :
    (expressionLoop n stop first t st).Heeds Short seen := by
  induction n generalizing stop first t st seen with
  | zero => trivial
  | succ n ih =>
    rw [expressionLoop]
    split
    · exact heeds_exprEnd hstop first st ht
    · have hn (stop : TokenKind) (seen : Prop) (hstop : stop ≠ .eof) : (read >>= fun first =>
          expressionLoop n stop first first {}).Heeds Short seen :=
        heeds_read.bind fun first s hs => ih hstop first first {} s hs
      refine (heeds_exprStep hn t st).bind fun st _ _ => ?_
      exact heeds_read.bind fun u s hu => ih hstop first u st s hu

theorem heeds_expression (n : Nat) {stop : TokenKind} (hstop : stop ≠ .eof) :
    (expression n stop).Heeds Short seen :=
  heeds_read.bind fun t _ ht => heeds_expressionLoop n hstop t t {} _ ht

theorem heeds_plainExpression (n : Nat) {stop : TokenKind} (hstop : stop ≠ .eof) :
    (plainExpression n stop).Heeds Short seen :=
  (heeds_expression n hstop).bind fun o _ hs =>
    o.idle_settle.heeds.mono fun _ _ hs' => hs' ▸ hs

/-! ## Types, values and names -/

theorem heeds_dataType : dataType.Heeds Short seen := by
  refine heeds_read.bind fun t _ ht => ?_
  split
  · next hk => exact short_of_kind ht hk (by simp)
  · trivial

theorem heeds_initializer (o : Operand) (target : Expr) (t : Token) :
    (initializer o target t).Heeds (fun _ s => s = seen) seen := by
  cases o with
  | pending p => rfl
  | plain e =>
    unfold initializer
    dsimp only
    split
    · rfl
    · trivial

/-- What has to stand here is not the end mark. -/
theorem heeds_expect {kind : TokenKind} (hkind : kind ≠ .eof) (p : Problem)
    (ht : t.kind = .eof ↔ seen) : (expect kind p t).Heeds Short seen := by
  unfold expect
  split
  · next hk => exact short_of_kind ht hk hkind
  · trivial

theorem heeds_mark {β : Type} {k : Builder β} {Q : β → Prop → Prop} {kind : TokenKind}
    (hkind : kind ≠ .eof) (p : Problem) (hk : ∀ seen, ¬seen → k.Heeds Q seen) :
    (read >>= fun t => expect kind p t >>= fun _ => k).Heeds Q seen :=
  heeds_read.bind fun _ _ ht => (heeds_expect hkind p ht).bind fun _ s hs => hk s hs

theorem heeds_nameOr (p : Problem) (followers : List TokenKind) :
    (nameOr p followers).Heeds Shows seen := by
  refine heeds_read.bind fun t _ _ => ?_
  split
  · exact heeds_read.bind fun u _ hu => hu
  · trivial

theorem heeds_nameBeforeColon (p : Problem) : (nameBeforeColon p).Heeds Short seen := by
  refine heeds_read.bind fun t _ ht => ?_
  split
  · next hk => exact short_of_kind ht hk (by simp)
  · trivial

/-! ## Declarations -/

theorem heeds_paramsLoop (ht : t.kind = .eof ↔ seen) : (paramsLoop n t).Heeds Short seen := by
  induction n generalizing t seen with
  | zero => trivial
  | succ n ih =>
    rw [paramsLoop]
    split
    · trivial
    refine heeds_read.bind fun colon _ _ => ?_
    split
    · trivial
    refine heeds_dataType.bind fun d _ _ => heeds_read.bind fun u _ hu => ?_
    split
    · next hk => exact short_of_kind hu hk (by simp)
    · exact heeds_read.bind fun v _ hv => (ih hv).bind fun _ _ hs => hs
    · trivial

theorem heeds_params : (params n).Heeds Short seen := by
  refine heeds_read.bind fun t _ ht => ?_
  split
  · next hk => exact short_of_kind ht hk (by simp)
  · exact (heeds_putBack ht).bind fun _ _ _ => heeds_read.bind fun u _ hu => heeds_paramsLoop hu

theorem heeds_structItem (t : Token) : (structItem n t).Heeds Short seen := by
  refine heeds_mark (by simp) _ fun _ _ => heeds_dataType.bind fun d _ _ => ?_
  refine (heeds_expression n (by simp)).bind fun o _ hs => ?_
  exact (heeds_initializer o _ t).bind fun _ _ hs' => hs' ▸ hs

theorem heeds_structItems (ht : t.kind = .eof ↔ seen) : (structItems n t).Heeds Shows seen := by
  induction n generalizing t seen with
  | zero => trivial
  | succ n ih =>
    rw [structItems]
    split
    · exact ht
    · exact ht
    · refine (heeds_structItem t).bind fun item _ _ => heeds_read.bind fun u _ hu => ?_
      exact (ih hu).bind fun _ _ hr => hr
    · trivial

theorem heeds_structDef : (structDef n).Heeds Short seen := by
  refine (heeds_nameOr _ _).bind fun r _ hr => (heeds_expect (by simp) _ hr).bind fun _ _ _ => ?_
  refine heeds_read.bind fun u _ hu => (heeds_structItems hu).bind fun items _ hitems => ?_
  dsimp only
  split
  · trivial
  · next hk => exact fun hs => hk (hitems.2 hs)

theorem heeds_constant : (constant n).Heeds Short seen := by
  refine (heeds_nameBeforeColon _).bind fun name _ _ => heeds_mark (by simp) _ fun _ _ => ?_
  refine heeds_dataType.bind fun d _ _ => heeds_mark (by simp) _ fun _ _ => ?_
  exact (heeds_plainExpression n (by simp)).bind fun _ _ hs => hs

end Parser

end ToyLang
