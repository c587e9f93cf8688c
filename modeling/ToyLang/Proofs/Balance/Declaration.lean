import ToyLang.Parser.Declaration
import ToyLang.Proofs.Balance.Expression

/-!
# Declarations keep the weight of their tokens

Parameters, structures, constants and imports. Whatever is skipped is skipped behind a report, so
that nothing is asked of the builders that skip. A declaration ends in its end mark or is reported,
and an absent value weighs nothing.
-/

set_option autoImplicit false

namespace ToyLang.Parser

open Builder

variable {w : Weighing} {declaring : Prop} {i n : Nat} {t : Token}

/-! ## Types and values -/

theorem carries_dataType :
    Carries w declaring i (fun _ => True) (fun _ => i) dataType := by
  refine carries_read.bind fun t _ => ?_
  split
  · next s hk =>
    rw [Weighing.token_of_kind hk (by simp)]
    exact carries_pure trivial rfl
  · exact carries_report _ _ _

/-- A target weighs nothing where it is a name. -/
theorem carries_initializer (o : Operand) {target : Expr} (ht : w.expr target = 0) (t : Token) :
    Carries w declaring (i + w.operand o) (fun _ => True) (fun e => i + w.expr e)
      (initializer o target t) := by
  cases o with
  | pending p =>
    refine carries_pure trivial ?_
    rw [Weighing.expr_complete, ht, Nat.zero_add]
    rfl
  | plain e =>
    unfold initializer
    dsimp only
    split
    · exact carries_pure trivial rfl
    · exact carries_report _ _ _

/-- What is not put back has the expected kind. -/
theorem carries_expect (kind : TokenKind) (p : Problem) (t : Token) :
    Carries w declaring i (fun _ => t.kind = kind) (fun _ => i) (expect kind p t) := by
  unfold expect
  split
  · next hk => exact carries_pure hk rfl
  · exact carries_report _ _ _

/-- A mark that has to stand here weighs what its kind does. -/
theorem carries_mark {α : Type} {R : α → Prop} {f : α → Nat} {b : Builder α} {kind : TokenKind}
    (hkind : kind ∉ [.number, .string, .char]) (p : Problem)
    (hb : Carries w declaring (i + w.kind kind) R f b) :
    Carries w declaring i R f (read >>= fun t => expect kind p t >>= fun _ => b) := by
  refine carries_read.bind fun t _ => (carries_expect kind p t).bind fun _ hk => ?_
  rw [Weighing.token_of_kind hk hkind]
  exact hb

/-! ## Names -/

theorem carries_nameOr (p : Problem) (followers : List TokenKind) :
    Carries w declaring i (fun _ => True) (fun r => i + w.token r.2) (nameOr p followers) := by
  refine carries_read.bind fun t _ => ?_
  split
  · next hk =>
    rw [Weighing.token_of_kind hk (by simp)]
    exact carries_read.bind fun u _ => carries_pure trivial rfl
  · exact carries_report _ _ _

theorem carries_nameBeforeColon (p : Problem) :
    Carries w declaring i (fun _ => True) (fun _ => i) (nameBeforeColon p) := by
  refine carries_read.bind fun t _ => ?_
  split
  · next hk =>
    rw [Weighing.token_of_kind hk (by simp)]
    exact carries_pure trivial rfl
  · exact carries_report _ _ _

/-! ## Parameters -/

/-- Parameters have no values, and weigh nothing. -/
theorem carries_paramsLoop :
    Carries w declaring (i + w.token t) (fun _ => True) (fun args => i + w.typedNames args)
      (paramsLoop n t) := by
  induction n generalizing t i with
  | zero => exact carries_fault _
  | succ n ih =>
    rw [paramsLoop]
    split
    · exact carries_report _ _ _
    next hname =>
    rw [Weighing.token_of_kind (not_not.1 hname) (by simp)]
    refine carries_read.bind fun colon _ => ?_
    split
    · exact carries_report _ _ _
    next hcolon =>
    rw [Weighing.token_of_kind (not_not.1 hcolon) (by simp)]
    refine carries_dataType.bind fun d _ => carries_read.bind fun u _ => ?_
    split
    · next hu =>
      rw [Weighing.token_of_kind hu (by simp)]
      exact carries_pure trivial (by simp [Weighing.kind])
    · next hu =>
      rw [Weighing.token_of_kind hu (by simp)]
      refine carries_read.bind fun next _ => ih.bind fun args _ => carries_pure trivial ?_
      simp [Weighing.kind]
    · exact carries_report _ _ _

theorem carries_params :
    Carries w declaring i (fun _ => True) (fun args => i + w.typedNames args) (params n) := by
  refine carries_read.bind fun t _ => ?_
  split
  · next hk =>
    rw [Weighing.token_of_kind hk (by simp)]
    exact carries_pure trivial (by simp [Weighing.kind])
  · exact (carries_putBack t).bind fun _ _ => carries_read.bind fun _ _ => carries_paramsLoop

/-! ## Structures -/

theorem carries_structItem (t : Token) :
    Carries w declaring i (fun _ => True) (fun item => i + w.expr item.expr) (structItem n t) := by
  refine carries_mark (by simp) _ ?_
  refine carries_dataType.bind fun d _ => ?_
  refine ((carries_expression n _ isStop_semicolon).after _).bind fun value _ => ?_
  rw [← Nat.add_assoc]
  refine (carries_initializer value (w.expr_identifier _ _) t).bind fun e _ => ?_
  exact carries_pure trivial rfl

theorem carries_structItems :
    Carries w declaring (i + w.token t) (fun r => r.2.kind ∈ [.keyword .end_, .eof])
      (fun r => i + w.typedNames r.1 + w.token r.2) (structItems n t) := by
  induction n generalizing t i with
  | zero => exact carries_fault _
  | succ n ih =>
    rw [structItems]
    split
    · next hk => exact carries_pure (by simp [hk]) rfl
    · next hk => exact carries_pure (by simp [hk]) rfl
    · next hk =>
      rw [Weighing.token_of_kind hk (by simp)]
      refine (carries_structItem t).bind fun item _ => ?_
      refine carries_read.bind fun u _ => ih.bind fun r hr => carries_pure hr ?_
      simp only [Weighing.kind, Weighing.typedNames_cons]
      omega
    · exact carries_report _ _ _

/-- **A structure** weighs as much as its tokens behind the keyword. -/
theorem carries_structDef :
    Carries w declaring (i + w.keyword .struct_) (fun _ => True) (fun s => i + w.struct s)
      (structDef n) := by
  refine (carries_nameOr _ _).bind fun r _ => ?_
  refine (carries_expect _ _ r.2).bind fun _ his => ?_
  rw [Weighing.token_of_kind his (by simp)]
  refine carries_read.bind fun u _ => carries_structItems.bind fun row hlast => ?_
  obtain ⟨items, last⟩ := row
  dsimp only at hlast ⊢
  split
  · exact carries_report _ _ _
  · next heof =>
    have hend : last.kind = .keyword .end_ := by simpa [heof] using hlast
    refine carries_pure trivial ?_
    rw [Weighing.token_of_kind hend (by simp)]
    simp only [Weighing.kind, Weighing.struct]
    omega

/-! ## Constants and imports -/

/-- **A constant** weighs as much as its tokens behind the keyword. -/
theorem carries_constant :
    Carries w declaring (i + w.keyword .const_) (fun _ => True) (fun c => i + w.constant c)
      (constant n) := by
  refine (carries_nameBeforeColon _).bind fun name _ => ?_
  refine carries_mark (by simp) _ ?_
  refine carries_dataType.bind fun d _ => ?_
  refine carries_mark (by simp) _ ?_
  refine (carries_plainExpression n isStop_semicolon).bind fun e _ => carries_pure trivial ?_
  simp only [Weighing.kind, Weighing.constant]
  omega

/-- What is left of an import weighs nothing. -/
theorem carries_importLoop :
    Carries w declaring (i + w.token t) (fun _ => True) (fun _ => i) (importLoop n t) := by
  induction n generalizing t i with
  | zero => exact carries_fault _
  | succ n ih =>
    rw [importLoop]
    split
    · next hk => exact carries_pure trivial (by rw [Weighing.token_of_kind hk (by simp)]; rfl)
    · next hk => exact carries_pure trivial (by rw [Weighing.token_of_kind hk (by simp)]; rfl)
    · next hk =>
      rw [Weighing.token_of_kind hk (by simp)]
      exact carries_read.bind fun u _ => ih.bind fun path _ => carries_pure trivial rfl
    · next hk =>
      rw [Weighing.token_of_kind hk (by simp)]
      exact carries_read.bind fun u _ => ih.bind fun path _ => carries_pure trivial rfl
    · exact carries_report _ _ _

theorem carries_importPath :
    Carries w declaring i (fun _ => True) (fun _ => i) (importPath n) :=
  carries_read.bind fun _ _ => carries_importLoop

end ToyLang.Parser
