import ToyLang.Parser.Declaration
import ToyLang.Proofs.Progress.Expression

/-!
# Declarations come to an end

Types, parameters, structures, constants and imports: each builder ends and leaves no more tokens
than it found, and each round of its loops leaves fewer.
-/

set_option autoImplicit false

namespace ToyLang.Parser

open Builder

variable {v : View} {m n : Nat} {t : Token}

/-! ## Types and values -/

theorem dataType_ensures (h : v.Within m) : dataType.Ensures (Leaves m) v := by
  unfold dataType
  refine (ensures_take h).bind fun t v' ht => ?_
  split <;> exact ht.behind

theorem still_initializer (o : Operand) (target : Expr) (t : Token) :
    Still (initializer o target t) := by
  unfold initializer
  split
  · exact still_pure _
  · split <;> exact fun _ => rfl

theorem expect_ensures (kind : TokenKind) (p : Problem) (h : v.Taken t m) :
    (expect kind p t).Ensures (Leaves m) v := by
  unfold expect
  split
  · exact h.behind
  · exact ensures_putBack h

/-! ## Parameters -/

/-- One round of `skipParams`. -/
def skipParamsRound (_ : Nat) (_ : Unit) (t : Token) : Builder (Round Unit Unit) := do
  if t.kind = .punct .rparen ∨ t.kind = .eof then return .last ()
  if t.kind = .keyword .is_ then return .last (← putBack t)
  return .again (← read) () id

theorem skipParams_repeats : Repeats (fun n _ => skipParams n) skipParamsRound := by
  intro n st t
  show skipParams (n + 1) t = _
  rw [skipParams]
  unfold skipParamsRound
  split
  · rfl
  split
  · rfl
  · simp [Round.goOn]

theorem skipParamsRound_ensures (n : Nat) :
    RoundEnsures (skipParamsRound n) (fun _ _ => True) Leaves n := by
  intro st t m v _ h hm
  unfold skipParamsRound
  split
  · exact h.behind
  next ht =>
  split
  · exact (ensures_putBack h).bind fun _ _ hv => hv
  · obtain ⟨k, rfl, hk⟩ := h.shorter fun he => ht (.inr he)
    exact Round.steps_again (fun _ => trivial) hk rfl fun _ _ hv => hv.mono (Nat.le_succ k)

theorem skipParams_ensures (h : v.Taken t m) (hm : m < n) :
    (skipParams n t).Ensures (Leaves m) v :=
  skipParams_repeats.ensures (fun n _ => skipParamsRound_ensures n) n () t m v trivial h hm

theorem abandonParams_ensures (p : Problem) (h : v.Taken t m) (hm : m < n) :
    (abandonParams n p t).Ensures (Leaves m) v :=
  skipParams_ensures h hm

/-- One round of `paramsLoop`. -/
def paramsRound (n : Nat) (_ : Unit) (name : Token) : Builder (Round Unit (List TypedName)) := do
  if name.kind ≠ .ident then
    abandonParams (n + 1) .argumentName name
    return .last []
  let colon ← read
  if colon.kind ≠ .punct .colon then
    abandonParams (n + 1) .argumentColon colon
    return .last []
  let param : TypedName := { name := name.value.display, dataType := ← dataType }
  let t ← read
  match t.kind with
  | .punct .rparen => return .last [param]
  | .punct .comma => return .again (← read) () (param :: ·)
  | _ =>
    abandonParams (n + 1) .argumentEnd t
    return .last [param]

theorem paramsLoop_repeats : Repeats (fun n _ => paramsLoop n) paramsRound := by
  intro n st t
  show paramsLoop (n + 1) t = _
  rw [paramsLoop]
  unfold paramsRound
  split
  · simp [Round.goOn]
  rw [LawfulMonad.bind_assoc]
  refine bind_congr fun colon => ?_
  split
  · simp [Round.goOn]
  rw [LawfulMonad.bind_assoc]
  refine bind_congr fun dataType => ?_
  rw [LawfulMonad.bind_assoc]
  refine bind_congr fun t => ?_
  split <;> simp_all [Round.goOn]

theorem paramsRound_ensures (n : Nat) :
    RoundEnsures (paramsRound n) (fun _ _ => True) Leaves n := by
  intro st t m v _ h hm
  unfold paramsRound
  split
  · exact (abandonParams_ensures _ h (by omega)).bind fun _ _ hv => hv
  next ht =>
  obtain ⟨k, rfl, hk⟩ := h.shorter (by simp_all)
  refine (ensures_take hk).bind fun colon v' hc => ?_
  split
  · exact (abandonParams_ensures _ hc (by omega)).bind fun _ _ hv => hv.mono (Nat.le_succ k)
  refine (dataType_ensures hc.behind).bind fun dataType v' hv => ?_
  refine (ensures_take hv).bind fun t v' ht => ?_
  split
  · exact ht.behind.mono (Nat.le_succ k)
  · exact Round.steps_again (fun _ => trivial) ht.behind rfl fun _ _ hv => hv.mono (Nat.le_succ k)
  · exact (abandonParams_ensures _ ht (by omega)).bind fun _ _ hv => hv.mono (Nat.le_succ k)

theorem paramsLoop_ensures (h : v.Taken t m) (hm : m < n) :
    (paramsLoop n t).Ensures (Leaves m) v :=
  paramsLoop_repeats.ensures (fun n _ => paramsRound_ensures n) n () t m v trivial h hm

theorem params_ensures (h : v.Within m) (hm : m < n) :
    (params n).Ensures (Leaves m) v := by
  unfold params
  refine (ensures_take h).bind fun t v' ht => ?_
  split
  · exact ht.behind
  · refine (ensures_putBack ht).bind fun _ v' hv => ?_
    exact (ensures_take hv).bind fun _ _ hu => paramsLoop_ensures hu hm

/-! ## Structures -/

theorem structItem_ensures (h : v.Within m) (hm : m < n) (t : Token) :
    (structItem n t).Ensures (Leaves m) v := by
  unfold structItem
  refine (ensures_take h).bind fun colon v' hc => ?_
  refine (expect_ensures _ _ hc).bind fun _ v' hv => ?_
  refine (dataType_ensures hv).bind fun dataType v' hv => ?_
  refine (nested_expression n _ _ _ hv hm).bind fun value v' hv => ?_
  exact ((still_initializer _ _ _).within hv).bind fun _ _ hv => hv

/-- One round of `structItems`. -/
def structItemsRound (n : Nat) (_ : Unit) (t : Token) :
    Builder (Round Unit (List TypedName × Token)) := do
  match t.kind with
  | .keyword .end_ | .eof => return .last ([], t)
  | .ident => do
    let item ← structItem n t
    return .again (← read) () fun r => (item :: r.1, r.2)
  | _ => do
    note .itemName t
    return .again (← read) () id

theorem structItems_repeats : Repeats (fun n _ => structItems n) structItemsRound := by
  intro n st t
  show structItems (n + 1) t = _
  rw [structItems]
  unfold structItemsRound
  split <;> simp_all [Round.goOn]

theorem structItemsRound_ensures (n : Nat) :
    RoundEnsures (structItemsRound n) (fun _ _ => True) EndsAt n := by
  intro st t m v _ h hm
  unfold structItemsRound
  split
  · exact h
  · exact h
  all_goals obtain ⟨k, rfl, hk⟩ := h.shorter (by simp_all)
  · refine (structItem_ensures hk hm t).bind fun item v' hv => ?_
    exact Round.steps_again (fun _ => trivial) hv rfl fun _ _ hv => hv.mono (Nat.le_succ k)
  · exact Round.steps_again (fun _ => trivial) hk rfl fun _ _ hv => hv.mono (Nat.le_succ k)

theorem structItems_ensures (h : v.Taken t m) (hm : m < n) :
    (structItems n t).Ensures (EndsAt m) v :=
  structItems_repeats.ensures (fun n _ => structItemsRound_ensures n) n () t m v trivial h hm

theorem nameOr_ensures (p : Problem) (followers : List TokenKind) (h : v.Within m) :
    (nameOr p followers).Ensures (EndsAt m) v := by
  unfold nameOr
  refine (ensures_take h).bind fun t v' ht => ?_
  split
  · exact (ensures_take ht.behind).bind fun _ _ ht => ht
  · show Ensures _ (if t.kind ∈ followers then _ else _) v'
    split
    · exact ht
    · exact (ensures_take ht.behind).bind fun _ _ ht => ht

theorem structDef_ensures (h : v.Within m) (hm : m < n) :
    (structDef n).Ensures (Leaves m) v := by
  unfold structDef
  refine (nameOr_ensures _ _ h).bind fun r v' ht => ?_
  refine (expect_ensures _ _ ht).bind fun _ v' hv => ?_
  refine (ensures_take hv).bind fun t v' ht => ?_
  refine (structItems_ensures ht hm).bind fun r v' ht => ?_
  dsimp only
  split <;> exact ht.behind

/-! ## Constants and imports -/

theorem nameBeforeColon_ensures (p : Problem) (h : v.Within m) :
    (nameBeforeColon p).Ensures (Leaves m) v := by
  unfold nameBeforeColon
  refine (ensures_take h).bind fun t v' ht => ?_
  split
  · exact ht.behind
  · show Ensures _ (if t.kind = .punct .colon then _ else _) v'
    split
    · exact (ensures_putBack ht).bind fun _ _ hv => hv
    · exact ht.behind

theorem constant_ensures (h : v.Within m) (hm : m < n) :
    (constant n).Ensures (Leaves m) v := by
  unfold constant
  refine (nameBeforeColon_ensures _ h).bind fun name v' hv => ?_
  refine (ensures_take hv).bind fun colon v' hc => ?_
  refine (expect_ensures _ _ hc).bind fun _ v' hv => ?_
  refine (dataType_ensures hv).bind fun dataType v' hv => ?_
  refine (ensures_take hv).bind fun t v' ht => ?_
  refine (expect_ensures _ _ ht).bind fun _ v' hv => ?_
  exact (plainExpression_ensures _ hv hm).bind fun _ _ hv => hv

/-- One round of `importLoop`. -/
def importRound (_ : Nat) (_ : Unit) (t : Token) : Builder (Round Unit String) := do
  match t.kind with
  | .punct .semicolon | .eof => return .last ""
  | .ident => return .again (← read) () (t.value.display ++ ·)
  | .punct .dot => return .again (← read) () ("/" ++ ·)
  | _ => do
    note .importToken t
    return .again (← read) () id

theorem importLoop_repeats : Repeats (fun n _ => importLoop n) importRound := by
  intro n st t
  show importLoop (n + 1) t = _
  rw [importLoop]
  unfold importRound
  split <;> simp_all [Round.goOn]

theorem importRound_ensures (n : Nat) :
    RoundEnsures (importRound n) (fun _ _ => True) Leaves n := by
  intro st t m v _ h hm
  unfold importRound
  split
  · exact h.behind
  · exact h.behind
  all_goals
    obtain ⟨k, rfl, hk⟩ := h.shorter (by simp_all)
    exact Round.steps_again (fun _ => trivial) hk rfl fun _ _ hv => hv.mono (Nat.le_succ k)

theorem importLoop_ensures (h : v.Taken t m) (hm : m < n) :
    (importLoop n t).Ensures (Leaves m) v :=
  importLoop_repeats.ensures (fun n _ => importRound_ensures n) n () t m v trivial h hm

theorem importPath_ensures (h : v.Within m) (hm : m < n) :
    (importPath n).Ensures (Leaves m) v := by
  unfold importPath
  exact (ensures_take h).bind fun t v' ht => importLoop_ensures ht hm

end ToyLang.Parser
