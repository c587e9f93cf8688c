import ToyLang.Parser.File
import ToyLang.Proofs.Locality.Expression

/-!
# Statements and functions heed the end mark

A block that meets the end mark reports it, so that a function without a report has met the `end` of
its body. Inside a block the end mark may be handed on, by a row of statements to the block and by a
body to the clauses behind it; the row of clauses ends at any token whatever.
-/

set_option autoImplicit false

namespace ToyLang.Parser

open Builder

variable {seen : Prop} {t : Token} {n : Nat}

/-! ## Statements -/

theorem heeds_variableDec (start : Token) : (variableDec n start).Heeds Short seen := by
  refine heeds_read.bind fun name _ _ => ?_
  split
  · trivial
  refine heeds_read.bind fun colon _ _ => ?_
  split
  · trivial
  refine heeds_dataType.bind fun d _ _ => heeds_read.bind fun t _ ht => ?_
  split
  · refine (heeds_plainExpression n (by simp)).bind fun size _ _ => heeds_read.bind fun u _ hu => ?_
    split
    · trivial
    · next hk => exact short_of_kind hu (Decidable.not_not.1 hk) (by simp)
  · refine (heeds_putBack ht).bind fun _ _ _ => (heeds_expression n (by simp)).bind fun o _ hs => ?_
    exact (heeds_initializer o _ name).bind fun _ _ hs' => hs' ▸ hs

theorem heeds_structDec (start : Token) : (structDec n start).Heeds Short seen := by
  refine (heeds_nameBeforeColon _).bind fun name _ _ => heeds_read.bind fun t _ ht => ?_
  refine (heeds_expect (by simp) _ ht).bind fun _ _ _ => ?_
  refine (heeds_plainExpression n (by simp)).bind fun e _ hs => ?_
  split
  · exact hs
  · trivial

/-- What follows the name is put back, and may be the end mark. -/
theorem heeds_target (name : Token) : (target n name).Heeds Anyhow seen := by
  refine heeds_read.bind fun t _ ht => ?_
  split
  · exact (heeds_plainExpression n (by simp)).bind fun _ _ _ => trivial
  · exact heeds_member.bind fun _ _ _ => trivial
  · exact (heeds_putBack ht).bind fun _ _ _ => trivial

theorem heeds_identifierStatement (name : Token) :
    (identifierStatement n name).Heeds Short seen := by
  refine (heeds_target name).bind fun target _ _ => ?_
  refine (heeds_expression n (by simp)).bind fun o _ hs => ?_
  cases o with
  | pending p => exact hs
  | plain e =>
    dsimp only
    split
    · exact hs
    · trivial

theorem heeds_keywordStatement (kind : StmtKind) (t : Token) :
    (keywordStatement kind t).Heeds Short seen :=
  heeds_mark (by simp) _ fun _ hs => hs

/-! ## Blocks and clauses -/

/-- A block reports the end mark. -/
theorem heeds_blockOf {loop : Token → Builder (List Stmt × Token)}
    (h : ∀ t seen, (t.kind = .eof ↔ seen) → (loop t).Heeds Shows seen) :
    (blockOf loop).Heeds Short seen := by
  refine heeds_read.bind fun t _ ht => (h t _ ht).bind fun r s hr => ?_
  dsimp only
  split
  · trivial
  · next hk => exact fun hs => hk (hr.2 hs)

section
variable {block : Bool → Builder (Stmt × Token)} {clauses : Bool → Token → Builder (List Stmt)}
  (hb : ∀ chained seen, (block chained).Heeds Short seen)
  (hc : ∀ closed t seen, ¬seen → (clauses closed t).Heeds Short seen)
include hb hc

theorem heeds_conditional (t : Token) : (conditional n block clauses t).Heeds Short seen := by
  refine (heeds_plainExpression n (by simp)).bind fun condition _ _ => ?_
  refine (hb _ _).bind fun r _ hs => ?_
  exact (hc _ _ _ hs).bind fun _ _ hs => hs

/-- A clause, its body read, in front of the clauses behind it. -/
theorem heeds_clauseThen (kind : StmtKind) (closed : Bool) (condition : Expr) (t : Token) :
    (do
      let (body, last) ← block true
      return clause kind condition body t.pos :: (← clauses closed last)).Heeds Short seen :=
  (hb true _).bind fun r _ hs => (hc closed r.2 _ hs).bind fun _ _ hs => hs

theorem heeds_statementWith (t : Token) :
    (statementWith n block clauses t).Heeds Short seen := by
  unfold statementWith
  split
  · exact (heeds_plainExpression n (by simp)).bind fun _ _ hs => hs
  · exact (heeds_variableDec t).bind fun _ _ hs => hs
  · exact heeds_constant.bind fun c _ hs => hs
  · exact (heeds_structDec t).bind fun _ _ hs => hs
  · exact (heeds_identifierStatement t).bind fun _ _ hs => hs
  · exact (heeds_plainExpression n (by simp)).bind fun _ _ _ => (hb _ _).bind fun _ _ hs => hs
  · exact (heeds_conditional hb hc t).bind fun _ _ hs => hs
  · exact (heeds_keywordStatement _ t).bind fun _ _ hs => hs
  · exact (heeds_keywordStatement _ t).bind fun _ _ hs => hs
  · trivial

end

/-- Rows of statements and chains of clauses, which hold each other. -/
theorem heeds_blockLoop_clauses (n : Nat) :
    (∀ chained t seen, (t.kind = .eof ↔ seen) → (blockLoop n chained t).Heeds Shows seen) ∧
      ∀ closed t seen, ¬seen → (clauses n closed t).Heeds Short seen := by
  induction n with
  | zero => exact ⟨fun _ _ _ _ => trivial, fun _ _ _ _ => trivial⟩
  | succ n ih =>
    obtain ⟨hloop, hclauses⟩ := ih
    have hblock (chained : Bool) (seen : Prop) :
        (blockOf (blockLoop n chained)).Heeds Short seen :=
      heeds_blockOf (hloop chained)
    refine ⟨fun chained t seen ht => ?_, fun closed t seen hshort => ?_⟩
    · rw [blockLoop]
      split
      · exact ht
      split
      · split
        · exact ht
        · trivial
      · refine (heeds_statementWith hblock hclauses t).bind fun s _ _ => ?_
        exact heeds_read.bind fun u _ hu => (hloop chained u _ hu).bind fun _ _ hr => hr
    · rw [clauses]
      split
      · split
        · trivial
        · exact (heeds_plainExpression n (by simp)).bind fun condition _ _ =>
            heeds_clauseThen hblock hclauses .elif_ closed condition t
      split
      · split
        · trivial
        · exact heeds_clauseThen hblock hclauses .else_ true .none t
      · exact hshort

theorem heeds_block (n : Nat) (chained : Bool) :
    (block n chained).Heeds Short seen :=
  heeds_blockOf ((heeds_blockLoop_clauses n).1 chained)

/-! ## Functions -/

theorem heeds_returnType (ht : t.kind = .eof ↔ seen) : (returnType t).Heeds Shows seen := by
  unfold returnType
  split
  · exact ht
  · exact heeds_dataType.bind fun _ _ _ => heeds_read.bind fun _ _ hu => hu

theorem heeds_optionalParams (ht : t.kind = .eof ↔ seen) :
    (optionalParams n t).Heeds Shows seen := by
  unfold optionalParams
  split
  · exact ht
  · exact heeds_params.bind fun _ _ _ => heeds_read.bind fun _ _ hu => hu

theorem heeds_function : (function n).Heeds Short seen := by
  refine (heeds_nameOr _ _).bind fun r _ hr => (heeds_optionalParams hr).bind fun args _ hargs => ?_
  refine (heeds_returnType hargs).bind fun d _ hd => ?_
  refine (heeds_expect (by simp) _ hd).bind fun _ _ _ => ?_
  exact (heeds_block n false).collected.bind fun _ _ hs => hs

end ToyLang.Parser
