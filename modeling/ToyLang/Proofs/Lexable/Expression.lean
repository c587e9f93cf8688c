import ToyLang.Proofs.Accepted.Expression
import ToyLang.Proofs.Lexable.Text
import ToyLang.Proofs.Origin.Tree

/-!
# Expressions without lexical errors

An expression from the tokens of a text has a text of its own without lexical errors
(`Expr.From.writable`). Nothing has to be complete for that: names may be empty, operands absent,
and an assignment may stand anywhere. What its tokens promise of names and literals is enough.
-/

set_option autoImplicit false

namespace ToyLang

variable {ts us : List Token}

/-- What stands where a name belongs is a name or nothing. -/
theorem Value.IsNameFrom.name {v : Value} (h : v.IsNameFrom Token.Lexed) :
    MaybeName v.name := by
  obtain rfl | ⟨t, ht, hk, hv⟩ := h
  · exact .inl rfl
  obtain ⟨s, hs, hname⟩ := ht.name hk
  have hv : v = .text s := by rcases hv with rfl | rfl <;> rw [hs] <;> rfl
  exact .inr (hv ▸ hname)

namespace Expr

/-- The expression has a text that is read without errors. -/
def Writable (e : Expr) : Prop := ∃ ts, NoErrors ts ∧ e.PrintsAs ts

theorem Writable.text {e : Expr} (h : e.Writable) : ∃ text, e.print = .ok text ∧ Lexable text := by
  obtain ⟨ts, hts, text, htext, hspells, -⟩ := h
  exact ⟨text, htext, ts, hts, hspells⟩

/-! ## Nodes -/

/-- An expression whose tokens are known. -/
theorem Regular.writable {definite : Prop} {e : Expr} (h : e.Regular definite)
    (hts : NoErrors e.tokens) : e.Writable := ⟨e.tokens, hts, h.printed⟩

theorem noErrors_operandTokens (kind : ExprKind) (h : NoErrors ts) :
    NoErrors (operandTokens kind ts) := by
  unfold operandTokens
  split
  · exact h.inParentheses
  · exact h

theorem Writable.operation {o : Operator} {l r : Expr} {pos : Pos} (hl : l.Writable)
    (hr : r.Writable) : (operation o l r pos).Writable := by
  obtain ⟨ts, hts, hl⟩ := hl
  obtain ⟨us, hus, hr⟩ := hr
  refine ⟨_, ?_, printsAs_operation hl hr⟩
  exact (noErrors_operandTokens l.kind hts).append
    ((noErrors_operator o).append (noErrors_operandTokens r.kind hus))

theorem Writable.item {e : Expr} (h : e.Writable) :
    ∃ text, e.print = .ok text ∧ Lexable (asItem e.kind text) := by
  obtain ⟨ts, hts, h⟩ := h
  obtain ⟨text, htext, hspells⟩ := h.item
  refine ⟨text, htext, _, ?_, hspells⟩
  unfold itemTokens
  split
  · exact hts.inParentheses
  · exact hts

theorem printItems_writable {items : List Expr} (h : ∀ e ∈ items, e.Writable) :
    ∃ texts, printItems items = .ok texts ∧ ∀ s ∈ texts, Lexable s := by
  induction items with
  | nil => exact ⟨[], rfl, fun _ hs => absurd hs List.not_mem_nil⟩
  | cons e items ih =>
    obtain ⟨he, hitems⟩ := List.forall_mem_cons.1 h
    obtain ⟨text, htext, hs⟩ := he.item
    obtain ⟨texts, htexts, hss⟩ := ih hitems
    exact ⟨asItem e.kind text :: texts, by rw [printItems, htext, htexts]; rfl,
      List.forall_mem_cons.2 ⟨hs, hss⟩⟩

theorem writable_list {items : List Expr} {pos : Pos} (h : ∀ e ∈ items, e.Writable) :
    Writable { kind := .list, items, pos } := by
  obtain ⟨texts, htexts, hlexable⟩ := printItems_writable h
  obtain ⟨ts, hts, hspells⟩ := lexable_intercalate hlexable
  exact ⟨ts, hts, _, by rw [print, htexts]; rfl, hspells, fun hk => by cases hk⟩

section
variable {name : Value} {pos : Pos} (hname : MaybeName name.name)
include hname

theorem writable_identifier : (identifier name pos).Writable := by
  obtain ⟨ts, hts, hspells⟩ := lexable_name hname
  exact ⟨ts, hts, name.name, rfl, hspells, fun _ => neat_name hname⟩

theorem writable_access {kind : ExprKind} {arg : Expr} (hkind : kind ∈ [.call, .arrayAcc])
    (harg : arg.Writable) : (Parser.accessExpr kind name arg pos).Writable := by
  obtain ⟨ts, hts, hspells⟩ := lexable_name hname
  obtain ⟨us, hus, harg⟩ := harg
  simp only [List.mem_cons, List.not_mem_nil, or_false] at hkind
  rcases hkind with rfl | rfl
  · exact ⟨_, hts.append hus.inParentheses, printsAs_call name (neat_name hname) hspells harg⟩
  · refine ⟨_, ?_, printsAs_arrayAcc name (neat_name hname) hspells harg⟩
    have hopen := (noErrors_punct .lbracket).append hus
    exact (hts.append hopen).append (noErrors_punct .rbracket)

theorem writable_structAcc {member : Value} {mpos : Pos}
    (hmember : MaybeName member.name) :
    (Parser.accessExpr .structAcc name (.identifier member mpos) pos).Writable := by
  obtain ⟨ts, hts, hspells⟩ := lexable_name hname
  obtain ⟨us, hus, hmspells⟩ := lexable_name hmember
  refine ⟨_, ?_,
    printsAs_structAcc name (neat_name hname) hspells member (neat_name hmember) hmspells⟩
  exact hts.append ((noErrors_punct .dot).append hus)

end

/-! ## Expressions and values -/

/-- **An expression from the tokens of a text has a text without lexical errors.** -/
theorem From.writable {e : Expr} (h : e.From Token.Lexed) : e.Writable := by
  induction h with
  | none t _ =>
    have hnone : (Expr.none t.pos).Regular False := .none t.pos
    exact hnone.writable noErrors_nil
  | number t ht hk => exact (Parser.regular_number ht hk).writable (noErrors_single (by simp))
  | string t ht hk => exact (Parser.regular_string ht hk).writable (noErrors_single (by simp))
  | char t ht hk => exact (Parser.regular_char ht hk).writable (noErrors_single (by simp))
  | bool b t _ =>
    have hbool : (Parser.boolExpr b t).Regular False := .bool b t.pos
    exact hbool.writable (noErrors_keyword _)
  | identifier name t _ hname => exact writable_identifier hname.name
  | operation o l r t _ _ _ ihl ihr => exact ihl.operation ihr
  | list items t _ _ ih => exact writable_list ih
  | access kind name arg t hkind _ hname _ ih => exact writable_access hname.name hkind ih
  | structAcc name member t u _ _ hname hmember =>
    exact writable_structAcc hname.name hmember.name

/-- What a declaration gives as its value is written, or the right side of it if it assigns. -/
theorem From.printInitializer_eq {T : Token → Prop} {e : Expr} (h : e.From T)
    (hnone : e.isNone = false) :
    ∃ v : Expr, v.From T ∧ e.printInitializer = (do return " := " ++ (← v.print)) := by
  unfold Expr.printInitializer
  rw [hnone]
  by_cases hk : e.kind = .operation .assign
  · cases h with
    | operation o l r t _ _ hr =>
      cases hk
      exact ⟨r, hr, rfl⟩
    | access kind _ _ _ hkind =>
      obtain rfl : kind = .operation .assign := hk
      simp at hkind
    | _ => cases hk
  · exact ⟨e, h, by simp [hk]⟩

/-- Whatever a declaration gives as its value, its text can be put behind the type. -/
theorem From.printInitializer {e : Expr} (h : e.From Token.Lexed) :
    ∃ text, e.printInitializer = .ok text ∧ Bounded text.toList ∧ Lexable text := by
  cases hnone : e.isNone with
  | true =>
    refine ⟨"", ?_, fun _ hc => by simp at hc, lexable_empty⟩
    unfold Expr.printInitializer
    rw [hnone]
    rfl
  | false =>
    obtain ⟨v, hv, hprint⟩ := h.printInitializer_eq hnone
    obtain ⟨text, htext, hlexable⟩ := hv.writable.text
    refine ⟨" := " ++ text, ?_, ?_, sealed_assign.then_lexable hlexable⟩
    · rw [hprint, htext]
      rfl
    · rw [String.toList_append]
      exact bounded_cons rfl

end Expr

end ToyLang
