import ToyLang.Printer.File
import ToyLang.Proofs.Placement.File
import ToyLang.Proofs.Shape.Tree

/-!
# Printing does not see positions

The text of an expression is that of the expression without positions (`Expr.print_unplaced`). So it
is for statements and files that are well formed (`File.WellFormed.unparse_unplaced`): where a
statement has no form, the failure tells its position.
-/

set_option autoImplicit false

namespace ToyLang

/-! ## Expressions -/

namespace Expr

theorem printItems_unplaced {es : List Expr} (h : ∀ e ∈ es, e.unplaced.print = e.print) :
    printItems (es.map unplaced) = printItems es := by
  induction es with
  | nil => rfl
  | cons e es ih =>
    rw [List.map_cons, printItems, printItems, kind_unplaced, h e List.mem_cons_self,
      ih fun d hd => h d (List.mem_cons_of_mem e hd)]

theorem printArg_unplaced {es : List Expr} (h : ∀ e ∈ es, e.unplaced.print = e.print) :
    printArg (es.map unplaced) = printArg es := by
  cases es with
  | nil => rfl
  | cons e es => rw [List.map_cons, printArg, printArg, h e List.mem_cons_self]

theorem printOperands_unplaced {es : List Expr} (kind : ExprKind)
    (h : ∀ e ∈ es, e.unplaced.print = e.print) :
    printOperands kind (es.map unplaced) = printOperands kind es := by
  match es, h with
  | [], _ => rfl
  | [_], _ => rfl
  | l :: r :: _, h =>
    rw [List.map_cons, List.map_cons, printOperands, printOperands, kind_unplaced, kind_unplaced,
      h l (by simp), h r (by simp)]

/-- **The text of an expression is that of the expression without positions.** -/
theorem print_unplaced : (e : Expr) → e.unplaced.print = e.print
  | ⟨kind, value, args, items, pos⟩ => by
    have hargs : ∀ a ∈ args, a.unplaced.print = a.print := fun a _ => print_unplaced a
    have hitems : ∀ i ∈ items, i.unplaced.print = i.print := fun i _ => print_unplaced i
    rw [unplaced_mk]
    cases kind with
    | operation o | binary => rw [print, print, printOperands_unplaced _ hargs]
    | call | arrayAcc => rw [print, print, printArg_unplaced hargs]
    | list => rw [print, print, printItems_unplaced hitems]
    | structAcc =>
      cases args with
      | nil => rfl
      | cons m args => rw [List.map_cons, print, print, value_unplaced]
    | _ => rfl

theorem operandToPrint_unplaced (e : Expr) (side : Side) :
    e.unplaced.operandToPrint side = (e.operandToPrint side).map unplaced := by
  obtain ⟨kind, value, args, items, pos⟩ := e
  rw [unplaced_mk]
  match args, side with
  | [], _ | [_], _ | _ :: _ :: _, .left | _ :: _ :: _, .right => rfl

theorem printInitializer_unplaced (e : Expr) :
    e.unplaced.printInitializer = e.printInitializer := by
  have value (e : Expr) : (do return " := " ++ (← e.unplaced.print) : Except PrintError String) =
      (do return " := " ++ (← e.print)) := by rw [print_unplaced]
  unfold printInitializer
  rw [isNone_unplaced, kind_unplaced, operandToPrint_unplaced]
  split
  · rfl
  split
  · cases e.operandToPrint .right with
    | error x => rfl
    | ok v => exact value v
  · exact value e

end Expr

/-! ## Statements -/

/-- Rows whose members are printed alike. -/
theorem forM_map_print {α : Type} {f : α → α} {p : α → Printing Unit} {as : List α}
    (h : ∀ a ∈ as, p (f a) = p a) : (as.map f).forM p = as.forM p := by
  induction as with
  | nil => rfl
  | cons a as ih =>
    show (do p (f a); (as.map f).forM p) = (do p a; as.forM p)
    rw [h a List.mem_cons_self, ih fun b hb => h b (List.mem_cons_of_mem a hb)]

namespace Stmt

theorem printAll_unplaced {ss : List Stmt} (h : ∀ s ∈ ss, s.unplaced.print = s.print) :
    printAll (ss.map unplaced) = printAll ss := by
  rw [printAll_eq_forM, printAll_eq_forM, forM_map_print h]

theorem printBody_unplaced {ss : List Stmt} (h : ∀ s ∈ ss, s.unplaced.print = s.print) :
    printBody (ss.map unplaced) = printBody ss := by
  cases ss with
  | nil => rfl
  | cons s ss => rw [List.map_cons, printBody, printBody, h s List.mem_cons_self]

theorem WellFormed.print_unplaced {s : Stmt} (h : s.WellFormed) :
    s.unplaced.print = s.print := by
  induction h with
  | node s shape _ _ _ statements branches =>
    obtain ⟨kind, name, dataType, e, ss, bs, pos⟩ := s
    rw [unplaced_mk]
    cases kind with
    | block => rw [print, print, printAll_unplaced statements]
    | varDec => rw [print, print, Expr.printInitializer_unplaced]
    | arrayDec | structDec | callStmt | const_ => rw [print, print, Expr.print_unplaced]
    | return_ => rw [print, print, Expr.print_unplaced, Expr.isNone_unplaced]
    | exprStmt =>
      obtain ⟨ekind, evalue, args, items, epos⟩ := e
      obtain ⟨-, l, r, rfl, -⟩ : Expr.Assigns ⟨ekind, evalue, args, items, epos⟩ := shape.1
      have text : (do Printing.line s!"{← l.unplaced.print} := {← r.unplaced.print};") =
          (do Printing.line s!"{← l.print} := {← r.print};" : Printing Unit) := by
        rw [Expr.print_unplaced, Expr.print_unplaced]
      rw [Expr.unplaced_mk]
      exact text
    | while_ | elif_ => rw [print, print, Expr.print_unplaced, printBody_unplaced statements]
    | else_ => rw [print, print, printBody_unplaced statements]
    | if_ =>
      rw [print, print, Expr.print_unplaced, printBody_unplaced statements,
        printAll_unplaced branches]
    | none | break_ | continue_ => rfl
    | other => exact shape.elim

end Stmt

/-! ## Declarations and files -/

theorem TypedName.printConst_unplaced (t : TypedName) : t.unplaced.printConst = t.printConst := by
  rw [printConst, printConst, unplaced, Expr.print_unplaced]

theorem TypedName.printItem_unplaced (t : TypedName) : t.unplaced.printItem = t.printItem := by
  rw [printItem, printItem, unplaced, Expr.printInitializer_unplaced]
  rfl

theorem Struct.print_unplaced (s : Struct) : s.unplaced.print = s.print := by
  rw [print, print, unplaced, forM_map_print fun t _ => t.printItem_unplaced]

theorem Function.header_unplaced (f : Function) : f.unplaced.header = f.header := by
  simp only [header, unplaced, List.map_map, List.isEmpty_map]
  rfl

theorem Function.WellFormed.print_unplaced {f : Function} (h : f.WellFormed) :
    f.unplaced.print = f.print := by
  rw [print, print, header_unplaced, unplaced, h.body.wellFormed.print_unplaced,
    forM_map_print fun t _ => t.printConst_unplaced]

theorem File.WellFormed.print_unplaced {f : File} (h : f.WellFormed) :
    f.unplaced.print = f.print := by
  rw [print, print, unplaced, List.isEmpty_map, forM_map_print fun t _ => t.printConst_unplaced,
    forM_map_print fun s _ => by rw [s.print_unplaced],
    forM_map_print fun g hg => by rw [(h.functions g hg).print_unplaced]]

/-- **The text of a well-formed file is that of the file without positions.** -/
theorem File.WellFormed.unparse_unplaced {f : File} (h : f.WellFormed) :
    f.unplaced.unparse = f.unparse := by
  rw [unparse, unparse, h.print_unplaced]

end ToyLang
