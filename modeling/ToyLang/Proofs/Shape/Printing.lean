import Mathlib.Data.List.Basic
import ToyLang.Proofs.Origin.File
import ToyLang.Proofs.Printing.Page
import ToyLang.Proofs.Progress.File

/-!
# Well-formed trees can be printed

The printer fails only where a node lacks what its kind promises or has a kind of no form, so it
succeeds on every well-formed tree (`File.WellFormed.unparse_ok`). With the shape of what is built
this gives the main statement: any list of tokens is built into a well-formed file that can be
printed (`built_file_wellFormed`).
-/

set_option autoImplicit false

namespace ToyLang

/-! ## Expressions -/

namespace Expr

variable {e : Expr}

theorem printItems_ok {es : List Expr} (h : ∀ e ∈ es, ∃ text, e.print = .ok text) :
    ∃ texts, printItems es = .ok texts := by
  induction es with
  | nil => exact ⟨[], rfl⟩
  | cons e es ih =>
    obtain ⟨text, htext⟩ := h e List.mem_cons_self
    obtain ⟨texts, htexts⟩ := ih fun d hd => h d (List.mem_cons_of_mem e hd)
    exact ⟨asItem e.kind text :: texts, by rw [printItems, htext, htexts]; rfl⟩

theorem WellFormed.print_ok (h : e.WellFormed) : ∃ text, e.print = .ok text := by
  induction h with
  | node e shape _ _ args items =>
    obtain ⟨kind, value, as, is, pos⟩ := e
    cases kind with
    | operation o =>
      obtain ⟨l, r, rfl⟩ := List.length_eq_two.1 shape.1
      obtain ⟨left, hl⟩ := args l (by simp)
      obtain ⟨right, hr⟩ := args r (by simp)
      rw [print, printOperands, hl, hr]
      exact ⟨_, rfl⟩
    | call | arrayAcc =>
      obtain ⟨arg, rfl⟩ := List.length_eq_one_iff.1 shape.1
      obtain ⟨text, htext⟩ := args arg (by simp)
      rw [print, printArg, htext]
      exact ⟨_, rfl⟩
    | structAcc =>
      obtain ⟨⟨m, rfl, -⟩, -⟩ := shape
      exact ⟨_, rfl⟩
    | list =>
      obtain ⟨texts, htexts⟩ := printItems_ok items
      change ∀ i ∈ is, _ at items
      rw [print, htexts]
      exact ⟨_, rfl⟩
    | none | int | string | char | bool | identifier => exact ⟨_, rfl⟩
    | binary | other => exact shape.elim

/-- An operator has both its operands. -/
theorem WellFormed.operandToPrint_ok {o : Operator} (h : e.WellFormed) (hk : e.kind = .operation o)
    (side : Side) : ∃ d, e.operandToPrint side = .ok d ∧ d.WellFormed := by
  obtain ⟨kind, value, args, items, pos⟩ := e
  cases hk
  obtain ⟨l, r, rfl⟩ := List.length_eq_two.1 h.shape.1
  cases side with
  | left => exact ⟨l, rfl, h.arg l (by simp)⟩
  | right => exact ⟨r, rfl, h.arg r (by simp)⟩

theorem WellFormed.printInitializer_ok (h : e.WellFormed) :
    ∃ text, e.printInitializer = .ok text := by
  unfold printInitializer
  split
  · exact ⟨"", rfl⟩
  by_cases hk : e.kind = .operation .assign
  · obtain ⟨value, hvalue, hwf⟩ := h.operandToPrint_ok hk .right
    obtain ⟨text, htext⟩ := hwf.print_ok
    rw [if_pos hk, hvalue]
    refine ⟨" := " ++ text, ?_⟩
    show (do return " := " ++ (← value.print) : Except PrintError String) = _
    rw [htext]
    rfl
  · obtain ⟨text, htext⟩ := h.print_ok
    rw [if_neg hk]
    refine ⟨" := " ++ text, ?_⟩
    show (do return " := " ++ (← e.print) : Except PrintError String) = _
    rw [htext]
    rfl

end Expr

/-! ## Pages -/

/-- The computation succeeds on every page. -/
def Prints (p : Printing Unit) : Prop := ∀ page, ∃ page', p.runOn page = (.ok (), page')

theorem prints_pure : Prints (pure ()) := fun page => ⟨page, rfl⟩

theorem prints_line (text : String) : Prints (Printing.line text) := fun _ => ⟨_, rfl⟩

theorem prints_gap : Prints Printing.gap := fun _ => ⟨_, rfl⟩

theorem prints_modify (f : Page → Page) : Prints (modify f) := fun _ => ⟨_, rfl⟩

section
variable {p q : Printing Unit}

theorem Prints.then (hp : Prints p) (hq : Prints q) : Prints (do p; q) := by
  intro page
  obtain ⟨page', hrun⟩ := hp page
  rw [runOn_then hrun]
  exact hq page'

theorem Prints.nested (h : Prints p) : Prints (Printing.nested p) :=
  (prints_modify _).then (h.then (prints_modify _))

/-- What an expression gives is there at once. -/
theorem Prints.of_ok {α : Type} {x : Except PrintError α} {p : α → Printing Unit} {a : α}
    (hx : x = .ok a) (h : Prints (p a)) : Prints (do p (← x)) := by
  subst hx
  exact h

theorem prints_forM {α : Type} {as : List α} {p : α → Printing Unit} (h : ∀ a ∈ as, Prints (p a)) :
    Prints (as.forM p) :=
  holds_forM prints_pure Prints.then h

end

/-! ## Statements -/

namespace Stmt

variable {s : Stmt}

theorem prints_all {ss : List Stmt} (h : ∀ s ∈ ss, Prints s.print) : Prints (printAll ss) := by
  rw [printAll_eq_forM]
  exact prints_forM h

theorem prints_body (hs : s.HasBody) (h : ∀ t ∈ s.statements, Prints t.print) :
    Prints (printBody s.statements) := by
  obtain ⟨b, hb, -⟩ := hs
  rw [hb] at h ⊢
  exact (h b List.mem_cons_self).nested

theorem WellFormed.prints (h : s.WellFormed) : Prints s.print := by
  induction h with
  | node s shape expr _ _ statements branches =>
    obtain ⟨kind, name, dataType, e, ss, bs, pos⟩ := s
    obtain ⟨value, hvalue⟩ := expr.print_ok
    cases kind with
    | none => exact prints_pure
    | block => exact prints_all statements
    | varDec =>
      obtain ⟨initializer, hinitializer⟩ := expr.printInitializer_ok
      exact .of_ok hinitializer (prints_line _)
    | arrayDec | structDec | callStmt => exact .of_ok hvalue (prints_line _)
    | return_ =>
      rw [print]
      split
      · exact prints_line _
      · exact .of_ok hvalue (prints_line _)
    | break_ | continue_ => exact prints_line _
    | exprStmt =>
      have hassign : e.kind = .operation .assign := shape.1.1
      obtain ⟨l, hl, hlwf⟩ := expr.operandToPrint_ok hassign .left
      obtain ⟨r, hr, hrwf⟩ := expr.operandToPrint_ok hassign .right
      obtain ⟨_, hltext⟩ := hlwf.print_ok
      obtain ⟨_, hrtext⟩ := hrwf.print_ok
      exact .of_ok hl (.of_ok hltext (.of_ok hr (.of_ok hrtext (prints_line _))))
    | while_ =>
      exact .of_ok hvalue <| (prints_line _).then
        ((prints_body shape.1 statements).then (prints_line _))
    | if_ =>
      exact .of_ok hvalue <| (prints_line _).then
        ((prints_body shape.1 statements).then ((prints_all branches).then (prints_line _)))
    | elif_ =>
      exact .of_ok hvalue <| (prints_line _).then (prints_body shape.1 statements)
    | else_ => exact (prints_line _).then (prints_body shape.1 statements)
    | const_ | other => exact shape.elim

end Stmt

/-! ## Declarations and files -/

theorem TypedName.WellFormed.prints_const {t : TypedName} (h : t.WellFormed) :
    Prints t.printConst := by
  obtain ⟨value, hvalue⟩ := Expr.WellFormed.print_ok h
  exact .of_ok hvalue (prints_line _)

theorem TypedName.WellFormed.prints_item {t : TypedName} (h : t.WellFormed) :
    Prints t.printItem := by
  obtain ⟨initializer, hinitializer⟩ := Expr.WellFormed.printInitializer_ok h
  exact .of_ok hinitializer (prints_line _)

theorem Struct.WellFormed.prints {s : Struct} (h : s.WellFormed) : Prints s.print :=
  (prints_line _).then
    ((prints_forM fun i hi => (h i hi).prints_item).nested.then (prints_line _))

theorem Function.WellFormed.prints {f : Function} (h : f.WellFormed) : Prints f.print :=
  (prints_line _).then
    (((prints_forM fun c hc => (h.consts c hc).prints_const).then
      h.body.wellFormed.prints).nested.then (prints_line _))

theorem File.WellFormed.prints {f : File} (h : f.WellFormed) : Prints f.print := by
  refine (prints_forM fun _ _ => prints_line _).then ?_
  refine (prints_forM fun c hc => (h.consts c hc).prints_const).then ?_
  have hrest := (prints_forM fun s hs => (h.structs s hs).prints.then prints_gap).then
    ((prints_forM fun g hg => (h.functions g hg).prints.then prints_gap).then
      (prints_modify Page.dropGaps))
  split
  · exact hrest
  · exact prints_gap.then hrest

/-- **A well-formed file can be printed.** -/
theorem File.WellFormed.unparse_ok {f : File} (h : f.WellFormed) :
    ∃ text, f.unparse = .ok text := by
  obtain ⟨page, hrun⟩ := h.prints {}
  exact ⟨page.text, by rw [File.unparse, hrun]; rfl⟩

/-- **Any list of tokens is built into a well-formed file, which can be printed**: every node of the
file holds what its kind promises, however the tokens fail to make a program. -/
theorem built_file_wellFormed (ts : List Token) (name : String) :
    ∃ f s, (Session.over (.ofList ts) false).build (Parser.file name) = (.ok f, s) ∧
      f.WellFormed ∧ ∃ text, f.unparse = .ok text := by
  obtain ⟨f, s, hbuild, -⟩ := build_file_ofList ts name
  have hwf : f.WellFormed := File.wellFormed_of_run hbuild
  exact ⟨f, s, hbuild, hwf, hwf.unparse_ok⟩

end ToyLang
