import ToyLang.Proofs.Lexable.Expression

/-!
# Statements without lexical errors

A statement from the tokens of a text writes lines without lexical errors (`Stmt.From.clean`), also
where it stands for one that could not be read: its name may be empty, its type absent, and its
value an assignment.
-/

set_option autoImplicit false

namespace ToyLang

variable {name : String} {e : Expr} {ss : List Stmt} {pos : Pos}

/-- A constant, whatever its name, type and value are. -/
theorem lexable_const {value : String} (h : MaybeName name) (d : DataType)
    (hvalue : Lexable value) : Lexable (constText name d value) :=
  (((sealed_keyword .const_ rfl).typed h d).assign.then_lexable hvalue).semicolon

namespace Stmt

/-! ## Lines -/

section
variable (hname : MaybeName name)
include hname

theorem clean_varDec (d : DataType) (he : e.From Token.Lexed) :
    Clean (print { kind := .varDec, name, dataType := d, expr := e, pos }) := by
  obtain ⟨text, htext, hbounded, hvalue⟩ := he.printInitializer
  have htyped := (sealed_keyword (s := "var ") .var_ rfl).typed hname d
  exact Clean.of_ok htext (clean_line (htyped.then_lexable hbounded hvalue).semicolon)

theorem clean_arrayDec (d : DataType) (he : e.Writable) :
    Clean (print { kind := .arrayDec, name, dataType := d, expr := e, pos }) := by
  obtain ⟨text, htext, hsize⟩ := he.text
  have htyped := (sealed_keyword (s := "var ") .var_ rfl).typed hname d
  have hopen := htyped.then_sealed (t := "[") (bounded_cons rfl) (by decide)
    (sealed_punct .lbracket (by decide))
  have hclose := (sealed_punct .rbracket (by decide)).lexable.semicolon
  exact Clean.of_ok htext (clean_line
    ((hopen.then_lexable hsize).then_lexable (t := "];") (bounded_cons rfl) hclose))

theorem clean_structDec (he : e.Writable) :
    Clean (print { kind := .structDec, name, expr := e, pos }) := by
  obtain ⟨text, htext, htype⟩ := he.text
  have hstruct := (sealed_keyword (s := "struct ") .struct_ rfl).then_lexable (lexable_name hname)
  exact Clean.of_ok htext (clean_line (hstruct.colon.then_lexable htype).semicolon)

theorem clean_callStmt (he : e.Writable) :
    Clean (print { kind := .callStmt, name, expr := e, pos }) := by
  obtain ⟨text, htext, hargs⟩ := he.text
  have hopen := (lexable_name hname).then_sealed (t := "(") (bounded_cons rfl) (by decide)
    (sealed_punct .lparen (by decide))
  have hclose := (sealed_punct .rparen (by decide)).lexable.semicolon
  exact Clean.of_ok htext (clean_line
    ((hopen.then_lexable hargs).then_lexable (t := ");") (bounded_cons rfl) hclose))

end

theorem clean_exprStmt {target value : Expr} {apos : Pos} (ht : target.Writable)
    (hv : value.Writable) :
    Clean (print { kind := .exprStmt, expr := .operation .assign target value apos, pos }) := by
  obtain ⟨left, hleft, hl⟩ := ht.text
  obtain ⟨right, hright, hr⟩ := hv.text
  refine Clean.of_ok (x := pure target) rfl (Clean.of_ok hleft ?_)
  refine Clean.of_ok (x := pure value) rfl (Clean.of_ok hright ?_)
  exact clean_line (hl.assign.then_lexable hr).semicolon

theorem clean_return (he : e.Writable) : Clean (print { kind := .return_, expr := e, pos }) := by
  unfold print
  dsimp only
  split
  · exact clean_line (lexable_keyword .return_).semicolon
  · obtain ⟨text, htext, hvalue⟩ := he.text
    exact Clean.of_ok htext (clean_line
      ((sealed_keyword .return_ rfl).then_lexable hvalue).semicolon)

theorem clean_keyword {kind : StmtKind} (hkind : kind ∈ [.break_, .continue_]) :
    Clean (print { kind, pos }) := by
  simp only [List.mem_cons, List.not_mem_nil, or_false] at hkind
  rcases hkind with rfl | rfl
  · exact clean_line (lexable_keyword .break_).semicolon
  · exact clean_line (lexable_keyword .continue_).semicolon

/-! ## Bodies and clauses -/

theorem clean_all (h : ∀ s ∈ ss, Clean s.print) : Clean (printAll ss) := by
  rw [printAll_eq_forM]
  exact clean_forM h

theorem clean_body (h : ∀ s ∈ ss, Clean s.print) : Clean (printBody [block ss]) :=
  clean_nested (clean_all h)

/-- The first line of a clause with a condition. -/
theorem clean_condition {before after : String} (first last : Keyword)
    (hfirst : before.toList = first.spelling.toList ++ [' '])
    (hlast : after.toList = ' ' :: last.spelling.toList) {text : String} (h : Lexable text) :
    Clean (Printing.line (before ++ text ++ after)) :=
  clean_line (((sealed_keyword first hfirst).then_lexable h).then_keyword last hlast)

theorem clean_clause {kind : StmtKind} (hkind : kind ∈ [.while_, .elif_]) (he : e.Writable)
    (hs : ∀ s ∈ ss, Clean s.print) : Clean (Parser.clause kind e (.block ss) pos).print := by
  obtain ⟨text, htext, hcondition⟩ := he.text
  simp only [List.mem_cons, List.not_mem_nil, or_false] at hkind
  rcases hkind with rfl | rfl
  · exact Clean.of_ok htext ((clean_condition .while_ .do_ rfl rfl hcondition).then
      ((clean_body hs).then clean_end))
  · exact Clean.of_ok htext ((clean_condition .elif_ .then_ rfl rfl hcondition).then
      (clean_body hs))

theorem clean_else (hs : ∀ s ∈ ss, Clean s.print) :
    Clean (Parser.clause .else_ e (.block ss) pos).print :=
  (clean_line (lexable_keyword .else_)).then (clean_body hs)

theorem clean_if {branches : List Stmt} (he : e.Writable) (hs : ∀ s ∈ ss, Clean s.print)
    (hb : ∀ b ∈ branches, Clean b.print) :
    Clean (print { Parser.clause .if_ e (.block ss) pos with branches }) := by
  obtain ⟨text, htext, hcondition⟩ := he.text
  exact Clean.of_ok htext ((clean_condition .if_ .then_ rfl rfl hcondition).then
    ((clean_body hs).then ((clean_all hb).then clean_end)))

/-- **A statement from the tokens of a text writes lines without lexical errors.** -/
theorem From.clean {s : Stmt} (h : s.From Token.Lexed) : Clean s.print := by
  induction h with
  | none t _ => exact clean_pure
  | declared kind name d expr t hkind _ hname he =>
    simp only [List.mem_cons, List.not_mem_nil, or_false] at hkind
    rcases hkind with rfl | rfl
    · exact clean_varDec hname.name d he
    · exact clean_arrayDec hname.name d he.writable
  | structDec name expr t _ hname he => exact clean_structDec hname.name he.writable
  | exprStmt target value t u _ _ ht _ hv => exact clean_exprStmt ht.writable hv.writable
  | callStmt name expr t _ hname he => exact clean_callStmt hname.name he.writable
  | return_ expr t _ he => exact clean_return he.writable
  | keyword kind t hkind _ => exact clean_keyword hkind
  | clause kind condition ss t hkind _ hc _ _ ih => exact clean_clause hkind hc.writable ih
  | else_ ss t _ _ _ ih => exact clean_else ih
  | if_ condition ss branches t _ hc _ _ _ _ ih ihb => exact clean_if hc.writable ih ihb

end Stmt

end ToyLang
