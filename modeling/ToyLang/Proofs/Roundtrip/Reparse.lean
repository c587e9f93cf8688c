import ToyLang.Proofs.Accepted.File
import ToyLang.Proofs.Placement.File
import ToyLang.Proofs.Printing.File
import ToyLang.Proofs.Roundtrip.File
import ToyLang.Proofs.Roundtrip.Unplaced

/-!
# Reading printed files again

The text of a regular file is read again, quietly and as the same file if the file is canonical, and
only then (`File.Regular.reparse_iff`).

* `canonical_roundtrip`: canonical files make the round trip;
* `accepted_roundtrip_iff`: of the files that texts are parsed as without a report, these alone do.
-/

set_option autoImplicit false

namespace ToyLang

/-- A text that is read as the tokens of a regular file is parsed as these are foreseen to be, and
reports something where they are not. -/
theorem File.Regular.parse_yields {f : File} (h : f.Regular False) {source : String}
    (hs : Yields source.toList f.tokens) (name : String) :
    ∃ g s, parse source name = (.ok g, s) ∧
      (s.diagnostics.items = #[] ∧ f.reread = some g.unplaced ∨
        s.diagnostics.items ≠ #[] ∧ f.reread = none) := by
  obtain ⟨mark, hmark, hclose, hahead, hsize⟩ := hs.view
  obtain ⟨g, s, hparse, hg⟩ := parse_accept hclose name
  have hbare : Builder.bareState ((Stream.ofText source).view.ahead, []) =
      Builder.bareState (f.tokens, []) := by
    have hbare : f.tokens.map Token.bare = f.tokens := by
      rw [← hahead, List.map_map]
      rfl
    rw [Builder.bareState, Builder.bareState, hahead, hbare]
  have halike := (Parser.alike_file name ((Stream.ofText source).size + 1)).accept hmark hbare
  rw [Parser.accept_file h rfl (Nat.lt_succ_of_le hsize)] at halike
  refine ⟨g, s, hparse, ?_⟩
  rcases hg with ⟨hquiet, st, hacc⟩ | ⟨hloud, hacc⟩
  · rw [hacc] at halike
    refine .inl ⟨hquiet, ?_⟩
    cases hread : f.reread with
    | none =>
      rw [hread] at halike
      exact halike.elim
    | some f' =>
      rw [hread] at halike
      have hsame : g.unplaced = f'.unplaced := halike.1
      rw [hsame, File.unplaced_reread h hread]
  · rw [hacc] at halike
    refine .inr ⟨hloud, ?_⟩
    cases hread : f.reread with
    | none => rfl
    | some f' =>
      rw [hread] at halike
      exact halike.elim

/-- **The text of a regular file is read again quietly and as the same file if it is canonical**,
and only then. -/
theorem File.Regular.reparse_iff {f : File} (h : f.Regular False) (name : String) :
    ∃ text g s, f.unparse = .ok text ∧ parse text name = (.ok g, s) ∧
      (s.diagnostics.items = #[] ∧ g.same f = true ↔ f.Canonical) := by
  obtain ⟨text, htext, hyields⟩ := h.unparse_yields
  obtain ⟨g, s, hparse, hread⟩ := h.parse_yields hyields name
  refine ⟨text, g, s, htext, hparse, ?_⟩
  rw [← File.reread_iff h, File.same, decide_eq_true_eq]
  constructor
  · rintro ⟨hquiet, hsame⟩
    rcases hread with ⟨-, hread⟩ | ⟨hloud, -⟩
    · rw [hread, hsame]
    · exact absurd hquiet hloud
  · intro hself
    rcases hread with ⟨hquiet, hread⟩ | ⟨-, hread⟩
    · exact ⟨hquiet, Option.some.inj (hread.symm.trans hself)⟩
    · rw [hread] at hself
      cases hself

/-- **Canonical files make the round trip**: their text is read again without a report, and as the
same file. -/
theorem canonical_roundtrip (f : File) (h : f.Canonical) (name : String) :
    ∃ text g s, f.unparse = .ok text ∧ parse text name = (.ok g, s) ∧
      s.diagnostics.items = #[] ∧ g.same f = true := by
  obtain ⟨text, g, s, htext, hparse, hiff⟩ := h.weaken.reparse_iff name
  obtain ⟨hquiet, hsame⟩ := hiff.2 h
  exact ⟨text, g, s, htext, hparse, hquiet, hsame⟩

/-- The file of
```
func count(n : u64) -> u64 is
    while n > 0 do
        n := n - 1;
    end
    return n;
end
```
-/
def countdown : File :=
  let n := Expr.identifier (.text "n") ⟨0, 0⟩
  let int (k : Nat) : Expr := { kind := .int, value := .int k }
  let step := Expr.operation .assign n (.operation .sub n (int 1) ⟨0, 0⟩) ⟨0, 0⟩
  let loop : Stmt :=
    { kind := .while_, expr := .operation .gt n (int 0) ⟨0, 0⟩,
      statements := Stmt.bodyOf [{ kind := .exprStmt, expr := step }] ⟨0, 0⟩ }
  { functions := [
      { name := "count", dataType := .scalar .u64,
        args := [{ name := "n", dataType := .scalar .u64 }],
        block := .block [loop, { kind := .return_, expr := n }] }] }

theorem canonical_countdown : countdown.Canonical := by
  have hname : IsName "n" := by decide
  have hn : (Expr.identifier (.text "n") ⟨0, 0⟩).Regular True := .identifier "n" _ hname
  have hint (k : Nat) (hk : k ≤ maxNumber) :
      ({ kind := .int, value := .int k } : Expr).Regular True := .int k _ hk
  have hstep (e : Expr) (he : e = .operation .assign (.identifier (.text "n") ⟨0, 0⟩)
      (.operation .sub (.identifier (.text "n") ⟨0, 0⟩) { kind := .int, value := .int 1 } ⟨0, 0⟩)
      ⟨0, 0⟩) : ({ kind := .exprStmt, expr := e } : Stmt).Regular True := by
    rw [he]
    refine .exprStmt _ _ _ _ (.inl rfl) hn ⟨?_, fun _ => ⟨rfl, by decide⟩⟩
    exact .operation .sub _ _ _ (by decide) hn (hint 1 (by decide)) fun _ => ⟨rfl, rfl⟩
  have hblock : ∀ s ∈ (countdown.functions.flatMap fun f => f.block.statements),
      s.Regular True := by
    refine List.forall_mem_cons.2 ⟨?_, List.forall_mem_singleton.2 (.return_ _ _ hn)⟩
    refine .while_ _ _ _ _ ?_ (List.forall_mem_singleton.2 (hstep _ rfl))
    exact .operation .gt _ _ _ (by decide) hn (hint 0 (by decide)) fun _ => ⟨rfl, rfl⟩
  refine ⟨List.forall_mem_singleton.2 ⟨by decide, ?_, ?_, _, ⟨0, 0⟩, rfl, hblock⟩, ?_, ?_, ?_⟩
  · exact List.forall_mem_singleton.2 ⟨⟨hname, .u64, rfl⟩, _, rfl⟩
  · exact fun _ h => absurd h List.not_mem_nil
  · exact fun _ h => absurd h List.not_mem_nil
  · exact fun _ h => absurd h List.not_mem_nil
  · exact fun _ h => absurd h List.not_mem_nil

theorem countdown_roundtrip :
    countdown.Canonical ∧ ∃ text g s, countdown.unparse = .ok text ∧
      parse text "count.tl" = (.ok g, s) ∧ s.diagnostics.items = #[] ∧
        g.same countdown = true :=
  ⟨canonical_countdown, canonical_roundtrip countdown canonical_countdown "count.tl"⟩

/-! ## Accepted texts -/

/-- **What a text is parsed as without a report makes the round trip if it is canonical**, and only
then. Not every such file is: operands may be empty groups, lists may be assigned or hold one item,
and words that stand side by side in a path may be joined to a reserved one. -/
theorem accepted_roundtrip_iff {source name : String} {f : File} {s : Session}
    (h : parse source name = (.ok f, s)) (hquiet : s.diagnostics.items = #[]) (again : String) :
    ∃ text g s', f.unparse = .ok text ∧ parse text again = (.ok g, s') ∧
      (s'.diagnostics.items = #[] ∧ g.same f = true ↔ f.Canonical) :=
  (File.regular_of_parse h hquiet).reparse_iff again

/-- What `func f is x := (1, 2); end` is parsed as. -/
def assignedList : File :=
  let int (k : Nat) (pos : Pos) : Expr := { kind := .int, value := .int k, pos }
  let items := [int 1 ⟨1, 17⟩, int 2 ⟨1, 20⟩]
  let value : Expr := { kind := .list, items, pos := ⟨1, 17⟩ }
  let expr := Expr.operation .assign (.identifier (.text "x") ⟨1, 11⟩) value ⟨1, 13⟩
  { functions := [
      { name := "f", block := .block [{ kind := .exprStmt, expr, pos := ⟨1, 11⟩ }] }] }

theorem assignedList_roundtrip_iff :
    ∃ s, parse "func f is x := (1, 2); end" = (.ok assignedList, s) ∧ s.diagnostics.items = #[] ∧
      ∃ text g s', assignedList.unparse = .ok text ∧ parse text = (.ok g, s') ∧
        (s'.diagnostics.items = #[] ∧ g.same assignedList = true ↔ assignedList.Canonical) := by
  have hparse : parse "func f is x := (1, 2); end" =
      (.ok assignedList, (parse "func f is x := (1, 2); end").2) := Prod.ext rfl rfl
  have hquiet : (parse "func f is x := (1, 2); end").2.diagnostics.items = #[] := rfl
  exact ⟨_, hparse, hquiet, accepted_roundtrip_iff hparse hquiet ""⟩

/-- The list is printed without parentheses, and its comma takes the assignment's target away. -/
theorem assignedList_not_reparsed :
    (parse "func f is x := (1, 2); end").1 = .ok assignedList ∧
      (parse "func f is x := (1, 2); end").2.diagnostics.items = #[] ∧
      assignedList.unparse = .ok "func f is\n    x := 1, 2;\nend\n" ∧
      (parse "func f is\n    x := 1, 2;\nend\n").2.diagnostics.items.toList.map
        Diagnostic.message = ["Assignment has no target in this position."] := by
  have hprint : (assignedList.print.runOn {}).1 = .ok () := rfl
  have htext : (assignedList.print.runOn {}).2.text = "func f is\n    x := 1, 2;\nend\n" := by
    decide +kernel
  refine ⟨rfl, rfl, ?_, rfl⟩
  show (assignedList.print.runOn {}).1.map (fun _ => (assignedList.print.runOn {}).2.text) = _
  rw [hprint, htext]
  rfl

end ToyLang
