import ToyLang.Printer.File
import ToyLang.Proofs.Printing.Page

/-!
# Printing adds to the page it starts on

What a statement or a declaration prints does not depend on the page: not on the lines above, and on
the indentation only in that every line stands so much further to the right. This holds of any tree,
well formed or not, and of a computation that fails as well, up to where it fails.

* `Adds p r lines deeper`: wherever it starts, `p` ends in `r`, adds `lines`, and leaves the
  indentation `deeper` levels deeper.
* `Frames p`: `p` adds some lines, and where it succeeds it leaves the indentation as it is. This
  goes through a computation (`Frames.then`, `Frames.nested`, `frames_forM`, `frames_of`).
* `printing_frames`: what is printed on a page, from what is printed on an empty one.
-/

set_option autoImplicit false

namespace ToyLang

open Printing

/-! ## Indentation -/

/-- The blanks in front of a line: four for each level. -/
def blanks (n : Nat) : String := String.ofList (List.replicate (4 * n) ' ')

theorem blanks_zero_append (text : String) : blanks 0 ++ text = text := by
  simp [blanks]

theorem blanks_add (m n : Nat) : blanks (m + n) = blanks m ++ blanks n := by
  rw [blanks, Nat.mul_add, ← List.replicate_append_replicate, String.ofList_append]
  rfl

theorem Page.indentation_mk (lines : Array String) (n : Nat) :
    (Page.mk lines n).indentation = blanks n := by
  rw [indentation, Int.toNat_natCast]
  rfl

/-! ## What a computation adds -/

/-- Wherever it starts, the computation ends in `r`, adds the lines, each behind the indentation of
the page, and leaves the page so much deeper. -/
def Adds (p : Printing Unit) (r : Except PrintError Unit) (lines : Array String) (deeper : Nat) :
    Prop :=
  ∀ (above : Array String) (n : Nat),
    p.runOn ⟨above, n⟩ = (r, ⟨above ++ lines.map (blanks n ++ ·), (n + deeper : Nat)⟩)

/-- The computation adds some lines, and where it succeeds it leaves the indentation as it is. -/
def Frames (p : Printing Unit) : Prop :=
  ∃ r lines deeper, Adds p r lines deeper ∧ (r = .ok () → deeper = 0)

variable {p q : Printing Unit}

theorem frames_pure : Frames (pure ()) :=
  ⟨.ok (), #[], 0, fun above n => by simp [runOn]; rfl, fun _ => rfl⟩

theorem frames_throw (e : PrintError) : Frames (throw e) :=
  ⟨.error e, #[], 0, fun above n => by simp [runOn]; rfl, fun _ => rfl⟩

theorem frames_line (text : String) : Frames (line text) := by
  refine ⟨.ok (), #[text], 0, fun above n => ?_, fun _ => rfl⟩
  show (Except.ok (), (Page.mk above n).addLine text) = _
  rw [Page.addLine, Page.indentation_mk]
  simp

/-- One after the other: the second computation adds its lines below those of the first, or the
first one fails. -/
theorem Frames.then (hp : Frames p) (hq : Frames q) : Frames (do p; q) := by
  obtain ⟨_ | ⟨⟨⟩⟩, lines, deeper, hadds, hdeeper⟩ := hp
  · refine ⟨_, lines, deeper, fun above n => ?_, hdeeper⟩
    rw [runOn_seq, hadds]
  · obtain ⟨r, lines', deeper', hadds', hdeeper'⟩ := hq
    obtain rfl := hdeeper rfl
    refine ⟨r, lines ++ lines', deeper', fun above n => ?_, hdeeper'⟩
    rw [runOn_seq, hadds]
    refine (hadds' _ _).trans ?_
    rw [Array.map_append, Array.append_assoc]
    rfl

/-- One level deeper every line has four more blanks. Only where the computation fails the level is
not left again. -/
theorem Frames.nested (h : Frames p) : Frames (nested p) := by
  obtain ⟨r, lines, deeper, hadds, hdeeper⟩ := h
  -- one level of the blanks belongs to the lines of the body, the others to the page
  have hright (n : Nat) : lines.map (blanks (n + 1) ++ ·) =
      (lines.map (blanks 1 ++ ·)).map (blanks n ++ ·) := by
    simp [blanks_add, String.append_assoc]
  have hdown (above : Array String) (n : Nat) :
      (Page.mk above n).shift 1 = ⟨above, (n + 1 : Nat)⟩ := rfl
  cases r with
  | error e =>
    refine ⟨.error e, lines.map (blanks 1 ++ ·), 1 + deeper, fun above n => ?_, nofun⟩
    rw [runOn_nested, hdown, hadds, hright, Nat.add_assoc]
  | ok =>
    obtain rfl := hdeeper rfl
    refine ⟨.ok (), lines.map (blanks 1 ++ ·), 0, fun above n => ?_, fun _ => rfl⟩
    have hback : ((n + 1 + 0 : Nat) : Int) + -1 = (n + 0 : Nat) := by omega
    rw [runOn_nested, hdown, hadds, hright]
    simp only [Page.shift, hback]

/-- What an expression gives is printed, or the expression has no text and nothing is. -/
theorem frames_of {α : Type} (x : Except PrintError α) {p : α → Printing Unit}
    (h : ∀ a, Frames (p a)) : Frames (do p (← x)) := by
  cases x with
  | ok a => exact h a
  | error e => exact frames_throw e

theorem frames_forM {α : Type} {as : List α} {p : α → Printing Unit} (h : ∀ a ∈ as, Frames (p a)) :
    Frames (as.forM p) :=
  holds_forM frames_pure Frames.then h

/-! ## Statements -/

namespace Stmt

theorem frames_all {ss : List Stmt} (h : ∀ s ∈ ss, Frames s.print) : Frames (printAll ss) := by
  rw [printAll_eq_forM]
  exact frames_forM h

theorem frames_body {ss : List Stmt} (h : ∀ s ∈ ss, Frames s.print) : Frames (printBody ss) := by
  cases ss with
  | nil => exact frames_throw _
  | cons s ss => exact (h s List.mem_cons_self).nested

/-- **Every statement adds lines of its own**, by induction on the statements and clauses in it. -/
theorem frames_print : (s : Stmt) → Frames s.print
  | ⟨kind, name, dataType, expr, statements, branches, pos⟩ => by
    have hstatements : ∀ t ∈ statements, Frames t.print := fun t _ => frames_print t
    have hbranches : ∀ b ∈ branches, Frames b.print := fun b _ => frames_print b
    have hbody : Frames (printBody statements) := frames_body hstatements
    cases kind with
    | none => exact frames_pure
    | block => exact frames_all hstatements
    | varDec | arrayDec | structDec | callStmt | const_ =>
      exact frames_of _ fun _ => frames_line _
    | exprStmt =>
      exact frames_of _ fun _ => frames_of _ fun _ => frames_of _ fun _ => frames_of _ fun _ =>
        frames_line _
    | return_ =>
      rw [print]
      split
      · exact frames_line _
      · exact frames_of _ fun _ => frames_line _
    | break_ | continue_ => exact frames_line _
    | while_ =>
      exact frames_of _ fun _ => (frames_line _).then (hbody.then (frames_line _))
    | if_ =>
      exact frames_of _ fun _ => (frames_line _).then
        (hbody.then ((frames_all hbranches).then (frames_line _)))
    | elif_ => exact frames_of _ fun _ => (frames_line _).then hbody
    | else_ => exact (frames_line _).then hbody
    | other => exact frames_throw _

end Stmt

/-! ## Declarations -/

theorem TypedName.frames_printConst (t : TypedName) : Frames t.printConst :=
  frames_of _ fun _ => frames_line _

theorem TypedName.frames_printItem (t : TypedName) : Frames t.printItem :=
  frames_of _ fun _ => frames_line _

theorem Struct.frames_print (s : Struct) : Frames s.print :=
  (frames_line _).then ((frames_forM fun t _ => t.frames_printItem).nested.then (frames_line _))

theorem Function.frames_print (f : Function) : Frames f.print :=
  (frames_line _).then (((frames_forM fun t _ => t.frames_printConst).then
    f.block.frames_print).nested.then (frames_line _))

/-! ## Pages -/

/-- What the computation prints on an empty page decides what it prints below `above` at the
indentation `n`. If it succeeds, it adds the same lines with so many more blanks in front and leaves
the indentation as it is. If it fails, it fails alike, having added the lines up to there, and the
indentation is no smaller. -/
def PrintsBelow (above : Array String) (n : Nat) (p : Printing Unit) : Prop :=
  match p.runOn {} with
  | (.ok (), page) => p.runOn ⟨above, n⟩ = (.ok (), ⟨above ++ page.lines.map (blanks n ++ ·), n⟩)
  | (.error e, page) => ∃ deeper : Nat,
      p.runOn ⟨above, n⟩ =
        (.error e, ⟨above ++ page.lines.map (blanks n ++ ·), (n + deeper : Nat)⟩)

theorem Frames.printsBelow (h : Frames p) (above : Array String) (n : Nat) :
    PrintsBelow above n p := by
  obtain ⟨r, lines, deeper, hadds, hdeeper⟩ := h
  have hempty : p.runOn {} = (r, ⟨lines, deeper⟩) := by
    have := hadds #[] 0
    simpa [blanks_zero_append] using this
  rw [PrintsBelow, hempty]
  cases r with
  | error e => exact ⟨deeper, hadds above n⟩
  | ok =>
    obtain rfl := hdeeper rfl
    exact hadds above n

/-- **Printing adds to the page it starts on.** On a page with lines above and any indentation, a
statement, a constant, a structure or a function prints what it prints on an empty page, below these
lines and further to the right, and fails where it fails there. -/
theorem printing_frames (above : Array String) (n : Nat) :
    (∀ s : Stmt, PrintsBelow above n s.print) ∧
      (∀ t : TypedName, PrintsBelow above n t.printConst) ∧
      (∀ s : Struct, PrintsBelow above n s.print) ∧
      ∀ f : Function, PrintsBelow above n f.print :=
  ⟨fun s => s.frames_print.printsBelow above n, fun t => t.frames_printConst.printsBelow above n,
    fun s => s.frames_print.printsBelow above n, fun f => f.frames_print.printsBelow above n⟩

end ToyLang
