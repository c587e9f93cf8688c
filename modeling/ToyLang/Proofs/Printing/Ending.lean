import ToyLang.Proofs.Printing.Page

/-!
# How a printed file ends

The last line of a file with a declaration ends in a semicolon or in `end`, and the empty lines
behind it are dropped, so that its text ends in exactly one line break (`File.unparse_ending`).

`Leads pre p post` says what a computation makes of a page if it succeeds; whatever was printed
before does not matter once a line is printed that ends in something visible (`closes_line`).
-/

set_option autoImplicit false

namespace ToyLang

/-! ## Pages with an end -/

/-- The line does not end in a line break, and is not empty. -/
def Solid (l : String) : Prop := ∃ cs c, l.toList = cs ++ [c] ∧ c ≠ '\n'

theorem Solid.append (text : String) {l : String} (h : Solid l) : Solid (text ++ l) := by
  obtain ⟨cs, c, hl, hc⟩ := h
  exact ⟨text.toList ++ cs, c, by rw [String.toList_append, hl, List.append_assoc], hc⟩

theorem solid_end : Solid "end" := ⟨['e', 'n'], 'd', rfl, by decide⟩

theorem solid_semicolon : Solid ";" := ⟨[], ';', rfl, by decide⟩

namespace Page

/-- Behind the last solid line there are only empty ones. -/
def Closed (page : Page) : Prop :=
  ∃ ls l n, page.lines.toList = ls ++ [l] ++ List.replicate n "" ∧ Solid l

/-- The page is closed if anything was printed that closes it. -/
def ClosedIf (started : Prop) (page : Page) : Prop := started → page.Closed

theorem Closed.addGap {page : Page} (h : page.Closed) : page.addGap.Closed := by
  obtain ⟨ls, l, n, hlines, hl⟩ := h
  refine ⟨ls, l, n + 1, ?_, hl⟩
  rw [Page.addGap, Array.toList_push, hlines, List.replicate_succ', List.append_assoc]

theorem closed_addLine (page : Page) {text : String} (h : Solid text) :
    (page.addLine text).Closed := by
  refine ⟨page.lines.toList, page.indentation ++ text, 0, ?_, h.append _⟩
  rw [Page.addLine, Array.toList_push, List.replicate_zero, List.append_nil]

/-- **The text of a closed page** without the empty lines at its end: it ends in one line break. -/
theorem Closed.text_ending {page : Page} (h : page.Closed) :
    Text.dropEndWhile (· = '\n') page.dropGaps.text.toList ++ ['\n'] =
      page.dropGaps.text.toList := by
  obtain ⟨ls, l, n, hlines, cs, c, hl, hc⟩ := h
  have hne : l ≠ "" := by
    rintro rfl
    simp at hl
  have hkept : page.dropGaps.lines.toList = ls ++ [l] := by
    rw [dropGaps_lines, hlines, Text.dropEndWhile, List.reverse_append, List.reverse_replicate,
      List.dropWhile_append_of_pos (by simp)]
    simp [hne]
  rw [Page.text_toList, hkept]
  simp [Text.dropEndWhile, hl, hc]

end Page

/-! ## Printing -/

/-- If the computation succeeds on a page of the first kind, it makes it one of the second kind. -/
def Leads (pre : Page → Prop) (p : Printing Unit) (post : Page → Prop) : Prop :=
  ∀ page page', pre page → p.runOn page = (.ok (), page') → post page'

/-- The computation leaves a closed page, whatever page it starts on. -/
def Closes (p : Printing Unit) : Prop := Leads (fun _ => True) p Page.Closed

section
variable {pre mid post : Page → Prop} {p q : Printing Unit}

theorem Leads.then (hp : Leads pre p mid) (hq : Leads mid q post) : Leads pre (do p; q) post := by
  intro page page' hpre hrun
  rw [runOn_seq] at hrun
  rcases h : p.runOn page with ⟨_ | _, between⟩ <;> rw [h] at hrun
  · cases hrun
  · exact hq between page' (hp page between hpre h) hrun

theorem Closes.after (hq : Closes q) : Closes (do p; q) := by
  have hp : Leads (fun _ => True) p fun _ => True := fun _ _ _ _ => trivial
  exact hp.then hq

theorem closes_line {text : String} (h : Solid text) : Closes (Printing.line text) := by
  intro page page' _ hrun
  obtain rfl : page.addLine text = page' := congrArg Prod.snd hrun
  exact page.closed_addLine h

theorem leads_gap : Leads Page.Closed Printing.gap Page.Closed := by
  intro page page' h hrun
  obtain rfl : page.addGap = page' := congrArg Prod.snd hrun
  exact h.addGap

/-- What an expression gives is there at once, or nothing is printed. -/
theorem Closes.of_result {α : Type} (x : Except PrintError α) {p : α → Printing Unit}
    (h : ∀ a, Closes (p a)) : Closes (do p (← x)) := by
  cases x with
  | ok a => exact h a
  | error e =>
    intro page page' _ hrun
    cases hrun

/-- Several computations that close the page: it is closed behind them if there is one, or if it was
closed before. -/
theorem leads_forM {α : Type} {as : List α} {p : α → Printing Unit} {started : Prop}
    (h : ∀ a, Closes (p a)) :
    Leads (Page.ClosedIf started) (as.forM p) (Page.ClosedIf (started ∨ as ≠ [])) := by
  induction as generalizing started with
  | nil =>
    intro page page' hpage hrun hstarted
    obtain rfl : page = page' := congrArg Prod.snd hrun
    exact hpage (by simpa using hstarted)
  | cons a as ih =>
    have hfirst : Leads (Page.ClosedIf started) (p a) (Page.ClosedIf True) :=
      fun page page' _ hrun _ => h a page page' trivial hrun
    intro page page' hpage hrun _
    exact (hfirst.then ih) page page' hpage hrun (.inl trivial)

end

/-! ## Declarations and files -/

theorem closes_const (c : TypedName) : Closes c.printConst :=
  .of_result _ fun value => closes_line (solid_semicolon.append
    ("const " ++ c.name ++ " : " ++ c.dataType.text ++ " := " ++ value))

theorem closes_import (path : String) : Closes (Printing.line (importText path)) :=
  closes_line (solid_semicolon.append _)

theorem closes_struct (s : Struct) : Closes (do s.print; Printing.gap) :=
  Leads.then (closes_line solid_end).after.after leads_gap

theorem closes_function (g : Function) : Closes (do g.print; Printing.gap) :=
  Leads.then (closes_line solid_end).after.after leads_gap

namespace File

/-- Whether the file declares anything. -/
def Declares (f : File) : Prop :=
  f.imports ≠ [] ∨ f.consts ≠ [] ∨ f.structs ≠ [] ∨ f.functions ≠ []

theorem leads_print (f : File) :
    Leads (Page.ClosedIf False) f.print fun page =>
      f.Declares → ∃ closed : Page, closed.Closed ∧ page = closed.dropGaps := by
  have hgap {started : Prop} :
      Leads (Page.ClosedIf started) Printing.gap (Page.ClosedIf started) :=
    fun page page' h hrun hstarted => leads_gap page page' (h hstarted) hrun
  have hdrop : Leads
      (Page.ClosedIf ((((False ∨ f.imports ≠ []) ∨ f.consts ≠ []) ∨ f.structs ≠ []) ∨
        f.functions ≠ [])) (modify Page.dropGaps)
      (fun page => f.Declares → ∃ closed : Page, closed.Closed ∧ page = closed.dropGaps) := by
    intro page page' hpage hrun hf
    obtain rfl : page.dropGaps = page' := congrArg Prod.snd hrun
    refine ⟨page, hpage ?_, rfl⟩
    rcases hf with h | h | h | h <;> simp [h]
  have hrest := (leads_forM closes_struct).then ((leads_forM closes_function).then hdrop)
  refine (leads_forM closes_import).then ((leads_forM closes_const).then ?_)
  split
  · exact hrest
  · exact hgap.then hrest

/-- **The text of a file that declares something** ends in one line break. -/
theorem unparse_ending {f : File} {text : String} (h : f.unparse = .ok text) (hf : f.Declares) :
    Text.dropEndWhile (· = '\n') text.toList ++ ['\n'] = text.toList := by
  rw [unparse] at h
  rcases hrun : f.print.runOn {} with ⟨_ | _, page⟩ <;> rw [hrun] at h
  · cases h
  · obtain ⟨closed, hclosed, rfl⟩ := f.leads_print {} page False.elim hrun hf
    obtain rfl : closed.dropGaps.text = text := by cases h; rfl
    exact hclosed.text_ending

end File

end ToyLang
