import ToyLang.Proofs.Printing.Expression

/-!
# What printing writes

Every line of a printed page spells tokens of its own. `Writes p ts`: whatever stands on the page,
`p` succeeds, adds lines that spell `ts` and leaves the indentation as it is.

* `runOn_seq`, `runOn_nested`, `holds_forM`: how computations run one after the other and one level
  deeper, and what holds of a row of them;
* `writes_line`, `Writes.then`, `writes_nested`, `writes_forM`: it goes through a computation;
* `Lines.yields_text`: the text of a page is read as the tokens of its lines, also without the empty
  ones at the end.
-/

set_option autoImplicit false

namespace ToyLang

variable {ts us : List Token} {ls ms : List String}

/-! ## Lines -/

/-- The lines spell the tokens, each of them a part. -/
inductive Lines : List String → List Token → Prop
  | nil : Lines [] []
  | cons {l : String} {ls : List String} {ts us : List Token} (h : Spells l.toList ts)
      (hs : Lines ls us) : Lines (l :: ls) (ts ++ us)

theorem Lines.append (h : Lines ls ts) (hs : Lines ms us) : Lines (ls ++ ms) (ts ++ us) := by
  induction h with
  | nil => exact hs
  | cons hl _ ih =>
    rw [List.append_assoc]
    exact .cons hl ih

theorem Lines.single {l : String} (h : Spells l.toList ts) : Lines [l] ts := by
  have := Lines.cons h .nil
  rwa [List.append_nil] at this

/-- Each line and a line break. -/
theorem Lines.closed (h : Lines ls ts) : Closed (ls.flatMap fun l => l.toList ++ ['\n']) ts := by
  induction h with
  | nil => exact closed_nil
  | cons hl _ ih =>
    have hline := hl.closed_append (c := '\n') rfl (closed_space rfl)
    rw [List.append_nil] at hline
    exact hline.append ih

/-- Empty lines at the end spell nothing. -/
theorem Lines.of_append (h : Lines (ls ++ ms) ts) (hms : ∀ m ∈ ms, m = "") : Lines ls ts := by
  induction ls generalizing ts with
  | nil =>
    induction ms generalizing ts with
    | nil => exact h
    | cons m ms ih =>
      cases h with
      | cons hl hs =>
        obtain rfl := hms m List.mem_cons_self
        obtain rfl := hl.yields.unique yields_nil
        exact ih (fun m hm => hms m (List.mem_cons_of_mem _ hm)) hs
  | cons l ls ih =>
    cases h with
    | cons hl hs => exact .cons hl (ih hs)

/-! ## Pages -/

/-- The computation succeeds, adds lines that spell the tokens, and keeps the indentation. -/
def Writes (p : Printing Unit) (ts : List Token) : Prop :=
  ∀ page, ∃ ls, Lines ls ts ∧
    p.runOn page = (.ok (), { page with lines := page.lines ++ ls.toArray })

theorem writes_pure : Writes (pure ()) [] := fun page => ⟨[], .nil, by simp [Printing.runOn]; rfl⟩

theorem writes_line {text : String} (h : Spells text.toList ts) :
    Writes (Printing.line text) ts := by
  intro page
  refine ⟨[page.indentation ++ text], .single ?_, by simp [Printing.runOn, Printing.line]; rfl⟩
  rw [String.toList_append, Page.indentation, String.toList_ofList]
  exact (closed_spaces _).spells_append h

theorem writes_gap : Writes Printing.gap [] := by
  intro page
  exact ⟨[""], .single closed_nil.spells, rfl⟩

theorem runOn_seq (p q : Printing Unit) (page : Page) :
    (do p; q : Printing Unit).runOn page =
      match p.runOn page with
      | (.ok (), page) => q.runOn page
      | (.error e, page) => (.error e, page) := by
  unfold Printing.runOn
  simp only [ExceptT.run_bind, StateT.run_bind]
  rcases p.run.run page with ⟨_ | _, _⟩ <;> rfl

theorem runOn_then {p q : Printing Unit} {page page' : Page}
    (h : p.runOn page = (.ok (), page')) :
    (do p; q : Printing Unit).runOn page = q.runOn page' := by
  rw [runOn_seq, h]

/-- One level deeper; a computation that fails does not come back. -/
theorem runOn_nested (p : Printing Unit) (page : Page) :
    (Printing.nested p).runOn page =
      match p.runOn (page.shift 1) with
      | (.ok (), page) => (.ok (), page.shift (-1))
      | (.error e, page) => (.error e, page) := by
  have hdeeper : (modify (·.shift 1) : Printing Unit).runOn page = (.ok (), page.shift 1) := rfl
  rw [Printing.nested, runOn_then hdeeper, runOn_seq]
  rcases p.runOn (page.shift 1) with ⟨_ | _, _⟩ <;> rfl

/-- What holds of a computation that does nothing, and of two one after the other if it does of
each, holds of a row of computations if it does of each. -/
theorem holds_forM {P : Printing Unit → Prop} (hpure : P (pure ()))
    (hthen : ∀ {p q : Printing Unit}, P p → P q → P (do p; q)) {α : Type} {as : List α}
    {p : α → Printing Unit} (h : ∀ a ∈ as, P (p a)) : P (as.forM p) := by
  induction as with
  | nil => exact hpure
  | cons a as ih =>
    exact hthen (h a List.mem_cons_self) (ih fun b hb => h b (List.mem_cons_of_mem a hb))

theorem Writes.then {p q : Printing Unit} (hp : Writes p ts) (hq : Writes q us) :
    Writes (do p; q) (ts ++ us) := by
  intro page
  obtain ⟨ls, hls, hrun⟩ := hp page
  obtain ⟨ms, hms, hrun'⟩ := hq { page with lines := page.lines ++ ls.toArray }
  refine ⟨ls ++ ms, hls.append hms, ?_⟩
  rw [runOn_then hrun, hrun']
  simp

theorem writes_nested {p : Printing Unit} (h : Writes p ts) : Writes (Printing.nested p) ts := by
  intro page
  obtain ⟨ls, hls, hrun⟩ := h (page.shift 1)
  refine ⟨ls, hls, ?_⟩
  have hback : page.indent + 1 + -1 = page.indent := by omega
  rw [runOn_nested, hrun]
  simp only [Page.shift, hback]

theorem writes_forM {α : Type} {as : List α} {p : α → Printing Unit} {tokens : α → List Token}
    (h : ∀ a ∈ as, Writes (p a) (tokens a)) : Writes (as.forM p) (as.flatMap tokens) := by
  induction as with
  | nil => exact writes_pure
  | cons a as ih =>
    exact (h a List.mem_cons_self).then (ih fun b hb => h b (List.mem_cons_of_mem a hb))

/-- What an expression gives is there at once. -/
theorem Writes.of_ok {α : Type} {x : Except PrintError α} {a : α} {p : α → Printing Unit}
    (hx : x = .ok a) (h : Writes (p a) ts) : Writes (do p (← x)) ts := by
  subst hx
  exact h

/-! ## Texts of pages -/

theorem Page.text_toList (page : Page) :
    page.text.toList = page.lines.toList.flatMap fun l => l.toList ++ ['\n'] := by
  have hjoin (ls : List String) (hne : ls ≠ []) : ("\n".intercalate ls ++ "\n").toList =
      ls.flatMap fun l => l.toList ++ ['\n'] := by
    induction ls with
    | nil => exact absurd rfl hne
    | cons l ls ih =>
      cases ls with
      | nil => simp
      | cons l' ls =>
        rw [List.flatMap_cons, ← ih (by simp)]
        simp [String.toList_intercalate]
  unfold Page.text
  split
  · next h => simp [Array.isEmpty_iff.1 h]
  · next h => exact hjoin _ (by simpa using h)

theorem Page.dropGaps_lines (page : Page) :
    page.dropGaps.lines.toList = Text.dropEndWhile (· = "") page.lines.toList := by
  obtain ⟨lines, indent⟩ := page
  obtain ⟨ls, rfl⟩ : ∃ ls : List String, lines = ls.toArray := ⟨lines.toList, by simp⟩
  rw [Page.dropGaps, List.popWhile_toArray]
  rfl

/-- **The text of a page** is read as the tokens of its lines, without the empty ones at the end. -/
theorem Lines.yields_text {page : Page} (h : Lines page.lines.toList ts) :
    Yields page.dropGaps.text.toList ts := by
  rw [Page.text_toList, Page.dropGaps_lines, Text.dropEndWhile]
  have hsplit : page.lines.toList = (page.lines.toList.reverse.dropWhile (· = "")).reverse ++
      (page.lines.toList.reverse.takeWhile (· = "")).reverse := by
    rw [← List.reverse_append, List.takeWhile_append_dropWhile, List.reverse_reverse]
  rw [hsplit] at h
  refine (h.of_append fun m hm => ?_).closed.spells.yields
  simpa using List.all_eq_true.1 List.all_takeWhile m (List.mem_reverse.1 hm)

end ToyLang
