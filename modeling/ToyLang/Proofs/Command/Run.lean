import ToyLang.Proofs.Accept
import ToyLang.Proofs.Command.Folder
import ToyLang.Proofs.Printing.Ending
import ToyLang.Proofs.Shape.Printing
import ToyLang.Proofs.View.Run

/-!
# Runs of the command

Every program comes to a text, is refused or breaks off (`evaluate_ends`): it is refused if lexing
fails at a literal without an end, and in a strict run also for what is reported about it, and it
breaks off if lexing fails at a number with too many digits; every tree that is parsed can be
printed. So a run on a program that is given inline ends with a status, unless there is such a
number (`inline_run`, `longNumber_run`), and where it does not deliver a text it has left the files
alone.
-/

set_option autoImplicit false

namespace ToyLang

/-! ## Evaluation -/

/-- Lexing fails at a literal without an end. -/
def Unterminated (source : String) : Prop :=
  ∃ l p, (Cursor.ofText source).tokens.2 = some ⟨.unterminated l, p⟩

/-- Lexing fails at a number with too many digits. -/
def Overlong (source : String) : Prop :=
  ∃ n p, (Cursor.ofText source).tokens.2 = some ⟨.tooLong n, p⟩

/-- A text is parsed as a well-formed file if it can be lexed, and otherwise as nothing. -/
theorem parse_outcome (source name : String) :
    (∃ e, (Cursor.ofText source).tokens.2 = some e ∧
      (parse source name).1 = .error (.lexical e)) ∨
    (Cursor.ofText source).tokens.2 = none ∧
      ∃ f s, parse source name = (.ok f, s) ∧ f.WellFormed := by
  obtain ⟨us, q, rest, -, -, ⟨-, htokens, hclose⟩ | ⟨e, htokens, hclose⟩⟩ :=
    exists_view_ofText source
  · obtain ⟨f, s, hbuild, -⟩ := build_accept rfl rfl hclose name
    refine .inr ⟨by rw [htokens], f, s, hbuild, ?_⟩
    exact File.wellFormed_of_run hbuild
  · exact .inl ⟨e, by rw [htokens], build_of_close_error rfl rfl hclose name⟩

/-- The command refuses the program: lexing fails at a literal without an end, or it does not fail
and the program is parsed in a strict run and something is reported. -/
def Refused (o : Options) (name source : String) : Prop :=
  Unterminated source ∨ ¬Overlong source ∧
    o.tokens = false ∧ o.strict = true ∧ (parse source name).2.diagnostics.hasErrors = true

/-- What is refused has no number in the way. -/
theorem Refused.convertible {o : Options} {name source : String} (h : Refused o name source) :
    ¬Overlong source := by
  rcases h with ⟨l, p, hl⟩ | ⟨hconvertible, -⟩
  · rintro ⟨n, q, hn⟩
    cases hl.symm.trans hn
  · exact hconvertible

/-- What is printed about a program before its text: the diagnostics of its parse, if there are. -/
def diagnosticLines (o : Options) (name source : String) : List String :=
  let ds := (parse source name).2.diagnostics
  if !o.tokens && ds.hasErrors then [ds.render] else []

/-- `text` is the canonical text of the file that the source is parsed as, if the file declares
anything. -/
def CanonicalText (name source text : String) : Prop :=
  ∀ f s, parse source name = (.ok f, s) → f.Declares → f.unparse = .ok text

theorem fileText_ok {f : File} (h : f.WellFormed) (ast : Bool) :
    ∃ text, fileText ast f = .ok text ∧
      (ast = false → f.Declares → f.unparse = .ok (text ++ "\n")) := by
  obtain ⟨text, htext⟩ := h.unparse_ok
  cases ast with
  | true => exact ⟨f.toJson.print, rfl, fun h => by cases h⟩
  | false =>
    refine ⟨dropFinalNewlines text, by simp [fileText, htext, Except.map, Except.mapError], ?_⟩
    intro _ hf
    have hending := f.unparse_ending htext hf
    rw [htext, dropFinalNewlines]
    refine congrArg Except.ok (String.toList_injective ?_)
    rw [String.toList_append, String.toList_ofList]
    exact hending.symm

/-- What an evaluation comes to: the program is refused, there is a number in it that cannot be
converted, or there is a text. -/
inductive Ends (o : Options) (name source : String) : Evaluation → Prop
  | refused (h : Refused o name source) (notes : List String) :
      Ends o name source { notes, result := .ok none }
  | brokenOff {n : Nat} {p : Pos} (h : (Cursor.ofText source).tokens.2 = some ⟨.tooLong n, p⟩) :
      Ends o name source { result := .error (.halted (.lexical ⟨.tooLong n, p⟩)) }
  | text (convertible : ¬Overlong source) (taken : ¬Refused o name source) (text : String)
      (canonical : o.tokens = false → o.ast = false → CanonicalText name source (text ++ "\n")) :
      Ends o name source
        { notes := diagnosticLines o name source, result := .ok (some text) }

/-- What a lexical failure comes to. -/
theorem Ends.ofLexical (o : Options) (name : String) {source : String} {e : LexicalError}
    (h : (Cursor.ofText source).tokens.2 = some e) :
    Ends o name source (.ofHalt (.lexical e)) := by
  obtain ⟨l | n, p⟩ := e
  · exact .refused (.inl ⟨l, p, h⟩) _
  · exact .brokenOff h

theorem not_unterminated {source : String} (h : (Cursor.ofText source).tokens.2 = none) :
    ¬Unterminated source := by
  rintro ⟨l, p, he⟩
  cases h.symm.trans he

theorem not_overlong {source : String} (h : (Cursor.ofText source).tokens.2 = none) :
    ¬Overlong source := by
  rintro ⟨n, p, he⟩
  cases h.symm.trans he

theorem listTokens_ends {o : Options} (htokens : o.tokens = true) (name source : String) :
    Ends o name source (listTokens source) := by
  rcases h : (Cursor.ofText source).tokens with ⟨ts, _ | e⟩
  · have hend : (Cursor.ofText source).tokens.2 = none := congrArg Prod.snd h
    have hlines : diagnosticLines o name source = [] := by simp [diagnosticLines, htokens]
    have htaken : ¬Refused o name source := by simp [Refused, not_unterminated hend, htokens]
    have hends := Ends.text (not_overlong hend) htaken ("\n".intercalate (ts.map Token.listed))
      (fun hnot => absurd htokens (by simp [hnot]))
    rw [hlines] at hends
    simpa only [listTokens, h] using hends
  · have hends := Ends.ofLexical o name (congrArg Prod.snd h)
    simpa only [listTokens, h] using hends

theorem showTree_ends {o : Options} (htokens : o.tokens = false) (name source : String) :
    Ends o name source (showTree o name source) := by
  rcases parse_outcome source name with ⟨e, hlex, hparse⟩ | ⟨hlex, f, s, hparse, hf⟩
  · rcases h : parse source name with ⟨_, s⟩
    obtain rfl : _ = _ := hparse.symm.trans (congrArg Prod.fst h)
    have hends := Ends.ofLexical o name hlex
    simpa only [showTree, h] using hends
  · obtain ⟨text, htext, hcanonical⟩ := fileText_ok hf o.ast
    have hconvertible := not_overlong hlex
    by_cases hstrict : s.diagnostics.hasErrors = true ∧ o.strict = true
    · have herrors : (parse source name).2.diagnostics.hasErrors = true := by
        rw [hparse]
        exact hstrict.1
      have hrefused : Refused o name source := .inr ⟨hconvertible, htokens, hstrict.2, herrors⟩
      have hends := Ends.refused hrefused [s.diagnostics.render]
      simpa [showTree, hparse, hstrict] using hends
    · have hunterminated := not_unterminated hlex
      have htaken : ¬Refused o name source := by
        simpa [Refused, hunterminated, hconvertible, hparse, htokens, and_comm] using hstrict
      have hends := Ends.text hconvertible htaken text fun _ hast g s' hparse' hg => by
        rw [hparse] at hparse'
        cases hparse'
        exact hcanonical hast hg
      simpa [showTree, hparse, hstrict, htext, diagnosticLines, htokens, Except.map] using hends

/-- **A program comes to a text, is refused or breaks off.** -/
theorem evaluate_ends (o : Options) (name source : String) :
    Ends o name source (evaluate o name source) := by
  unfold evaluate
  split
  · next htokens => exact listTokens_ends htokens name source
  · next htokens => exact showTree_ends (by simpa using htokens) name source

/-! ## Running -/

/-- Lines as they are printed. -/
def printed (lines : List String) : String := String.join (lines.map (· ++ "\n"))

section
variable {σ : Type} {files : Files (StateM σ)} {w : σ} {o : Options}

/-- Whatever is written to a path is taken. -/
def Files.Takes (files : Files (StateM σ)) (w : σ) (path : String) : Prop :=
  path.contains '\x00' = false ∧ ∀ text, ((files.write path text).run w).1 = .ok ()

/-- The result of a run can be delivered. -/
def Deliverable (files : Files (StateM σ)) (w : σ) (out : Option String) : Prop :=
  ∀ path, out = some path → path ≠ "" → files.Takes w path

/-- What a run leaves behind that delivers `text`: it is printed, or written to the file that it is
to go to. -/
def delivered (files : Files (StateM σ)) (w : σ) (lines : List String) (text : String) :
    Option String → Outcome × σ
  | none | some "" => ({ stdout := printed lines ++ text, status := .ok 0 }, w)
  | some path =>
    ({ stdout := printed lines, status := .ok 0 }, ((files.write path text).run w).2)

theorem delivered_file {path : String} (hpath : path ≠ "") (lines : List String) (text : String) :
    delivered files w lines text (some path) =
      ({ stdout := printed lines, status := .ok 0 }, ((files.write path text).run w).2) := by
  unfold delivered
  split <;> simp_all

/-- An action on a path without a null character. -/
theorem withPath_run {α : Type} {path : String} {action : StateM σ (Except FileFault α)}
    {r : Except FileFault α} {w' : σ} (hpath : path.contains '\x00' = false)
    (h : action.run w = (r, w')) :
    (withPath path action).run w = (r.mapError fun fault => .file ⟨fault, path⟩, w') := by
  rw [withPath, if_neg (by simp [hpath]), StateT.run_bind, h]
  rfl

theorem after_ended (lines : List String) (status : Nat) :
    Outcome.after lines (.ended status) = { stdout := printed lines, status := .ok status } := by
  simp only [Outcome.after, Outcome.ended, printed, String.append_empty]

theorem after_text (lines : List String) (text : String) :
    Outcome.after lines (Outcome.after [text] (.ended 0)) =
      { stdout := printed lines ++ (text ++ "\n"), status := .ok 0 } := by
  simp [Outcome.after, Outcome.ended, printed, String.join]

theorem deliver_run {out : Option String} (hout : Deliverable files w out) (lines : List String)
    (text : String) :
    (Outcome.after lines <$> deliver files out text).run w =
      delivered files w lines (text ++ "\n") out := by
  unfold deliver
  split
  · exact congrArg (·, w) (after_text lines text)
  · exact congrArg (·, w) (after_text lines text)
  · next path hpath =>
    obtain ⟨hnul, htaken⟩ := hout path rfl hpath
    rcases hwrite : (files.write path (text ++ "\n")).run w with ⟨r, w'⟩
    obtain rfl : r = .ok () := (congrArg Prod.fst hwrite).symm.trans (htaken _)
    rw [StateT.run_map, StateT.run_bind, withPath_run hnul hwrite, delivered_file hpath, hwrite,
      ← after_ended]
    rfl

theorem delivered_status (files : Files (StateM σ)) (w : σ) (lines : List String) (text : String)
    (out : Option String) : (delivered files w lines text out).1.status = .ok 0 := by
  unfold delivered
  split <;> rfl

/-- **A program that is refused** ends with status 1, and **one that breaks off** without a status
and with nothing printed, before any file is written; **any other** comes to a text that is
delivered, wherever it is to go. -/
theorem runProgram_ends (files : Files (StateM σ)) (w : σ) (o : Options) (name source : String) :
    (Refused o name source ∧ ¬Overlong source ∧ ∃ lines, ∀ out,
      (runProgram files { o with out } name source).run w =
        ({ stdout := printed lines, status := .ok 1 }, w)) ∨
    (∃ n p, (Cursor.ofText source).tokens.2 = some ⟨.tooLong n, p⟩ ∧
      ¬Refused o name source ∧ ∀ out,
      (runProgram files { o with out } name source).run w =
        (.failed (.halted (.lexical ⟨.tooLong n, p⟩)), w)) ∨
    ¬Refused o name source ∧ ¬Overlong source ∧ ∃ text,
      (∀ out, Deliverable files w out →
        (runProgram files { o with out } name source).run w =
          delivered files w (diagnosticLines o name source) text out) ∧
      (o.tokens = false → o.ast = false → CanonicalText name source text) := by
  have hends := evaluate_ends o name source
  generalize he : evaluate o name source = e at hends
  cases hends with
  | refused hrefused lines =>
    refine .inl ⟨hrefused, hrefused.convertible, lines, fun out => ?_⟩
    have heval : evaluate { o with out } name source = ⟨lines, .ok none⟩ := he
    simp only [runProgram, heval]
    rw [← after_ended]
    rfl
  | @brokenOff n p hlex =>
    refine .inr (.inl ⟨n, p, hlex, fun h => h.convertible ⟨n, p, hlex⟩, fun out => ?_⟩)
    have heval : evaluate { o with out } name source =
        { result := .error (.halted (.lexical ⟨.tooLong n, p⟩)) } := he
    simp only [runProgram, heval]
    rfl
  | text hconvertible hnot text hcanonical =>
    refine .inr (.inr ⟨hnot, hconvertible, text ++ "\n", fun out hout => ?_, hcanonical⟩)
    have heval : evaluate { o with out } name source = ⟨_, .ok (some text)⟩ := he
    rw [← deliver_run hout]
    simp only [runProgram, heval]
    rfl

/-- What is then left behind, and what the status says of the program. -/
theorem runProgram_run (files : Files (StateM σ)) (w : σ) (o : Options) (name source : String)
    (hout : Deliverable files w o.out) :
    let r := (runProgram files o name source).run w
    let plain := (runProgram files { o with out := none } name source).run w
    let lines := printed (diagnosticLines o name source)
    (∀ n p, (Cursor.ofText source).tokens.2 = some ⟨.tooLong n, p⟩ →
        r = (.failed (.halted (.lexical ⟨.tooLong n, p⟩)), w)) ∧
      (r.1.status = .ok 0 ∨ r.1.status = .ok 1 ↔ ¬Overlong source) ∧
      (r.1.status = .ok 1 ↔ Refused o name source) ∧
      (r.1.status = .ok 1 → r.2 = w) ∧
      (r.1.status = .ok 0 → ∃ text,
        plain = ({ stdout := lines ++ text, status := .ok 0 }, w) ∧
        (match o.out with
          | none | some "" => r = plain
          | some path =>
            r = ({ stdout := lines, status := .ok 0 }, ((files.write path text).run w).2)) ∧
        (o.tokens = false → o.ast = false → CanonicalText name source text)) := by
  rcases runProgram_ends files w o name source with
    ⟨hrefused, hconvertible, lines, hends⟩ | ⟨n, p, hlex, hnot, hends⟩ |
      ⟨hnot, hconvertible, text, hends, hcanonical⟩
  · have hr : (runProgram files o name source).run w = _ := hends o.out
    have hlexed (n : Nat) (p : Pos) :
        (Cursor.ofText source).tokens.2 ≠ some ⟨.tooLong n, p⟩ := fun h => hconvertible ⟨n, p, h⟩
    simp [hr, hlexed, hrefused, hconvertible]
  · have hr : (runProgram files o name source).run w = _ := hends o.out
    have hoverlong : Overlong source := ⟨n, p, hlex⟩
    simp [hr, hlex, hnot, hoverlong, Outcome.failed]
  · have hnone : Deliverable files w none := fun path h => by cases h
    have hr : (runProgram files o name source).run w = _ := hends o.out hout
    have hstatus := delivered_status files w (diagnosticLines o name source) text o.out
    simp only [hr, hends none hnone]
    refine ⟨fun n p h => absurd ⟨n, p, h⟩ hconvertible, by simp [hstatus, hconvertible],
      by simp [hstatus, hnot], by simp [hstatus], fun _ => ⟨text, rfl, ?_, hcanonical⟩⟩
    unfold delivered
    split <;> simp_all

/-- A run on an inline program is one on the program. -/
theorem run_inline (files : Files (StateM σ)) (hinline : o.inline = true) :
    run files o = runProgram files o "<string>" o.source := by
  rw [run, if_pos hinline]

/-- **A run on an inline program** fails if lexing fails at a number with too many digits: it has no
status then, prints nothing and touches no file. Otherwise it ends with a status, if what it writes
is taken. The status is 1 if the program is refused, and no file is touched then; else it is 0.
There is then one text that is printed behind the diagnostics, or written to the file that it is to
go to while only the diagnostics are printed; by default it is the canonical text of the file that
was parsed, if that declares anything. -/
theorem inline_run (files : Files (StateM σ)) (w : σ) (o : Options) (hinline : o.inline = true)
    (hout : Deliverable files w o.out) :
    let r := (run files o).run w
    let plain := (run files { o with out := none }).run w
    let lines := printed (diagnosticLines o "<string>" o.source)
    (∀ n p, (Cursor.ofText o.source).tokens.2 = some ⟨.tooLong n, p⟩ →
        r = (.failed (.halted (.lexical ⟨.tooLong n, p⟩)), w)) ∧
      (r.1.status = .ok 0 ∨ r.1.status = .ok 1 ↔ ¬Overlong o.source) ∧
      (r.1.status = .ok 1 ↔ Refused o "<string>" o.source) ∧
      (r.1.status = .ok 1 → r.2 = w) ∧
      (r.1.status = .ok 0 → ∃ text,
        plain = ({ stdout := lines ++ text, status := .ok 0 }, w) ∧
        (match o.out with
          | none | some "" => r = plain
          | some path =>
            r = ({ stdout := lines, status := .ok 0 }, ((files.write path text).run w).2)) ∧
        (o.tokens = false → o.ast = false → CanonicalText "<string>" o.source text)) := by
  have h := runProgram_run files w o "<string>" o.source hout
  rw [← run_inline files hinline, ← run_inline files (o := { o with out := none }) hinline] at h
  exact h

end

theorem import_accepted {o : Options} (h : o.strict = false) (name : String) :
    ¬ Refused o name "import a;" := by
  rintro (hlex | ⟨-, -, hstrict, -⟩)
  · exact not_unterminated (by decide +kernel) hlex
  · rw [h] at hstrict
    cases hstrict

theorem import_convertible : ¬Overlong "import a;" := not_overlong (by decide +kernel)

/-- A program that is one number of 4301 digits ends without a status. -/
theorem longNumber_run :
    let o : Options := { source := String.ofList (List.replicate 4301 '1'), inline := true }
    let r := (run Folder.world o).run {}
    r = (.failed (.halted (.lexical ⟨.tooLong 4301, ⟨1, 1⟩⟩)), {}) ∧
      r.1.status ≠ .ok 0 ∧ r.1.status ≠ .ok 1 := by
  intro o r
  have htokens := tokens_replicate (n := 4301) (c := '1') [] rfl (by decide) (by simp)
  rw [List.append_nil] at htokens
  have hlex : (Cursor.ofText o.source).tokens.2 = some ⟨.tooLong 4301, ⟨1, 1⟩⟩ :=
    congrArg Prod.snd htokens
  have hrun := runProgram_run Folder.world {} o "<string>" o.source fun path h => by cases h
  rw [← run_inline Folder.world rfl] at hrun
  have hr : r = (.failed (.halted (.lexical ⟨.tooLong 4301, ⟨1, 1⟩⟩)), {}) := hrun.1 _ _ hlex
  rw [hr]
  exact ⟨rfl, by simp [Outcome.failed], by simp [Outcome.failed]⟩

/-- `import a;` is printed to a file. -/
theorem inline_import_written :
    let o : Options := { source := "import a;", inline := true, out := some "a.txt" }
    o.inline = true ∧ Deliverable Folder.world {} o.out ∧
      (run Folder.world o).run {} =
        ({ stdout := "", status := .ok 0 },
          Folder.put {} ["a.txt"] "import a;\n".toUTF8.data.toList) := by
  intro o
  have hplain : Folder.IsPlain "a.txt" := ⟨by simp, by decide +kernel, by simp⟩
  have hwrite (text : String) : (Folder.world.write "a.txt" text).run {} =
      (.ok (), Folder.put {} ["a.txt"] text.toUTF8.data.toList) :=
    Folder.world_write (Folder.write_plain hplain (by simp))
  have hout : Deliverable Folder.world {} o.out := by
    rintro path ⟨⟩ -
    exact ⟨by simp, fun text => congrArg Prod.fst (hwrite text)⟩
  obtain ⟨-, hstatus, hrefused, -, htext⟩ := inline_run Folder.world {} o rfl hout
  obtain ⟨text, -, hwritten, hcanonical⟩ :=
    htext ((hstatus.2 import_convertible).resolve_right
      (mt hrefused.1 (import_accepted rfl _)))
  let f : File := { name := "<string>", imports := ["a"] }
  have hparse : (parse "import a;" "<string>").1 = .ok f := rfl
  have hprinted : f.unparse = .ok text :=
    hcanonical rfl rfl f _ (Prod.ext hparse rfl) (.inl (by simp [f]))
  have hwell : (f.print.runOn {}).1 = .ok () := rfl
  have hpage : (f.print.runOn {}).2.text = "import a;\n" := by decide +kernel
  obtain rfl : "import a;\n" = text := by
    rw [← hpage]
    simpa [File.unparse, hwell, Except.map] using hprinted
  have hquiet : (parse "import a;" "<string>").2.diagnostics.hasErrors = false := rfl
  have hlines : diagnosticLines o "<string>" o.source = [] := by
    simp [o, diagnosticLines, hquiet]
  refine ⟨rfl, hout, hwritten.trans ?_⟩
  rw [hwrite, hlines]
  rfl

end ToyLang
