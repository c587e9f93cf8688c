import ToyLang.Proofs.Command.Run
import ToyLang.Proofs.Text.Utf8

/-!
# Runs on files of any content

A program in a file comes to what it comes to inline, after its line ends are folded, if its bytes
are the UTF-8 of a text: it has a status, unless lexing fails at a number with too many digits. If
they are not, the run ends in a failure that tells where decoding broke off: it has no status then,
and nothing is printed (`content_run`).
-/

set_option autoImplicit false

namespace ToyLang

/-! ## Reading a program -/

/-- The text is read as the program in its encoding, with its line ends folded. -/
theorem decodeProgram_toUTF8 (text : String) :
    decodeProgram text.toUTF8.data.toList =
      .ok (String.ofList (Text.foldNewlines text.toList)) := by
  rw [decodeProgram, Text.decode_eq_ok_iff.2 rfl]

/-- Bytes that no text has are not decoded. -/
theorem decodeProgram_other {bytes : List UInt8}
    (h : ∀ text : String, bytes ≠ text.toUTF8.data.toList) :
    ∃ e, decodeProgram bytes = .error (.undecodable e) := by
  unfold decodeProgram
  split
  · next cs hcs =>
    rw [← String.toList_ofList (l := cs)] at hcs
    exact absurd (Text.decode_eq_ok_iff.1 hcs) (h _)
  · next e _ => exact ⟨e, rfl⟩

section
variable {σ : Type} {files : Files (StateM σ)} {w w' : σ} {o : Options} {bytes : List UInt8}

/-- A run that finds its file goes on with the program in it. -/
theorem run_of_read (hinline : o.inline = false) (hname : o.source.endsWith ".tl" = true)
    (hpath : o.source.contains '\x00' = false)
    (hread : (files.read o.source).run w = (.ok bytes, w')) :
    (run files o).run w =
      (match decodeProgram bytes with
        | .error f => return .failed f
        | .ok source => runProgram files o o.source source : StateM σ Outcome).run w' := by
  rw [run, if_neg (by simp [hinline]), if_pos hname, StateT.run_bind, withPath_run hpath hread]
  rfl

/-- A program in a file is refused, breaks off, or its text is printed, as if it were given
inline. -/
theorem run_text {text : String} (hinline : o.inline = false) (hout : o.out = none)
    (hname : o.source.endsWith ".tl" = true) (hpath : o.source.contains '\x00' = false)
    (hread : (files.read o.source).run w = (.ok text.toUTF8.data.toList, w')) :
    let r := (run files o).run w
    let source := String.ofList (Text.foldNewlines text.toList)
    r.2 = w' ∧ (∀ n p, (Cursor.ofText source).tokens.2 = some ⟨.tooLong n, p⟩ →
        r.1 = .failed (.halted (.lexical ⟨.tooLong n, p⟩))) ∧
      (r.1.status = .ok 0 ∨ r.1.status = .ok 1 ↔ ¬Overlong source) ∧
      (r.1.status = .ok 1 ↔ Refused o o.source source) := by
  have hr := run_of_read hinline hname hpath hread
  rw [decodeProgram_toUTF8] at hr
  simp only [hr]
  have hnone : Deliverable files w' o.out := by
    rw [hout]
    exact fun path h => by cases h
  obtain ⟨hfails, hends, hrefused, hkept, hshown⟩ :=
    runProgram_run files w' o o.source (String.ofList (Text.foldNewlines text.toList)) hnone
  refine ⟨?_, fun n p h => by rw [hfails n p h], hends, hrefused⟩
  by_cases hoverlong : Overlong (String.ofList (Text.foldNewlines text.toList))
  · obtain ⟨n, p, h⟩ := hoverlong
    rw [hfails n p h]
  rcases hends.2 hoverlong with h | h
  · obtain ⟨printed, hplain, hdelivered, -⟩ := hshown h
    rw [hout] at hdelivered
    rw [hdelivered, hplain]
  · exact hkept h

/-- **A run on a file of any content**, with nothing to write. If the bytes of the file are the
UTF-8 of a text, the run ends with status 1 if the program is refused and otherwise with status 0,
unless lexing fails at a number with too many digits: then it fails with that and without a status.
If they are the UTF-8 of no text, it fails without a status and prints nothing. -/
theorem content_run (files : Files (StateM σ)) (w w' : σ) (o : Options) (bytes : List UInt8)
    (hinline : o.inline = false) (hout : o.out = none) (hname : o.source.endsWith ".tl" = true)
    (hpath : o.source.contains '\x00' = false)
    (hread : (files.read o.source).run w = (.ok bytes, w')) :
    let r := (run files o).run w
    r.2 = w' ∧
      (∀ text : String, bytes = text.toUTF8.data.toList →
        let source := String.ofList (Text.foldNewlines text.toList)
        (∀ n p, (Cursor.ofText source).tokens.2 = some ⟨.tooLong n, p⟩ →
          r.1 = .failed (.halted (.lexical ⟨.tooLong n, p⟩))) ∧
        (r.1.status = .ok 0 ∨ r.1.status = .ok 1 ↔ ¬Overlong source) ∧
        (r.1.status = .ok 1 ↔ Refused o o.source source)) ∧
      ((∀ text : String, bytes ≠ text.toUTF8.data.toList) →
        ∃ e, r.1 = .failed (.undecodable e)) := by
  by_cases htext : ∃ text : String, bytes = text.toUTF8.data.toList
  · refine ⟨?_, fun text h => ?_, fun h => absurd htext.choose_spec (h _)⟩
    · obtain ⟨text, rfl⟩ := htext
      exact (run_text hinline hout hname hpath hread).1
    · subst h
      exact (run_text hinline hout hname hpath hread).2
  · have hother : ∀ text : String, bytes ≠ text.toUTF8.data.toList := fun text h => htext ⟨text, h⟩
    obtain ⟨e, he⟩ := decodeProgram_other hother
    have hr := run_of_read hinline hname hpath hread
    rw [he] at hr
    simp only [hr]
    exact ⟨rfl, fun text h => absurd h (hother text), fun _ => ⟨e, rfl⟩⟩

end

/-! ## A file that is no text -/

/-- A folder with one file. -/
def Folder.ofFile (name : String) (bytes : List UInt8) : Folder := Folder.put {} [name] bytes

theorem Folder.read_ofFile (bytes : List UInt8) :
    (Folder.world.read "a.tl").run (Folder.ofFile "a.tl" bytes) =
      (.ok bytes, Folder.ofFile "a.tl" bytes) := by
  have hplain : IsPlain "a.tl" := ⟨by simp, by decide +kernel, by simp⟩
  rw [world_read]
  exact congrArg (·, _) (read_put (f := {}) hplain (by simp))

/-- The byte FF is no text: a file that holds it alone fails the run. -/
theorem undecodable_source_fails :
    let o : Options := { source := "a.tl" }
    let r := (run Folder.world o).run (Folder.ofFile "a.tl" [0xff])
    r.1 = .failed (.undecodable ⟨0xff, 0, 0, .invalidStart⟩) ∧
      r.1.status ≠ .ok 0 ∧ r.1.status ≠ .ok 1 := by
  intro o r
  have hr : r = (.failed (.undecodable ⟨0xff, 0, 0, .invalidStart⟩), Folder.ofFile "a.tl" [0xff]) :=
    run_of_read (o := o) rfl (by decide +kernel) (by simp [o]) (Folder.read_ofFile [0xff])
  rw [hr]
  exact ⟨rfl, by simp [Outcome.failed], by simp [Outcome.failed]⟩

/-- A file with `import a;` and a file with the byte FF. -/
theorem import_and_undecodable_run :
    let o : Options := { source := "a.tl" }
    o.inline = false ∧ o.out = none ∧ o.source.endsWith ".tl" = true ∧
      o.source.contains '\x00' = false ∧
      ((run Folder.world o).run
        (Folder.ofFile "a.tl" "import a;".toUTF8.data.toList)).1.status = .ok 0 ∧
      ∃ e, ((run Folder.world o).run (Folder.ofFile "a.tl" [0xff])).1 =
        .failed (.undecodable e) := by
  intro o
  have hname : o.source.endsWith ".tl" = true := by decide +kernel
  have hpath : o.source.contains '\x00' = false := by simp [o]
  have hrun (bytes : List UInt8) :=
    content_run Folder.world _ _ o bytes rfl rfl hname hpath (Folder.read_ofFile bytes)
  refine ⟨rfl, rfl, hname, hpath, ?_, (hrun _).2.2 fun text h => ?_⟩
  · obtain ⟨-, hstatus, hrefused⟩ := (hrun _).2.1 "import a;" rfl
    exact (hstatus.2 import_convertible).resolve_right (mt hrefused.1 (import_accepted rfl _))
  · cases Text.decode_eq_ok_iff.2 h

end ToyLang
