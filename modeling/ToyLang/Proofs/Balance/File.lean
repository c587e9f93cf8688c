import ToyLang.Proofs.Balance.Statement
import ToyLang.Proofs.Progress.File

/-!
# A file weighs as much as its tokens

No weight is left over behind a file (`carries_file`), and a run that reports nothing takes
from the stream what its file weighs.

* `weighs_file`: the tokens of a stream and the file that is built from them weigh the same.
-/

set_option autoImplicit false

namespace ToyLang

namespace Parser

open Builder

variable {w : Weighing} {declaring : Prop} {i n : Nat} {t : Token}

theorem carries_fileLoop :
    Carries w declaring (i + w.token t) (fun _ => True) (fun f => i + w.file f)
      (fileLoop n t) := by
  induction n generalizing t i with
  | zero => exact carries_fault _
  | succ n ih =>
    rw [fileLoop]
    split
    · next hk =>
      rw [Weighing.token_of_kind hk (by simp)]
      exact carries_pure trivial (by simp [Weighing.kind, Weighing.file])
    · next hk =>
      rw [Weighing.token_of_kind hk (by simp)]
      refine carries_function.bind fun f _ => carries_read.bind fun u _ => ih.bind fun file _ => ?_
      refine carries_pure trivial ?_
      simp only [Weighing.file, List.map_cons, List.sum_cons]
      omega
    · next hk =>
      rw [Weighing.token_of_kind hk (by simp)]
      refine carries_structDef.bind fun s _ => carries_read.bind fun u _ => ih.bind fun file _ => ?_
      refine carries_pure trivial ?_
      simp only [Weighing.file, List.map_cons, List.sum_cons]
      omega
    · next hk =>
      rw [Weighing.token_of_kind hk (by simp)]
      refine carries_constant.bind fun c _ => carries_read.bind fun u _ => ih.bind fun file _ => ?_
      refine carries_pure trivial ?_
      simp only [Weighing.file, Weighing.constants_cons]
      omega
    · next hk =>
      rw [Weighing.token_of_kind hk (by simp)]
      refine carries_importPath.bind fun path _ => ?_
      refine carries_read.bind fun u _ => ih.bind fun file _ => carries_pure trivial ?_
      simp only [Weighing.kind, Weighing.file, List.length_cons, Nat.succ_mul]
      omega
    · exact carries_report _ _ _

/-- **A file** weighs as much as its tokens. -/
theorem carries_file (name : String) :
    Carries w declaring 0 (fun _ => True) w.file (file name n) := by
  unfold file
  refine carries_read.bind fun t _ => carries_fileLoop.bind fun f _ => carries_pure trivial ?_
  exact Nat.zero_add _

end Parser

/-- **What a fresh stream delivers weighs as much as the file that is built from it**, if nothing is
reported. -/
theorem weighs_file (w : Weighing) {stream : Stream} (hfree : stream.held = none)
    (hfresh : stream.ended = none) {name : String} {f : File} {s : Session}
    (hbuild : (Session.over stream false).build (Parser.file name) = (.ok f, s))
    (hquiet : s.diagnostics.items = #[]) : w.tokens stream.view.ahead = w.file f := by
  have hview := Stream.view_within hfree hfresh
  have hended : s.stream.view.ahead = [] := by
    obtain ⟨f', s', hrun, ⟨e, -, hnext⟩, -⟩ | ⟨e, s', hrun, -⟩ :=
      Builder.run_of_ensures (s := .over stream false) rfl
        (Parser.file_ensures hview (Nat.lt_succ_self _) name)
    · cases hbuild.symm.trans hrun
      obtain hcons | ⟨hnil, -⟩ := View.ahead_of_next hnext
      · exact absurd (congrArg List.length hcons) (by simp)
      · exact hnil
    · cases hbuild.symm.trans hrun
  obtain ⟨m, ⟨-, rfl⟩, hsum⟩ := Builder.weighs_run (w := w) (Parser.carries_file name)
    (s := .over stream false) rfl hview.sane.mark hbuild hquiet
  rw [hended, Nat.zero_add] at hsum
  exact hsum

end ToyLang
