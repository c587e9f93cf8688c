import ToyLang.Proofs.Accepted.Statement

/-!
# Files built without a report are regular

Functions and files, and with them every text (`File.regular_of_parse`): what is parsed without a
report is a regular file.
-/

set_option autoImplicit false

namespace ToyLang

open Builder

namespace Parser

variable {t : Token} {n : Nat}

/-! ## Functions -/

theorem only_returnType (ht : t.Lexed) : (returnType t).Only fun r => r.2.Lexed := by
  unfold returnType
  split
  · exact ht
  · exact only_dataType.bind fun d _ => only_read.bind fun u hu => hu

theorem only_optionalParams (ht : t.Lexed) :
    (optionalParams n t).Only fun r => (∀ a ∈ r.1, a.IsParam) ∧ r.2.Lexed := by
  unfold optionalParams
  split
  · exact ⟨fun _ ha => absurd ha List.not_mem_nil, ht⟩
  · exact only_params.bind fun args hargs => only_read.bind fun u hu => ⟨hargs, hu⟩

theorem only_function : (function n).Only (Function.Regular False) := by
  refine (only_nameOr _ _).bind fun r hr => ?_
  refine (only_optionalParams hr.2).bind fun r' hr' => ?_
  refine (only_returnType hr'.2).bind fun r'' _ => (only_expect _ _ _).bind fun _ _ => ?_
  refine (only_block n false).collected.bind fun b hb => ?_
  obtain ⟨⟨ss, hss, hregular⟩, hconsts⟩ := hb
  exact ⟨hr.1, hr'.1, hconsts, ss, ⟨0, 0⟩, hss, hregular⟩

/-! ## Files -/

theorem only_fileLoop (ht : t.Lexed) : (fileLoop n t).Only (File.Regular False) := by
  induction n generalizing t with
  | zero => trivial
  | succ n ih =>
    rw [fileLoop]
    split
    · exact ⟨fun _ h => absurd h List.not_mem_nil, fun _ h => absurd h List.not_mem_nil,
        fun _ h => absurd h List.not_mem_nil, fun _ h => absurd h List.not_mem_nil⟩
    · refine only_function.bind fun g hg => only_read.bind fun u hu => (ih hu).bind fun f hf => ?_
      exact { hf with functions := List.forall_mem_cons.2 ⟨hg, hf.functions⟩ }
    · refine only_structDef.bind fun s hs => only_read.bind fun u hu => (ih hu).bind fun f hf => ?_
      exact { hf with structs := List.forall_mem_cons.2 ⟨hs, hf.structs⟩ }
    · refine only_constant.bind fun c hc => only_read.bind fun u hu => (ih hu).bind fun f hf => ?_
      exact { hf with consts := List.forall_mem_cons.2 ⟨hc, hf.consts⟩ }
    · refine only_importPath.bind fun p hp => only_read.bind fun u hu => (ih hu).bind fun f hf => ?_
      exact { hf with imports := List.forall_mem_cons.2 ⟨hp, hf.imports⟩ }
    · trivial

theorem only_file (name : String) (n : Nat) : (file name n).Only (File.Regular False) := by
  refine only_read.bind fun t ht => (only_fileLoop ht).bind fun f hf => ?_
  exact { hf with }

end Parser

/-! ## Texts -/

theorem Stream.lexed_ofText (source : String) :
    (Stream.ofText source).view.Delivers Token.Lexed := by
  refine View.delivers_upToMark (Cursor.lexed_tokens _) fun t ht => ?_
  cases hc : (Cursor.ofText source).tokens.2 with
  | none =>
    rw [hc] at ht
    cases ht
    exact lexed_endMark _
  | some e =>
    rw [hc] at ht
    cases ht

/-- **What a text is parsed as without a report is regular.** -/
theorem File.regular_of_parse {source name : String} {f : File} {s : Session}
    (h : parse source name = (.ok f, s)) (hquiet : s.diagnostics.items = #[]) :
    f.Regular False :=
  only_run (Parser.only_file name _) rfl (Stream.lexed_ofText source) h hquiet

end ToyLang
