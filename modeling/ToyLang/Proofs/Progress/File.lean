import ToyLang.Parser.File
import ToyLang.Proofs.Progress.Ends

/-!
# Files come to an end

A file is built from any tokens whatever: `Parser.file` never faults and never puts a token back
over another one, and behind it the stream has nothing left but its end mark (`file_ensures`). The
main statements turn this into runs.

* `parse_ends`: with reports collected, a file is built, or the text breaks off.
* `file_total_and_loops_progress`: from a list of tokens a file is always built, the end mark is all
  that follows, and each round of each loop leaves strictly fewer tokens, or ends the loop.
-/

set_option autoImplicit false

namespace ToyLang

namespace Parser

open Builder

variable {v : View} {m n : Nat} {t : Token}

/-! ## Functions -/

theorem returnType_ensures (h : v.Taken t m) : (returnType t).Ensures (EndsAt m) v := by
  unfold returnType
  split
  · exact h
  · refine (dataType_ensures h.behind).bind fun dataType v' hv => ?_
    exact (ensures_take hv).bind fun _ _ ht => ht

theorem optionalParams_ensures (h : v.Taken t m) (hm : m < n) :
    (optionalParams n t).Ensures (EndsAt m) v := by
  unfold optionalParams
  split
  · exact h
  · refine (params_ensures h.behind hm).bind fun args v' hv => ?_
    exact (ensures_take hv).bind fun _ _ ht => ht

theorem function_ensures (h : v.Within m) (hm : m < n) :
    (function n).Ensures (Leaves m) v := by
  unfold function
  refine (nameOr_ensures _ _ h).bind fun r v' ht => ?_
  refine (optionalParams_ensures ht hm).bind fun r v' ht => ?_
  refine (returnType_ensures ht).bind fun r v' ht => ?_
  refine (expect_ensures _ _ ht).bind fun _ v' hv => ?_
  have hb := (block_ensures n false v' m hv hm).mono (R := fun r v => ∀ _ : List TypedName,
    EndsAt m r v) fun r v' hr _ => hr.1
  exact (ensures_collected (Q := fun r => EndsAt m r.1) hb).bind fun r v' hr => hr.behind

/-! ## Files -/

/-- The stream behind a file has nothing left but its end mark. -/
def AtEnd (_ : Nat) (_ : File) (v : View) : Prop :=
  ∃ e, v.close = .ok e ∧ v.next = (.ok e, v)

/-- One round of `fileLoop`. -/
def fileRound (n : Nat) (_ : Unit) (t : Token) : Builder (Round Unit File) := do
  match t.kind with
  | .eof => return .last {}
  | .keyword .func_ => do
    let f ← function n
    return .again (← read) () fun file => { file with functions := f :: file.functions }
  | .keyword .struct_ => do
    let s ← structDef n
    return .again (← read) () fun file => { file with structs := s :: file.structs }
  | .keyword .const_ => do
    let c ← constant n
    return .again (← read) () fun file => { file with consts := c :: file.consts }
  | .keyword .import_ => do
    let path ← importPath n
    return .again (← read) () fun file => { file with imports := path :: file.imports }
  | _ => do
    note .unknownDeclaration t
    return .again (← read) () id

theorem fileLoop_repeats : Repeats (fun n _ => fileLoop n) fileRound := by
  intro n st t
  show fileLoop (n + 1) t = _
  rw [fileLoop]
  unfold fileRound
  split <;> simp_all [Round.goOn]

theorem fileRound_ensures (n : Nat) : RoundEnsures (fileRound n) (fun _ _ => True) AtEnd n := by
  intro st t m v _ h hm
  unfold fileRound
  split
  · next ht => exact ⟨t, (h.within.sane.last t List.mem_cons_self ht).2, h.next_mark ht⟩
  all_goals obtain ⟨k, rfl, hk⟩ := h.shorter (by simp_all)
  · refine (function_ensures hk hm).bind fun _ _ hv => ?_
    exact Round.steps_again (fun _ => trivial) hv rfl fun _ _ he => he
  · refine (structDef_ensures hk hm).bind fun _ _ hv => ?_
    exact Round.steps_again (fun _ => trivial) hv rfl fun _ _ he => he
  · refine (constant_ensures hk hm).bind fun _ _ hv => ?_
    exact Round.steps_again (fun _ => trivial) hv rfl fun _ _ he => he
  · refine (importPath_ensures hk hm).bind fun _ _ hv => ?_
    exact Round.steps_again (fun _ => trivial) hv rfl fun _ _ he => he
  · exact Round.steps_again (fun _ => trivial) hk rfl fun _ _ he => he

theorem fileRound_stops : RoundStops (fileRound n) (fun _ _ => True) fun _ => (· ∈ [.eof]) := by
  intro st t _
  unfold fileRound
  split
  · next ht => exact show t.kind ∈ _ by simp [ht]
  all_goals
    refine stopsAt_behind (fun _ _ => ?_) _ _
    exact fun _ => trivial

theorem file_ensures (h : v.Within m) (hm : m < n) (name : String) :
    (file name n).Ensures (AtEnd m) v := by
  unfold file
  refine (ensures_take h).bind fun t v' ht => ?_
  refine Ensures.bind (Q := AtEnd m) ?_ fun _ _ he => he
  exact fileLoop_repeats.ensures (fun n _ => fileRound_ensures n) n () t m v' trivial ht hm

end Parser

/-! ## Runs -/

/-- A text is built into a file, or it breaks off; reports are collected. -/
theorem parse_ends (source name : String) :
    (∃ f, (parse source name).1 = .ok f) ∨ ∃ e, (parse source name).1 = .error (.lexical e) := by
  have hv := Stream.view_within (s := .ofText source) rfl rfl
  rcases Builder.run_of_ensures (s := .over (.ofText source) false) rfl
    (Parser.file_ensures hv (Nat.lt_succ_self _) name) with ⟨f, s', hr, _⟩ | ⟨e, s', hr, _⟩
  · exact .inl ⟨f, congrArg Prod.fst hr⟩
  · exact .inr ⟨e, congrArg Prod.fst hr⟩

/-- The end mark of a list of tokens: the first one in it, or the one at no position. -/
def endMarkOf (ts : List Token) : Token :=
  (ts.find? fun t => t.kind = .eof).getD (.endMark ⟨0, 0⟩)

theorem close_view_ofList (ts : List Token) :
    (Stream.ofList ts).view.close = .ok (endMarkOf ts) := by
  show (View.upToMark _ ts).close = _
  rw [View.close_upToMark, endMarkOf]
  cases ts.find? fun t => t.kind = .eof <;> rfl

/-- A file is built from any list of tokens, and only the end mark is left. -/
theorem build_file_ofList (ts : List Token) (name : String) :
    ∃ f s', (Session.over (.ofList ts) false).build (Parser.file name) = (.ok f, s') ∧
      ∀ k, (s'.stream.behind k).next.1 = .ok (endMarkOf ts) := by
  have hv := Stream.view_within (s := .ofList ts) rfl rfl
  have hf := (Parser.file_ensures hv (Nat.lt_succ_self _) name).close
  rcases Builder.run_of_ensures (s := .over (.ofList ts) false) rfl hf with
    ⟨f, s', hr, ⟨⟨e, hc, hn⟩, hclose⟩, _⟩ | ⟨e, s', _, hx⟩
  · refine ⟨f, s', hr, fun k => ?_⟩
    rw [hc, close_view_ofList] at hclose
    cases hclose
    exact Stream.next_behind hn k
  · rw [show (Session.over (.ofList ts) false).stream = .ofList ts from rfl,
      close_view_ofList] at hx
    cases hx

open ToyLang.Parser in
/-- **Building a file is total and exhausts its tokens**: from any list of tokens, of whatever
kinds, values and positions, a file is built, and behind it every further read gives the end mark.
Each loop of the parser makes progress: a round takes away tokens for good, or it is the last one
and leaves the loop at a token of a kind that ends it. Every loop ends at the end mark, and that of
the declarations only there. Parameters end also at `)`, or at `is` where they are given up, fields
at `end`, import paths at `;`, a statement that is skipped at `;` or `end`, and an expression at the
token it is told to stop at. Statements end at `end`, and in a chain at the next clause. A chain of
clauses ends at any token that begins none, and as it goes on from the one that ended the statements
of a clause, that is `end` or the end mark. -/
theorem file_total_and_loops_progress (ts : List Token) (name : String) :
    (∃ f s', (Session.over (.ofList ts) false).build (Parser.file name) = (.ok f, s') ∧
      ∀ k, (s'.stream.behind k).next.1 = .ok (endMarkOf ts)) ∧
    Progresses (fun n _ => fileLoop n) fileRound (fun _ _ => True) (fun _ => (· ∈ [.eof])) ∧
    Progresses (fun n _ => paramsLoop n) paramsRound (fun _ _ => True)
      (fun _ => (· ∈ paramsEnds)) ∧
    Progresses (fun n _ => skipParams n) skipParamsRound (fun _ _ => True)
      (fun _ => (· ∈ paramsEnds)) ∧
    Progresses (fun n _ => structItems n) structItemsRound (fun _ _ => True)
      (fun _ => (· ∈ [.keyword .end_, .eof])) ∧
    Progresses (fun n _ => importLoop n) importRound (fun _ _ => True)
      (fun _ => (· ∈ [.punct .semicolon, .eof])) ∧
    Progresses blockLoop blockRound (fun _ _ => True) (fun chained => (· ∈ rowEnds chained)) ∧
    Progresses clauses clausesRound (fun _ _ => True)
      (fun _ => (· ∉ [.keyword .elif_, .keyword .else_])) ∧
    Progresses clauses clausesRound (fun _ t => t.kind ∈ rowEnds true)
      (fun _ => (· ∈ rowEnds false)) ∧
    Progresses (fun n _ => skipStatement n) skipStatementRound (fun _ _ => True)
      (fun _ => (· ∈ [.punct .semicolon, .keyword .end_, .eof])) ∧
    Progresses expressionFrom expressionRound (fun st _ => st.2.2.Operated)
      (fun st => (· ∈ [st.1, .eof])) := by
  have hl := block_and_clauses_ensure
  have hrow (n : Nat) : RoundEnsures (clausesRound n) (fun _ t => t.kind ∈ rowEnds true) Leaves n :=
    fun closed _ _ _ _ h hm => clausesRound_steps (hl n).1 h hm closed
  exact ⟨build_file_ofList ts name,
    fileLoop_repeats.progresses fileRound_ensures fun _ => fileRound_stops,
    paramsLoop_repeats.progresses paramsRound_ensures fun _ => paramsRound_stops,
    skipParams_repeats.progresses skipParamsRound_ensures fun _ => skipParamsRound_stops,
    structItems_repeats.progresses structItemsRound_ensures fun _ => structItemsRound_stops,
    importLoop_repeats.progresses importRound_ensures fun _ => importRound_stops,
    blockLoop_repeats.progresses (fun n => blockRound_ensures (hl n).1 (hl n).2)
      fun _ => blockRound_stops,
    clauses_repeats.progresses (fun n => clausesRound_ensures (hl n).1)
      fun _ => clausesRound_stops_at_no_clause,
    clauses_repeats.progresses hrow fun _ => clausesRound_stops_at_row_end,
    skipStatement_repeats.progresses skipStatementRound_ensures fun _ => skipStatementRound_stops,
    expressionFrom_repeats.progresses (fun n => expressionRound_ensures (nested_expression n))
      fun _ => expressionRound_stops⟩

end ToyLang
