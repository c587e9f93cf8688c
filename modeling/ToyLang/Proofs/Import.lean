import ToyLang.Parser.File
import ToyLang.Proofs.Grammar.Derivation
import ToyLang.Proofs.Ensures

/-!
# What an import reads

An import reads its tokens one at a time, up to a semicolon or the end mark, and keeps no account of
the one before: the names that stand between two dots are joined to one word of the path, and there
may be any number of them (`pathOf`). So the path is exact for names with dots between them
(`Path.pathOf_tokens`), but other rows lead to it as well. Only tokens that are neither names nor
dots are reported (`importPath_run`).
-/

set_option autoImplicit false

namespace ToyLang

namespace Token

/-- The token ends an import. -/
def EndsImport (t : Token) : Prop := t.kind = .punct .semicolon ∨ t.kind = .eof

/-- The token is a name or a dot. -/
def InPath (t : Token) : Prop := t.kind = .ident ∨ t.kind = .punct .dot

instance (t : Token) : Decidable t.EndsImport := inferInstanceAs (Decidable (_ ∨ _))

instance (t : Token) : Decidable t.InPath := inferInstanceAs (Decidable (_ ∨ _))

end Token

/-- A read behind the last of the tokens takes the end mark. -/
theorem Stream.next_of_close {s : Stream} {mark : Token} (h : s.view.ahead = [])
    (hclose : s.view.close = .ok mark) : ∃ s', s.next = (.ok mark, s') ∧ s'.view.ahead = [] := by
  have hv : s.view.next = (.ok mark, { ahead := [], close := .ok mark }) := by
    rw [View.next, h, hclose]
  refine ⟨s.next.2, Prod.ext (s.next_view.1.trans (congrArg Prod.fst hv)) rfl, ?_⟩
  rw [s.next_view.2, hv]

/-! ## Rows as paths -/

/-- The names of a row in one word. -/
def joinedNames (ts : List Token) : String :=
  String.join ((ts.filter fun t => t.kind = .ident).map fun t => t.value.display)

/-- The path of a row of tokens: slashes stand for its dots, and what stands between two dots is
one word. -/
def pathOf (ts : List Token) : String :=
  "/".intercalate ((ts.splitOnP fun t => t.kind = .punct .dot).map joinedNames)

variable {t : Token} {ts : List Token}

@[simp] theorem pathOf_nil : pathOf [] = "" := rfl

theorem pathOf_dot (ht : t.kind = .punct .dot) : pathOf (t :: ts) = "/" ++ pathOf ts := by
  have hne : (ts.splitOnP fun t => t.kind = .punct .dot).map joinedNames ≠ [] := by
    simp [List.splitOnP_ne_nil]
  have hfirst : joinedNames [] = "" := rfl
  rw [pathOf, List.splitOnP_cons_eq_if_modifyHead, if_pos (decide_eq_true ht), List.map_cons,
    String.intercalate_cons_of_ne_nil hne, hfirst, String.empty_append]
  rfl

/-- A token that is no dot belongs to the first word. -/
theorem pathOf_cons (ht : t.kind ≠ .punct .dot) {w : String}
    (hw : ∀ ts, joinedNames (t :: ts) = w ++ joinedNames ts) :
    pathOf (t :: ts) = w ++ pathOf ts := by
  have hsplit : (ts.splitOnP fun t => t.kind = .punct .dot) ≠ [] := List.splitOnP_ne_nil _ _
  rw [pathOf, pathOf, List.splitOnP_cons_eq_if_modifyHead, if_neg (by simpa using ht)]
  obtain ⟨piece, pieces, h⟩ := List.exists_cons_of_ne_nil hsplit
  rw [h, List.modifyHead_cons, List.map_cons, List.map_cons, hw]
  cases pieces with
  | nil => rw [List.map_nil, String.intercalate_singleton, String.intercalate_singleton]
  | cons piece' pieces =>
    rw [List.map_cons, String.intercalate_cons_cons, String.intercalate_cons_cons]
    simp only [String.append_assoc]

theorem pathOf_name (ht : t.kind = .ident) : pathOf (t :: ts) = t.value.display ++ pathOf ts :=
  pathOf_cons (by simp [ht]) fun ts => by simp [joinedNames, ht]

/-- What is reported adds nothing. -/
theorem pathOf_reported (ht : ¬t.InPath) : pathOf (t :: ts) = pathOf ts := by
  rw [Token.InPath, not_or] at ht
  rw [pathOf_cons ht.2 (w := "") fun ts => by simp [joinedNames, ht.1], String.empty_append]

/-- Names with dots between them are the words of their path. -/
theorem Grammar.Path.pathOf_tokens (p : Path) : pathOf p.tokens = "/".intercalate p.names := by
  induction p with
  | single w =>
    rw [tokens, pathOf_name w.kind_eq, pathOf_nil, names, String.intercalate_singleton,
      String.append_empty]
  | cons w dot p ih =>
    have hne : p.names ≠ [] := by cases p <;> simp [names]
    rw [tokens, pathOf_name w.kind_eq, pathOf_dot dot.kind_eq, ih, names,
      String.intercalate_cons_of_ne_nil hne, String.append_assoc]

theorem Grammar.Path.length_tokens_odd (p : Path) : p.tokens.length % 2 = 1 := by
  induction p with
  | single w => rfl
  | cons w dot p ih =>
    rw [tokens, List.length_cons, List.length_cons]
    omega

theorem Grammar.Path.inPath (p : Path) : ∀ t ∈ p.tokens, t.InPath := by
  induction p with
  | single w => exact List.forall_mem_singleton.2 (.inl w.kind_eq)
  | cons w dot p ih =>
    exact List.forall_mem_cons.2 ⟨.inl w.kind_eq, List.forall_mem_cons.2 ⟨.inr dot.kind_eq, ih⟩⟩

namespace Parser

open Builder

variable {n : Nat} {s : Session}

/-! ## One token -/

/-- A name or a dot is put in front of the path. -/
theorem importLoop_inPath (ht : t.InPath) : ∃ w, (∀ ts, pathOf (t :: ts) = w ++ pathOf ts) ∧
    importLoop (n + 1) t = importPath n >>= fun path => pure (w ++ path) := by
  rcases ht with ht | ht
  · exact ⟨t.value.display, fun ts => pathOf_name ht, importLoop_name n ht⟩
  · exact ⟨"/", fun ts => pathOf_dot ht, importLoop_dot n ht⟩

/-- Any other token is reported. -/
theorem importLoop_reported (hends : ¬t.EndsImport) (ht : ¬t.InPath) :
    importLoop (n + 1) t = report .importToken t (importPath n) := by
  rw [Token.EndsImport, not_or] at hends
  rw [Token.InPath, not_or] at ht
  rw [importLoop]
  split
  · exact absurd ‹_› hends.1
  · exact absurd ‹_› hends.2
  · exact absurd ‹_› ht.1
  · exact absurd ‹_› ht.2
  · rfl

/-! ## Runs -/

/-- What the row `ts` of an import leaves behind: every token in it that is neither a name nor a dot
is reported, the tokens `rest` are to come, and nothing else has changed. -/
structure ReadsImport (s s' : Session) (ts rest : List Token) : Prop where
  reports : s'.diagnostics.items.toList = s.diagnostics.items.toList ++
    (ts.filter fun t => ¬t.InPath).map Problem.importToken.seenAt
  ahead : s'.stream.view.ahead = rest
  consts : s'.consts = s.consts

variable {s' : Session} {stream : Stream} {rest : List Token}

theorem ReadsImport.cons_inPath (ht : t.InPath) (h : ReadsImport { s with stream } s' ts rest) :
    ReadsImport s s' (t :: ts) rest where
  reports := by rw [h.reports, List.filter_cons_of_neg (by simpa using ht)]
  ahead := h.ahead
  consts := h.consts

theorem ReadsImport.cons_reported (ht : ¬t.InPath)
    (h : ReadsImport
      { s with stream, diagnostics := s.diagnostics.record (Problem.importToken.seenAt t) }
      s' ts rest) :
    ReadsImport s s' (t :: ts) rest where
  reports := by
    rw [h.reports, List.filter_cons_of_pos (by simpa using ht)]
    simp [Diagnostics.record]
  ahead := h.ahead
  consts := h.consts

/-- The tokens up to the end of an import. -/
def importRow (ts : List Token) : List Token := ts.takeWhile fun t => ¬t.EndsImport

/-- An import is read up to its end, if the stream does not break off in front of that. -/
theorem importPath_reads {ahead : List Token} (hahead : s.stream.view.ahead = ahead)
    (hs : s.diagnostics.failFast = false) (hn : (ahead.countP fun t => t.kind ≠ .eof) < n)
    (hend : (∀ t ∈ ahead, ¬t.EndsImport) →
      ∃ mark, s.stream.view.close = .ok mark ∧ mark.kind = .eof) :
    ∃ s', (importPath n).run s = (.ok (pathOf (importRow ahead)), s') ∧
      ReadsImport s s' (importRow ahead) (ahead.drop ((importRow ahead).length + 1)) := by
  induction ahead generalizing n s with
  | nil =>
    obtain ⟨n, rfl⟩ : ∃ k, n = k + 1 := ⟨n - 1, by omega⟩
    obtain ⟨mark, hclose, hmark⟩ := hend fun _ h => absurd h List.not_mem_nil
    obtain ⟨stream, hnext, hview⟩ := Stream.next_of_close hahead hclose
    refine ⟨{ s with stream }, ?_, by simp [importRow], hview, rfl⟩
    have hrun := run_next (s := s) (importLoop (n + 1)) hnext
    rw [importLoop_end n (.inr hmark)] at hrun
    exact hrun
  | cons t ts ih =>
    obtain ⟨stream, hnext, hview⟩ := Stream.next_of_ahead hahead
    have hrun (n : Nat) : (importPath (n + 1)).run s =
        (importLoop (n + 1) t).run { s with stream } := run_next (importLoop (n + 1)) hnext
    by_cases hends : t.EndsImport
    · obtain ⟨n, rfl⟩ : ∃ k, n = k + 1 := ⟨n - 1, by omega⟩
      have hrow : importRow (t :: ts) = [] := List.takeWhile_cons_of_neg (by simpa using hends)
      rw [hrun, importLoop_end n hends, hrow]
      exact ⟨{ s with stream }, rfl, by simp, congrArg View.ahead hview, rfl⟩
    have hrow : importRow (t :: ts) = t :: importRow ts :=
      List.takeWhile_cons_of_pos (by simpa using hends)
    have hend' (h : ∀ u ∈ ts, ¬u.EndsImport) :
        ∃ mark, stream.view.close = .ok mark ∧ mark.kind = .eof := by
      rw [hview]
      exact hend (List.forall_mem_cons.2 ⟨hends, h⟩)
    have ahead_eq : stream.view.ahead = ts := congrArg View.ahead hview
    rw [List.countP_cons_of_pos (by simpa using fun h => hends (.inr h))] at hn
    obtain ⟨n, rfl⟩ : ∃ k, n = k + 1 := ⟨n - 1, by omega⟩
    rw [hrun, hrow]
    by_cases ht : t.InPath
    · obtain ⟨w, hw, hloop⟩ := importLoop_inPath (n := n) ht
      obtain ⟨s', hpath, hreads⟩ :=
        ih (n := n) (s := { s with stream }) ahead_eq hs (by omega) hend'
      rw [hloop, run_bind, hpath, hw]
      exact ⟨s', rfl, .cons_inPath ht hreads⟩
    · obtain ⟨s', hpath, hreads⟩ := ih (n := n)
        (s := { s with stream, diagnostics := s.diagnostics.record (Problem.importToken.seenAt t) })
        ahead_eq hs (by omega) hend'
      rw [importLoop_reported hends ht, pathOf_reported ht]
      have hreport := run_report (s := { s with stream }) .importToken t (importPath n) hs
      exact ⟨s', hreport.trans hpath, .cons_reported ht hreads⟩

/-- **What an import reads.** If the stream does not break off in front of its semicolon, an import
reads the tokens up to that, or up to the end mark, and the path is theirs (`pathOf`): the names in
it are joined, and there is a slash for every dot. Every token that is neither a name nor a dot is
reported, and nothing else is: names and dots in any order are accepted, and so is the end mark.
Names with dots between them are accepted with just these names between slashes. -/
theorem importPath_run (hs : s.diagnostics.failFast = false) (hn : s.stream.view.left < n)
    (hend : (∀ t ∈ s.stream.view.ahead, ¬t.EndsImport) →
      ∃ mark, s.stream.view.close = .ok mark ∧ mark.kind = .eof) :
    let row := importRow s.stream.view.ahead
    ∃ s', (importPath n).run s = (.ok (pathOf row), s') ∧
      ReadsImport s s' row (s.stream.view.ahead.drop (row.length + 1)) ∧
      (s'.diagnostics.items = s.diagnostics.items ↔ ∀ t ∈ row, t.InPath) ∧
      ∀ p : Grammar.Path, row = p.tokens →
        s'.diagnostics.items = s.diagnostics.items ∧ pathOf row = "/".intercalate p.names := by
  intro row
  obtain ⟨s', hrun, hreads⟩ := importPath_reads rfl hs hn hend
  have hquiet : s'.diagnostics.items = s.diagnostics.items ↔ ∀ t ∈ row, t.InPath := by
    rw [← Array.toList_inj, hreads.reports, List.append_right_eq_self, List.map_eq_nil_iff,
      List.filter_eq_nil_iff]
    simp [row]
  refine ⟨s', hrun, hreads, hquiet, fun p hp => ?_⟩
  exact ⟨hquiet.2 (hp ▸ p.inPath), hp ▸ p.pathOf_tokens⟩

/-- `std.io;` -/
theorem dottedImport_run :
    let s := Session.over (.ofText "std.io;") false
    let row := importRow s.stream.view.ahead
    pathOf row = "std/io" ∧ ∃ s', (importPath 8).run s = (.ok (pathOf row), s') ∧
      ReadsImport s s' row (s.stream.view.ahead.drop (row.length + 1)) ∧
      (s'.diagnostics.items = s.diagnostics.items ↔ ∀ t ∈ row, t.InPath) ∧
      ∀ p : Grammar.Path, row = p.tokens →
        s'.diagnostics.items = s.diagnostics.items ∧ pathOf row = "/".intercalate p.names :=
  ⟨by decide +kernel, importPath_run rfl (by decide +kernel) fun h => absurd h (by decide +kernel)⟩

/-- Two names side by side, and an import without its semicolon, are accepted. -/
theorem looseImports_accepted :
    let run (source : String) := (Session.over (.ofText source) false).build importPath
    (run "a b;").1 = .ok "ab" ∧ (run "a b;").2.diagnostics.items = #[] ∧
      (run "a").1 = .ok "a" ∧ (run "a").2.diagnostics.items = #[] ∧
      ∀ (p : Grammar.Path) (semicolon : Grammar.Mark .semicolon),
        (Stream.ofText "a b;").view.ahead ≠ p.tokens ++ [semicolon.toToken] ∧
          (Stream.ofText "a").view.ahead ≠ p.tokens ++ [semicolon.toToken] := by
  refine ⟨rfl, rfl, rfl, rfl, fun p semicolon => ?_⟩
  -- a path with its semicolon has an even number of tokens
  have hodd := p.length_tokens_odd
  have hlength : (p.tokens ++ [semicolon.toToken]).length = p.tokens.length + 1 := by simp
  constructor <;> intro h <;> rw [← h] at hlength
  · have : (Stream.ofText "a b;").view.ahead.length = 3 := by decide +kernel
    omega
  · have : (Stream.ofText "a").view.ahead.length = 1 := by decide +kernel
    omega

end Parser

end ToyLang
