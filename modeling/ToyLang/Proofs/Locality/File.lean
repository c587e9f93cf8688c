import ToyLang.Proofs.Accept.Declaration
import ToyLang.Proofs.Locality.Statement
import ToyLang.Proofs.PutBack.Builders
import ToyLang.Proofs.View.Run

/-!
# Declarations compose

A declaration that is accepted does not look past its last token: structures, constants and
functions report the end mark (`local_of_heeds`). An import accepts it, but only behind words and
dots (`importPath_local`). So a row of tokens that is accepted as declarations and ends in a
semicolon or an `end` is accepted in front of any tokens, and the parser then goes on with these as
if it began there (`run_fileLoop_append`): `declarations_compose`.
-/

set_option autoImplicit false

namespace ToyLang

/-- The declarations of one file in front of those of another. -/
def File.append (f g : File) : File :=
  { g with
    functions := f.functions ++ g.functions
    structs := f.structs ++ g.structs
    consts := f.consts ++ g.consts
    imports := f.imports ++ g.imports }

/-- The token ends a declaration. -/
def Token.Closes (t : Token) : Prop := t.kind = .keyword .end_ ∨ t.kind = .punct .semicolon

namespace Parser

open Builder

variable {n m : Nat} {t mark : Token} {ts : List Token} {cs : List TypedName}
  {st : List Token × List TypedName}

/-! ## One declaration -/

section
variable {α β : Type} {b : Builder α} {a : α} {rest : List Token}

theorem Local.map (h : b.Local ts a rest) (f : α → β) :
    (b >>= fun a => pure (f a)).Local ts (f a) rest := by
  intro mark us cs
  obtain ⟨cs', hacc⟩ := h mark us cs
  exact ⟨cs', by rw [accept_bind_pure, hacc]; rfl⟩

/-- A builder that reports the end mark accepts without looking past its last token. -/
theorem local_of_heeds (hmark : mark.kind = .eof) (h : b.Heeds Short False)
    (hcareful : b.Careful Whatever none) (hts : ∀ u ∈ ts, u.kind ≠ .eof)
    (hacc : b.accept mark (ts, cs) = some (a, st)) : st.1 <:+ ts ∧ b.Local ts a st.1 := by
  obtain hmet | ⟨-, hlocal⟩ :=
    h.accept hmark hcareful hts List.suffix_rfl (fun u hu => by cases hu) hacc
  · exact absurd trivial hmet
  · exact hlocal

end

/-- A word or a dot in front of a path that is local. -/
theorem importPath_local_cons {put : String → String}
    (hput : ∀ mark ts cs, (importPath (n + 1)).accept mark (t :: ts, cs) =
      ((importPath n).accept mark (ts, cs)).map fun r => (put r.1, r.2))
    (ih : ∀ {path st}, (importPath n).accept mark (ts, cs) = some (path, st) →
      (∀ u ∈ ts, ¬u.Closes) ∨ st.1 <:+ ts ∧ (importPath n).Local ts path st.1)
    (ht : ¬t.Closes) {path : String}
    (hacc : (importPath (n + 1)).accept mark (t :: ts, cs) = some (path, st)) :
    (∀ u ∈ t :: ts, ¬u.Closes) ∨
      st.1 <:+ t :: ts ∧ (importPath (n + 1)).Local (t :: ts) path st.1 := by
  rw [hput] at hacc
  obtain ⟨⟨path', st'⟩, hpath, heq⟩ := Option.map_eq_some_iff.1 hacc
  cases heq
  obtain hopen | ⟨hsuffix, hlocal⟩ := ih hpath
  · exact .inl (List.forall_mem_cons.2 ⟨ht, hopen⟩)
  · refine .inr ⟨hsuffix.trans (List.suffix_cons t ts), fun mark us cs => ?_⟩
    obtain ⟨cs', hpath⟩ := hlocal mark us cs
    exact ⟨cs', by rw [List.cons_append, hput, hpath]; rfl⟩

/-- An import that is accepted ends at its semicolon, or consists of words and dots up to the end of
the row. -/
theorem importPath_local (hts : ∀ u ∈ ts, u.kind ≠ .eof) {path : String}
    (hacc : (importPath n).accept mark (ts, cs) = some (path, st)) :
    (∀ u ∈ ts, ¬u.Closes) ∨ st.1 <:+ ts ∧ (importPath n).Local ts path st.1 := by
  induction ts generalizing n path st with
  | nil => exact .inl fun _ hu => absurd hu List.not_mem_nil
  | cons t ts ih =>
    obtain ⟨ht, hts⟩ := List.forall_mem_cons.1 hts
    cases n with
    | zero => cases hacc
    | succ n =>
      by_cases hword : t.kind = .ident
      · exact importPath_local_cons (fun _ _ _ => accept_importLoop_word hword)
          (fun hacc => ih hts hacc) (by simp [Token.Closes, hword]) hacc
      by_cases hdot : t.kind = .punct .dot
      · exact importPath_local_cons (fun _ _ _ => accept_importLoop_dot hdot)
          (fun hacc => ih hts hacc) (by simp [Token.Closes, hdot]) hacc
      by_cases hend : t.kind = .punct .semicolon
      · have hread (mark : Token) (ts : List Token) (cs : List TypedName) :
            (importPath (n + 1)).accept mark (t :: ts, cs) = some ("", ts, cs) :=
          accept_importLoop_end hend
        rw [hread] at hacc
        cases hacc
        exact .inr ⟨List.suffix_cons t ts, fun mark us cs => ⟨cs, hread mark (ts ++ us) cs⟩⟩
      · -- the end mark is not in the row, and anything else is reported
        rw [importPath, accept_read_bind, importLoop] at hacc
        split at hacc
        all_goals contradiction

/-- A declaration that starts with the token `t`, as what it adds to a file. -/
def declaration (n : Nat) (t : Token) : Builder (File → File) := do
  match t.kind with
  | .keyword .func_ => do
    let f ← function n
    return fun file => { file with functions := f :: file.functions }
  | .keyword .struct_ => do
    let s ← structDef n
    return fun file => { file with structs := s :: file.structs }
  | .keyword .const_ => do
    let c ← constant n
    return fun file => { file with consts := c :: file.consts }
  | .keyword .import_ => do
    let path ← importPath n
    return fun file => { file with imports := path :: file.imports }
  | _ => do
    note .unknownDeclaration t
    return id

/-- A file is a declaration and the file behind it. -/
theorem fileLoop_succ (ht : t.kind ≠ .eof) :
    fileLoop (n + 1) t =
      declaration n t >>= fun add => (read >>= fileLoop n) >>= fun file => pure (add file) := by
  rw [fileLoop]
  unfold declaration
  split <;> simp_all

theorem declaration_ensures {v : View} (h : v.Within m) (hm : m < n) (t : Token) :
    (declaration n t).Ensures (Leaves m) v := by
  unfold declaration
  split
  · exact (function_ensures h hm).bind fun _ _ hv => hv
  · exact (structDef_ensures h hm).bind fun _ _ hv => hv
  · exact (constant_ensures h hm).bind fun _ _ hv => hv
  · exact (importPath_ensures h hm).bind fun _ _ hv => hv
  · exact h

/-- What is put in front of a file is put in front of all its declarations. -/
def PutsFirst (add : File → File) : Prop := ∀ f g : File, add (f.append g) = (add f).append g

/-- A declaration behind its keyword is local if what reads it is. -/
theorem declaration_local_of {α : Type} (b : Builder α) (put : α → File → File)
    (heq : declaration n t = b >>= fun a => pure (put a)) (hput : ∀ a, PutsFirst (put a))
    (hlocal : ∀ a st, b.accept mark (ts, cs) = some (a, st) → st.1 <:+ ts ∧ b.Local ts a st.1)
    {add : File → File} (hacc : (declaration n t).accept mark (ts, cs) = some (add, st)) :
    PutsFirst add ∧ st.1 <:+ ts ∧ (declaration n t).Local ts add st.1 := by
  rw [heq] at hacc ⊢
  rw [accept_bind_pure] at hacc
  obtain ⟨⟨a, st'⟩, ha, heq⟩ := Option.map_eq_some_iff.1 hacc
  cases heq
  obtain ⟨hsuffix, hlocal⟩ := hlocal a st' ha
  exact ⟨hput a, hsuffix, Local.map hlocal put⟩

/-- **A declaration that is accepted is local** if the row it stands in is closed. -/
theorem declaration_local (hmark : mark.kind = .eof) (hts : ∀ u ∈ ts, u.kind ≠ .eof)
    (hclosed : ∀ u ∈ (t :: ts).getLast?, u.Closes) {add : File → File}
    (hacc : (declaration n t).accept mark (ts, cs) = some (add, st)) :
    PutsFirst add ∧ st.1 <:+ ts ∧ (declaration n t).Local ts add st.1 := by
  by_cases hfunc : t.kind = .keyword .func_
  · refine declaration_local_of (function n)
      (fun f file => { file with functions := f :: file.functions })
      (by simp only [declaration, hfunc]) (fun _ _ _ => rfl) (fun f st hf => ?_) hacc
    exact local_of_heeds hmark heeds_function careful_function hts hf
  by_cases hstruct : t.kind = .keyword .struct_
  · refine declaration_local_of (structDef n)
      (fun s file => { file with structs := s :: file.structs })
      (by simp only [declaration, hstruct]) (fun _ _ _ => rfl) (fun s st hs => ?_) hacc
    exact local_of_heeds hmark heeds_structDef careful_structDef hts hs
  by_cases hconst : t.kind = .keyword .const_
  · refine declaration_local_of (constant n)
      (fun c file => { file with consts := c :: file.consts })
      (by simp only [declaration, hconst]) (fun _ _ _ => rfl) (fun c st hc => ?_) hacc
    exact local_of_heeds hmark heeds_constant careful_constant hts hc
  by_cases himport : t.kind = .keyword .import_
  · refine declaration_local_of (importPath n)
      (fun path file => { file with imports := path :: file.imports })
      (by simp only [declaration, himport]) (fun _ _ _ => rfl) (fun path st hpath => ?_) hacc
    refine (importPath_local hts hpath).resolve_left fun hopen => ?_
    -- the last token of the row closes a declaration, which no token of the path does
    have hall : ∀ u ∈ t :: ts, ¬u.Closes :=
      List.forall_mem_cons.2 ⟨by simp [Token.Closes, himport], hopen⟩
    have hlast := List.getLast?_eq_some_getLast (List.cons_ne_nil t ts)
    exact hall _ (List.getLast_mem _) (hclosed _ hlast)
  · -- nothing else starts a declaration
    unfold declaration at hacc
    split at hacc
    all_goals contradiction

/-! ## Rows of declarations -/

/-- **What is accepted as declarations is read in front of any tokens**, and the parser goes on with
these from a session with the same reports in which they are all there is. -/
theorem run_fileLoop_append {us : List Token} {mark' : Token} {k : Nat} {f : File} {s : Session}
    (hmark : mark.kind = .eof) (hts : ∀ u ∈ ts, u.kind ≠ .eof)
    (hclosed : ∀ u ∈ ts.getLast?, u.Closes)
    (hacc : (read >>= fileLoop n).accept mark (ts, cs) = some (f, st))
    (hahead : s.stream.view.ahead = ts ++ us) (hclose : s.stream.view.close = .ok mark')
    (hv : s.stream.view.Within k) (hk : k < n) :
    ∃ s' k' m, s'.stream.view.ahead = us ∧ s'.stream.view.close = .ok mark' ∧
      s'.diagnostics = s.diagnostics ∧ s'.stream.view.Within k' ∧ k' < m ∧
      ∀ g r, (read >>= fileLoop m).run s' = (.ok g, r) →
        (read >>= fileLoop n).run s = (.ok (f.append g), r) := by
  induction n generalizing ts cs st k f s with
  | zero => exact absurd hk (Nat.not_lt_zero k)
  | succ n ih =>
    cases ts with
    | nil =>
      -- nothing was read but the end mark of the row
      have hend : (fileLoop (n + 1) mark).accept mark ([], cs) = some (f, st) := hacc
      rw [fileLoop, hmark] at hend
      cases hend
      exact ⟨s, k, n + 1, hahead, hclose, rfl, hv, hk, fun g r hrun => hrun⟩
    | cons t ts =>
      obtain ⟨ht, hts⟩ := List.forall_mem_cons.1 hts
      rw [accept_read_bind, fileLoop_succ ht, accept_bind] at hacc
      obtain ⟨⟨add, st₁⟩, hadd, hrest⟩ := Option.bind_eq_some_iff.1 hacc
      rw [accept_bind_pure] at hrest
      obtain ⟨⟨f', st'⟩, hf', heq⟩ := Option.map_eq_some_iff.1 hrest
      cases heq
      obtain ⟨hputs, hsuffix, hlocal⟩ := declaration_local hmark hts hclosed hadd
      -- the declaration is read in front of the other tokens
      obtain ⟨stream, hn, hview⟩ := Stream.next_of_ahead hahead
      rw [hclose] at hview
      obtain ⟨k, rfl, hk'⟩ :=
        (View.taken_of_next hv (Stream.view_of_next hn)).1.shorter ht
      have hkn : k < n := Nat.lt_of_succ_lt_succ hk
      obtain ⟨cs', hadd'⟩ := hlocal mark' us s.consts
      obtain ⟨r, hrun, hr, hrahead, hrclose, hrdiagnostics⟩ := run_of_accept mark'
        (s := { s with stream }) (congrArg View.close hview) (declaration_ensures hk' hkn t)
        (by rw [hview]; exact hadd')
      -- the rest of the row is read behind it
      obtain ⟨before, rfl⟩ := hsuffix
      have hclosed' : ∀ u ∈ st₁.1.getLast?, u.Closes := fun u hu => hclosed u (by
        rw [← List.cons_append, List.getLast?_append, hu]
        rfl)
      obtain ⟨s', k', m, hs'ahead, hs'close, hs'diagnostics, hk'', hm, hgoOn⟩ :=
        ih (fun u hu => hts u (List.mem_append_right _ hu)) hclosed' hf' hrahead hrclose hr hkn
      refine ⟨s', k', m, hs'ahead, hs'close, hs'diagnostics.trans hrdiagnostics, hk'', hm, ?_⟩
      intro g r' hg
      show (next (fileLoop (n + 1))).run s = _
      rw [run_next _ hn, fileLoop_succ ht, run_bind, hrun]
      show ((read >>= fileLoop n) >>= fun file => pure (add file)).run r = _
      rw [run_bind, hgoOn g r' hg]
      show (Except.ok (add (f'.append g)), r') = _
      rw [hputs]

/-- A file is its declarations with a name. -/
theorem file_eq (name : String) (n : Nat) :
    file name n = (read >>= fileLoop n) >>= fun f => pure { f with name } := rfl

theorem accept_file_eq_some {name : String} {f : File}
    (hacc : (file name n).accept mark (ts, cs) = some (f, st)) :
    ∃ f₀, (read >>= fileLoop n).accept mark (ts, cs) = some (f₀, st) ∧ { f₀ with name } = f := by
  rw [file_eq, accept_bind_pure] at hacc
  obtain ⟨⟨f₀, st₀⟩, hf₀, heq⟩ := Option.map_eq_some_iff.1 hacc
  cases heq
  exact ⟨f₀, hf₀, rfl⟩

theorem run_file_eq_ok_iff {name : String} {g : File} {s r : Session} :
    (file name n).run s = (.ok g, r) ↔
      ∃ g₀, (read >>= fileLoop n).run s = (.ok g₀, r) ∧ { g₀ with name } = g := by
  rw [file_eq, run_bind]
  obtain ⟨x, s'⟩ := (read >>= fileLoop n).run s
  cases x with
  | error h => simp
  | ok g₀ =>
    show (Except.ok { g₀ with name }, s') = (.ok g, r) ↔ _
    simp only [Prod.mk.injEq, Except.ok.injEq]
    exact ⟨fun ⟨hg, hs⟩ => ⟨g₀, ⟨rfl, hs⟩, hg⟩, fun ⟨g₁, ⟨heq, hs⟩, hg⟩ => ⟨heq ▸ hg, hs⟩⟩

end Parser

/-! ## Files -/

open Builder ToyLang.Parser

/-- A row of tokens that is built without a report is accepted, with every bound above its size. -/
theorem accept_of_quiet {ts : List Token} {name : String} (hts : ∀ t ∈ ts, t.kind ≠ .eof)
    (hquiet : ((Session.over (.ofList ts) false).build (file name)).2.diagnostics.items = #[])
    {n : Nat} (hn : (Stream.ofList ts).size < n) :
    ∃ f s st, (Session.over (.ofList ts) false).build (file name) = (.ok { f with name }, s) ∧
      (Builder.read >>= fileLoop n).accept (endMarkOf ts) (ts, []) = some (f, st) := by
  have hv := Stream.view_within (s := .ofList ts) rfl rfl
  have hbound : (Session.over (.ofList ts) false).build (file name) =
      (file name n).run (.over (.ofList ts) false) :=
    run_file_bound hv (Nat.lt_succ_self _) hn name
  have hahead : (Session.over (.ofList ts) false).stream.view.ahead = ts :=
    congrArg View.ahead (View.upToMark_of_ne_eof hts)
  obtain ⟨f, s, hrun, ⟨-, st, hacc⟩ | ⟨hreports, -⟩⟩ := run_accept (endMarkOf ts)
    (s := .over (.ofList ts) false) rfl (close_view_ofList ts) (file_ensures hv hn name)
  · rw [hahead] at hacc
    obtain ⟨f, hf, rfl⟩ := accept_file_eq_some hacc
    exact ⟨f, s, st, hbound.trans hrun, hf⟩
  · rw [hbound, hrun] at hquiet
    exact absurd hquiet hreports

/-- **Declarations compose.** If a row of tokens is built without a report, and is empty or ends in
a semicolon or an `end`, then it is built in front of any other row as it is built alone: its
declarations come first, those of the other row follow, and the reports are those of the other
row. -/
theorem declarations_compose {ts : List Token} {name : String} (hts : ∀ t ∈ ts, t.kind ≠ .eof)
    (hclosed : ∀ t ∈ ts.getLast?, t.Closes)
    (hquiet : ((Session.over (.ofList ts) false).build (file name)).2.diagnostics.items = #[])
    (us : List Token) :
    ∃ f s g r r', (Session.over (.ofList ts) false).build (file name) = (.ok f, s) ∧
      (Session.over (.ofList us) false).build (file name) = (.ok g, r) ∧
      (Session.over (.ofList (ts ++ us)) false).build (file name) = (.ok (f.append g), r') ∧
      r'.diagnostics = r.diagnostics := by
  obtain ⟨g, r, hg, -⟩ := build_file_ofList us name
  -- the first row is accepted with the bound of the whole
  have hsize : (Stream.ofList ts).size < (Stream.ofList (ts ++ us)).size + 1 := by
    simp only [Stream.size, Stream.ofList, Feed.size, List.length_append]
    omega
  obtain ⟨f, s, st, hf, hacc⟩ := accept_of_quiet hts hquiet hsize
  -- and read in front of the second one, which is then all there is
  have hview : (Stream.ofList (ts ++ us)).view =
      { (Stream.ofList us).view with ahead := ts ++ (Stream.ofList us).view.ahead } :=
    View.upToMark_append _ hts us
  have hmark : (endMarkOf ts).kind = .eof :=
    (Stream.view_within (s := .ofList ts) rfl rfl).sane.mark _ (close_view_ofList ts)
  obtain ⟨s', k, m, hahead, hclose, hdiagnostics, hk, hm, hgoOn⟩ := run_fileLoop_append
    (s := .over (.ofList (ts ++ us)) false) hmark hts hclosed hacc (congrArg View.ahead hview)
    ((congrArg View.close hview).trans (close_view_ofList us))
    (Stream.view_within rfl rfl) (Nat.lt_succ_self _)
  -- where the parser goes on as it does on the second row alone
  have hquietly : s'.diagnostics = (Session.over (.ofList us) false).diagnostics := hdiagnostics
  obtain ⟨hresult, hbehind⟩ := run_file_sameView hahead
    (hclose.trans (close_view_ofList us).symm) hquietly hk hm
    (Stream.view_within rfl rfl) (Nat.lt_succ_self _) name
  change _ = ((Session.over (.ofList us) false).build (file name)).1 at hresult
  change Session.SameView _ ((Session.over (.ofList us) false).build (file name)).2 at hbehind
  rw [hg] at hresult hbehind
  obtain ⟨g₀, hg₀, rfl⟩ := run_file_eq_ok_iff.1
    (show (file name m).run s' = (.ok g, ((file name m).run s').2) from Prod.ext hresult rfl)
  refine ⟨_, s, _, r, _, hf, hg, ?_, hbehind.diagnostics⟩
  exact run_file_eq_ok_iff.2 ⟨f.append g₀, hgoOn g₀ _ hg₀, rfl⟩

/-- A function with a constant of its own, and behind it a stray word and a function without one. -/
theorem functions_compose :
    let word (k : Keyword) : Token := ⟨.keyword k, .text k.spelling, ⟨1, 1⟩⟩
    let ident (s : String) : Token := ⟨.ident, .text s, ⟨1, 1⟩⟩
    let ts : List Token := [word .func_, ident "f", word .is_,
      word .const_, ident "k", ⟨.punct .colon, .text ":", ⟨1, 1⟩⟩, ⟨.type .u8, .text "u8", ⟨1, 1⟩⟩,
      ⟨.operator .assign, .text ":=", ⟨1, 1⟩⟩, ⟨.number, .int 2, ⟨1, 1⟩⟩,
      ⟨.punct .semicolon, .text ";", ⟨1, 1⟩⟩, word .end_]
    let us : List Token := [ident "x", word .func_, ident "g", word .is_, word .end_]
    (∀ t ∈ ts, t.kind ≠ .eof) ∧ (∀ t ∈ ts.getLast?, t.Closes) ∧
      ((Session.over (.ofList ts) false).build (file "m")).2.diagnostics.items = #[] ∧
      ∃ f s g r r', (Session.over (.ofList ts) false).build (file "m") = (.ok f, s) ∧
        (Session.over (.ofList us) false).build (file "m") = (.ok g, r) ∧
        (Session.over (.ofList (ts ++ us)) false).build (file "m") = (.ok (f.append g), r') ∧
        r'.diagnostics = r.diagnostics := by
  intro word ident ts us
  have hts : ∀ t ∈ ts, t.kind ≠ .eof := by decide
  have hclosed : ∀ t ∈ ts.getLast?, t.Closes := fun _ ht => .inl (Option.some.inj ht ▸ rfl)
  have hquiet : ((Session.over (.ofList ts) false).build (file "m")).2.diagnostics.items = #[] := by
    decide +kernel
  exact ⟨hts, hclosed, hquiet, declarations_compose hts hclosed hquiet us⟩

end ToyLang
