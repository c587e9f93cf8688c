import ToyLang.Proofs.Lexing.Text
import ToyLang.Proofs.Placement.File
import ToyLang.Proofs.Printing.Unplaced
import ToyLang.Proofs.Shape.Printing
import ToyLang.Proofs.Widening.File

/-!
# Positions do not matter to runs

Alike builders run alike in sessions that differ in positions only, reports and all
(`Builder.Alike.run`). With a bound that is wide enough for both sessions the parser builds files
that are the same, reports the same and gives one canonical text (`placement_irrelevant`): neither
the positions of listed tokens nor the layout of a source are of influence.
-/

set_option autoImplicit false

namespace ToyLang

/-! ## Sessions without positions -/

/-- The diagnostic at no position. -/
def Diagnostic.bare (d : Diagnostic) : Diagnostic :=
  { d with pos := ⟨0, 0⟩, token := d.token.map Token.bare }

namespace View

/-- The view without positions. -/
def bare (v : View) : View := ⟨v.ahead.map Token.bare, v.close.map Token.bare, v.held⟩

variable {v v' : View}

theorem next_bare (v : View) : v.bare.next = (v.next.1.map Token.bare, v.next.2.bare) := by
  obtain ⟨_ | ⟨t, ts⟩, x | e, held⟩ := v <;> rfl

theorem push_bare (v : View) (t : Token) : (v.push t).bare = v.bare.push t.bare := rfl

theorem left_bare (v : View) : v.bare.left = v.left := by
  simp only [left, bare, List.countP_map]
  rfl

theorem bare_upToMark (close : Except LexicalError Token) (ts : List Token) :
    (upToMark close ts).bare = upToMark (close.map Token.bare) (ts.map Token.bare) := by
  induction ts with
  | nil => rfl
  | cons t ts ih =>
    rw [List.map_cons, upToMark, upToMark, Token.kind_bare, ← ih]
    split <;> rfl

/-- Alike views deliver alike tokens. -/
theorem next_of_alike (h : Under bare v v') {t : Token} (hn : v.next.1 = .ok t) :
    ∃ t', v'.next.1 = .ok t' ∧ t.Alike t' ∧ Under bare v.next.2 v'.next.2 := by
  have hnext : v.bare.next = v'.bare.next := congrArg next h
  rw [next_bare, next_bare, Prod.mk.injEq, hn] at hnext
  obtain ⟨ht, hbehind⟩ := hnext
  cases hn' : v'.next.1 with
  | error e =>
    rw [hn'] at ht
    cases ht
  | ok t' =>
    rw [hn'] at ht
    exact ⟨t', rfl, Except.ok.inj ht, hbehind⟩

end View

/-- Two sessions that collect reports and differ in positions only. -/
structure Session.Alike (s s' : Session) : Prop where
  collects : s.diagnostics.failFast = false
  collects' : s'.diagnostics.failFast = false
  view : Under View.bare s.stream.view s'.stream.view
  items : Under (Array.map Diagnostic.bare) s.diagnostics.items s'.diagnostics.items

theorem Problem.seenAt_bare (p : Problem) (t : Token) :
    (p.seenAt t).bare = p.seenAt t.bare := rfl

/-! ## Alike runs -/

namespace Builder

variable {α : Type} {R : α → α → Prop} {b b' : Builder α}

/-- **Positions do not matter to runs**: alike builders run alike in alike sessions. -/
theorem Alike.run (h : Alike R b b') {s s' : Session} (hs : s.Alike s') {mark : Token}
    (hc : s.stream.view.close = .ok mark) {Q : α → View → Prop}
    (he : b.Ensures Q s.stream.view) :
    ∃ a r a' r', b.run s = (.ok a, r) ∧ b'.run s' = (.ok a', r') ∧ R a a' ∧ r.Alike r' := by
  induction h generalizing s s' with
  | done ha => exact ⟨_, s, _, s', rfl, rfl, ha, hs⟩
  | next _ ih =>
    obtain ⟨x, stream, hn⟩ : ∃ x stream, s.stream.next = (x, stream) := ⟨_, _, rfl⟩
    obtain ⟨x', stream', hn'⟩ : ∃ x stream, s'.stream.next = (x, stream) := ⟨_, _, rfl⟩
    have hv := Stream.view_of_next hn
    have hv' := Stream.view_of_next hn'
    cases x with
    | error e =>
      rw [View.close_of_failure (congrArg Prod.fst hv)] at hc
      cases hc
    | ok t =>
      obtain ⟨t', ht', halike, hbehind⟩ := View.next_of_alike hs.view (congrArg Prod.fst hv)
      rw [hv, hv'] at hbehind
      rw [hv'] at ht'
      obtain rfl : x' = .ok t' := ht'
      rw [run_next _ hn, run_next _ hn']
      exact ih t t' halike ⟨hs.collects, hs.collects', hbehind, hs.items⟩
        ((View.close_of_next hv).trans hc) (he t _ hv)
  | @back t t' _ _ ht _ ih =>
    have hheld : s'.stream.view.held = s.stream.view.held := (congrArg View.held hs.view).symm
    obtain ⟨stream, hb, hv⟩ := (s.stream.putBack_view t).1 he.1
    obtain ⟨stream', hb', hv'⟩ := (s'.stream.putBack_view t').1 (hheld.trans he.1)
    have hview : Under View.bare stream.view stream'.view := by
      rw [hv, hv', Under, View.push_bare, View.push_bare, hs.view, ht]
    rw [run_back _ hb, run_back _ hb']
    exact ih ⟨hs.collects, hs.collects', hview, hs.items⟩ (by rw [hv]; exact hc)
      (by rw [hv]; exact he.2)
  | @report p t t' _ _ ht _ ih =>
    have hitems : Under (Array.map Diagnostic.bare) (s.diagnostics.record (p.seenAt t)).items
        (s'.diagnostics.record (p.seenAt t')).items := by
      simp only [Under, Diagnostics.record, Array.map_push, hs.items, Problem.seenAt_bare, ht]
    rw [run_report _ _ _ hs.collects, run_report _ _ _ hs.collects']
    exact ih ⟨hs.collects, hs.collects', hs.view, hitems⟩ hc he
  | declare _ _ ih => exact ih ⟨hs.collects, hs.collects', hs.view, hs.items⟩ hc he
  | fault => exact he.elim

end Builder

/-! ## Alike files -/

/-- Two runs that come to files which are the same and have one canonical text, with reports that
differ in positions only. -/
def SameOutcome (r r' : Except Halt File × Session) : Prop :=
  ∃ f s g s', r = (.ok f, s) ∧ r' = (.ok g, s') ∧ f.same g = true ∧
    s.diagnostics.items.map Diagnostic.bare = s'.diagnostics.items.map Diagnostic.bare ∧
    ∃ text, f.unparse = .ok text ∧ g.unparse = .ok text

/-- Fresh streams that differ in positions only. -/
theorem sameOutcome_of_alike {x y : Feed} (hview : Under View.bare x.view y.view) {mark : Token}
    (hc : x.view.close = .ok mark) (name : String) :
    SameOutcome ((Session.over { feed := x } false).build (Parser.file name))
      ((Session.over { feed := y } false).build (Parser.file name)) := by
  have hx := Stream.view_within (s := { feed := x }) rfl rfl
  have hy := Stream.view_within (s := { feed := y }) rfl rfl
  have hleft : y.view.left = x.view.left := by
    rw [← View.left_bare, ← hview, View.left_bare]
  -- the bound for the first feed is wide enough for the second one
  have hbound :
      (Parser.file name ((Stream.mk x none none).size + 1)).run (.over { feed := y } false) =
        (Parser.file name ((Stream.mk y none none).size + 1)).run (.over { feed := y } false) :=
    run_file_bound ⟨hy.sane, Nat.le_refl _⟩ (hleft ▸ Nat.lt_succ_of_le hx.left_le)
      (Nat.lt_succ_of_le hy.left_le) name
  have hs : (Session.over { feed := x } false).Alike (.over { feed := y } false) :=
    ⟨rfl, rfl, hview, rfl⟩
  obtain ⟨f, r, g, r', hf, hg, hsame, hr⟩ := (Parser.alike_file name _).run hs hc
    (Parser.file_ensures hx (Nat.lt_succ_self _) name)
  rw [hbound] at hg
  have hwf : f.WellFormed := File.wellFormed_of_run hf
  have hwg : g.WellFormed := File.wellFormed_of_run hg
  obtain ⟨text, htext⟩ := hwf.unparse_ok
  refine ⟨f, r, g, r', hf, hg, decide_eq_true hsame, hr.items, text, htext, ?_⟩
  rw [← hwg.unparse_unplaced, ← hsame, hwf.unparse_unplaced, htext]

/-- The text is layout and lexemes in turn, and the lexemes make the tokens. -/
def LexesAs (source : String) (ts : List Token) : Prop :=
  ∃ q rest, Pieces .start source.toList ts q rest ∧ IsLayout rest []

theorem LexesAs.view {source : String} {ts : List Token} (h : LexesAs source ts) :
    ∃ p, (Feed.text (.ofText source)).view = { ahead := ts, close := .ok (.endMark p) } := by
  obtain ⟨q, rest, hpieces, hrest⟩ := h
  have htokens : (Cursor.ofText source).tokens = (ts ++ [Token.endMark (q.after rest)], none) := by
    rw [Cursor.ofText, hpieces.tokens, tokens_of_end hrest]
  refine ⟨q.after rest, ?_⟩
  rw [Feed.view, htokens, View.upToMark_append_mark hpieces.kind_ne_eof rfl]

/-- **Layout and positions do not influence parsing.** Lists of tokens that agree in kinds and
payloads are built into files that are the same and have one text, with the same reports up to
positions; so are two sources that are the same lexemes in different layouts. -/
theorem placement_irrelevant (name : String) :
    (∀ ts us : List Token, ts.map Token.bare = us.map Token.bare →
      SameOutcome ((Session.over (.ofList ts) false).build (Parser.file name))
        ((Session.over (.ofList us) false).build (Parser.file name))) ∧
    ∀ (a b : String) (ts us : List Token), LexesAs a ts → LexesAs b us →
      ts.map Token.bare = us.map Token.bare → SameOutcome (parse a name) (parse b name) := by
  constructor
  · intro ts us h
    refine sameOutcome_of_alike ?_ (close_view_ofList ts) name
    show (View.upToMark _ ts).bare = (View.upToMark _ us).bare
    rw [View.bare_upToMark, View.bare_upToMark, h]
  · intro a b ts us ha hb h
    obtain ⟨p, hview⟩ := ha.view
    obtain ⟨q, hview'⟩ := hb.view
    refine sameOutcome_of_alike (x := .text (.ofText a)) (y := .text (.ofText b)) ?_
      (congrArg View.close hview) name
    simp only [Under, hview, hview', View.bare, h]
    rfl

/-- One source in two layouts. -/
theorem import_respaced :
    LexesAs "import a;" [⟨.keyword .import_, .text "import", ⟨1, 1⟩⟩, ⟨.ident, .text "a", ⟨1, 8⟩⟩,
      ⟨.punct .semicolon, .text ";", ⟨1, 9⟩⟩] ∧
    LexesAs "import # path\na ;" [⟨.keyword .import_, .text "import", ⟨1, 1⟩⟩,
      ⟨.ident, .text "a", ⟨2, 1⟩⟩, ⟨.punct .semicolon, .text ";", ⟨2, 3⟩⟩] := by
  have space {rest : List Char} : IsLayout [' '] rest := .blank (by decide) (.nil rest)
  have comment {rest : List Char} : IsLayout " # path\n".toList rest := by
    have hbody : '\n' ∉ " path".toList := by decide
    have hfeed : IsLayout ['\n'] rest := .blank (by decide) (.nil rest)
    exact .blank (by decide) (.comment hbody (fun c hc => by cases hc; rfl) hfeed)
  have keyword {rest : List Char} :
      IsLexeme (.keyword .import_) (.text "import") "import".toList (' ' :: rest) :=
    .word (.inl ⟨.import_, rfl, by decide⟩) (by decide) (by simp) (by simp)
  have name {c : Char} {rest : List Char} (hc : c = ' ' ∨ c = ';') :
      IsLexeme .ident (.text "a") ['a'] (c :: rest) := by
    refine .word (TokenKind.isWordKind_iff.2 (by decide)) (by decide) (by simp) ?_
    rcases hc with rfl | rfl <;> simp
  have semicolon : IsLexeme (.punct .semicolon) (.text ";") [';'] [] :=
    .symbol (.inl ⟨.semicolon, rfl, by decide⟩) fun _ _ _ hd => by cases hd
  refine ⟨⟨⟨1, 10⟩, [], ?_, .nil []⟩, ⟨⟨2, 4⟩, [], ?_, .nil []⟩⟩
  · exact .cons (.nil _) keyword (.cons space (name (.inr rfl)) (.cons (.nil _) semicolon
      (.nil _ _)))
  · exact .cons (.nil _) keyword (.cons comment (name (.inl rfl)) (.cons space semicolon
      (.nil _ _)))

/-- The two layouts of one source come to one file, from the text and from its tokens. -/
theorem import_placement_irrelevant :
    let ts : List Token := [⟨.keyword .import_, .text "import", ⟨1, 1⟩⟩,
      ⟨.ident, .text "a", ⟨1, 8⟩⟩, ⟨.punct .semicolon, .text ";", ⟨1, 9⟩⟩]
    let us : List Token := [⟨.keyword .import_, .text "import", ⟨1, 1⟩⟩,
      ⟨.ident, .text "a", ⟨2, 1⟩⟩, ⟨.punct .semicolon, .text ";", ⟨2, 3⟩⟩]
    ts.map Token.bare = us.map Token.bare ∧
      SameOutcome ((Session.over (.ofList ts) false).build (Parser.file "m"))
        ((Session.over (.ofList us) false).build (Parser.file "m")) ∧
      LexesAs "import a;" ts ∧ LexesAs "import # path\na ;" us ∧
      SameOutcome (parse "import a;" "m") (parse "import # path\na ;" "m") := by
  intro ts us
  have h : ts.map Token.bare = us.map Token.bare := rfl
  obtain ⟨ha, hb⟩ := import_respaced
  exact ⟨h, (placement_irrelevant "m").1 ts us h, ha, hb,
    (placement_irrelevant "m").2 _ _ ts us ha hb h⟩

end ToyLang
