import ToyLang.Proofs.Lexing.Text
import ToyLang.Proofs.Nodes
import ToyLang.Proofs.Origin.File
import ToyLang.Proofs.Progress.File

/-!
# Locations are genuine

Whatever is reported is reported at a token that the stream delivered, and whatever is built stands
where such a token does. Two things have no token of their own: a block, and the expression of a
statement or parameter that has none; they stand at no position.

* `Expr.From.located`, `Stmt.From.located`, `File.From.located`: trees from tokens stand where these
  tokens do, at every depth;
* `Pieces.startsIn`: the tokens of a text stand where lexemes of the text begin;
* `locations_genuine`: the diagnostics and the file of a parse, of tokens or of a text.
-/

set_option autoImplicit false

namespace ToyLang

variable {T : Token → Prop} {t : Token}

/-! ## Located trees -/

/-- Every node of the expression stands where a token in `T` does. -/
def Expr.Located (T : Token → Prop) (e : Expr) : Prop := ∀ n ∈ e.nodes, ∃ t, T t ∧ n.pos = t.pos

/-- The kinds of statements that have no expression of their own. -/
def StmtKind.bare : List StmtKind := [.block, .break_, .continue_, .else_, .none]

/-- The statement stands where a token in `T` does, and so does its expression. A block stands at no
position, and so does the mark of an expression that is absent by nature. -/
structure Stmt.Located (T : Token → Prop) (s : Stmt) : Prop where
  block : s.kind = .block → s.pos = ⟨0, 0⟩
  place : s.kind ≠ .block → ∃ t, T t ∧ s.pos = t.pos
  bare : s.kind ∈ StmtKind.bare → s.expr = .none ⟨0, 0⟩
  expr : s.kind ∉ StmtKind.bare → s.expr.Located T

/-- Every statement and every expression of the file, at every depth, is located by the tokens in
`T`. Parameters have no values. -/
structure File.Located (T : Token → Prop) (f : File) : Prop where
  stmts : ∀ s ∈ f.stmts, s.Located T
  constants : ∀ c ∈ f.constants, c.expr.Located T
  items : ∀ s ∈ f.structs, ∀ i ∈ s.items, i.expr.Located T
  args : ∀ g ∈ f.functions, ∀ a ∈ g.args, a.expr = .none ⟨0, 0⟩

theorem Expr.From.located {e : Expr} (h : e.From T) : e.Located T := by
  induction h with
  | none t ht => exact forall_nodes_leaf _ _ _ ⟨t, ht, rfl⟩
  | number t ht | string t ht | char t ht => exact forall_nodes_leaf _ _ _ ⟨t, ht, rfl⟩
  | bool b t ht => exact forall_nodes_leaf _ _ _ ⟨t, ht, rfl⟩
  | identifier name t ht => exact forall_nodes_leaf _ _ _ ⟨t, ht, rfl⟩
  | operation o l r t ht _ _ ihl ihr => exact forall_nodes_operation ⟨t, ht, rfl⟩ ihl ihr
  | list items t ht _ ih =>
    exact forall_nodes ⟨t, ht, rfl⟩ (fun _ ha => absurd ha List.not_mem_nil) ih
  | access kind name arg t _ ht _ _ ih => exact forall_nodes_access ⟨t, ht, rfl⟩ ih
  | structAcc name member t u ht hu =>
    exact forall_nodes_access ⟨t, ht, rfl⟩ (forall_nodes_leaf _ _ _ ⟨u, hu, rfl⟩)

namespace Stmt

variable {s : Stmt} {ss : List Stmt}

/-- A statement with an expression. -/
theorem located_of_expr (hkind : s.kind ∉ StmtKind.bare) (ht : T t) (hpos : s.pos = t.pos)
    (he : s.expr.From T) : s.Located T :=
  ⟨fun hk => absurd (hk ▸ List.mem_cons_self) hkind, fun _ => ⟨t, ht, hpos⟩,
    fun hk => absurd hk hkind, fun _ => he.located⟩

/-- A statement without an expression. -/
theorem located_of_bare (hkind : s.kind ∈ StmtKind.bare) (hblock : s.kind ≠ .block) (ht : T t)
    (hpos : s.pos = t.pos) (he : s.expr = .none ⟨0, 0⟩) : s.Located T :=
  ⟨fun hk => absurd hk hblock, fun _ => ⟨t, ht, hpos⟩, fun _ => he, fun hk => absurd hkind hk⟩

theorem located_block (h : ∀ s ∈ ss, ∀ n ∈ s.nodes, n.Located T) :
    ∀ n ∈ (block ss).nodes, n.Located T := by
  have hroot : (block ss).Located T :=
    ⟨fun _ => rfl, fun hk => absurd rfl hk, fun _ => rfl, fun hk => absurd List.mem_cons_self hk⟩
  exact forall_nodes hroot h fun _ hb => absurd hb List.not_mem_nil

/-- A clause with a body, and perhaps with more clauses. -/
theorem located_clause {kind : StmtKind} {condition : Expr} {pos : Pos} {branches : List Stmt}
    (hroot : ({ Parser.clause kind condition (block ss) pos with branches } : Stmt).Located T)
    (hs : ∀ s ∈ ss, ∀ n ∈ s.nodes, n.Located T)
    (hb : ∀ b ∈ branches, ∀ n ∈ b.nodes, n.Located T) :
    ∀ n ∈ ({ Parser.clause kind condition (block ss) pos with branches } : Stmt).nodes,
      n.Located T :=
  forall_nodes hroot (List.forall_mem_singleton.2 (located_block hs)) hb

/-- Every node of a statement from tokens stands where one of them does. -/
theorem From.located (h : s.From T) : ∀ n ∈ s.nodes, n.Located T := by
  have noBranches : ∀ b ∈ ([] : List Stmt), ∀ n ∈ b.nodes, n.Located T :=
    fun _ hb => absurd hb List.not_mem_nil
  induction h with
  | none t ht =>
    exact forall_nodes_leaf (located_of_bare (by simp [StmtKind.bare, Stmt.none])
      (by simp [Stmt.none]) ht rfl rfl) rfl rfl
  | declared kind name dataType expr t hkind ht _ he =>
    have hbare : kind ∉ StmtKind.bare := by
      revert kind
      decide
    exact forall_nodes_leaf (located_of_expr hbare ht rfl he) rfl rfl
  | structDec name expr t ht _ he =>
    exact forall_nodes_leaf (located_of_expr (by simp [StmtKind.bare]) ht rfl he) rfl rfl
  | exprStmt target value t u ht hu htarget _ hvalue =>
    have he : (Expr.operation .assign target value u.pos).From T :=
      .operation .assign target value u hu htarget hvalue
    exact forall_nodes_leaf (located_of_expr (by simp [StmtKind.bare]) ht rfl he) rfl rfl
  | callStmt name expr t ht _ he =>
    exact forall_nodes_leaf (located_of_expr (by simp [StmtKind.bare]) ht rfl he) rfl rfl
  | return_ expr t ht he =>
    exact forall_nodes_leaf (located_of_expr (by simp [StmtKind.bare]) ht rfl he) rfl rfl
  | keyword kind t hkind ht =>
    have hbare : kind ∈ StmtKind.bare ∧ kind ≠ .block := by
      revert kind
      decide
    exact forall_nodes_leaf (located_of_bare hbare.1 hbare.2 ht rfl rfl) rfl rfl
  | clause kind condition ss t hkind ht hc _ _ ih =>
    have hbare : kind ∉ StmtKind.bare := by
      revert kind
      decide
    exact located_clause (located_of_expr hbare ht rfl hc) ih noBranches
  | else_ ss t ht _ _ ih =>
    refine located_clause (located_of_bare ?_ ?_ ht rfl rfl) ih noBranches <;>
      simp [StmtKind.bare, Parser.clause]
  | if_ condition ss branches t ht hc _ _ _ _ ih ihbranches =>
    have hroot := located_of_expr
      (s := { Parser.clause .if_ condition (block ss) t.pos with branches })
      (by simp [StmtKind.bare, Parser.clause]) ht rfl hc
    exact located_clause hroot ih ihbranches

end Stmt

/-- A file from tokens is located by them. -/
theorem File.From.located {f : File} (h : f.From T) : f.Located T := by
  constructor
  case stmts =>
    intro s hs
    obtain ⟨g, hg, hs⟩ := List.mem_flatMap.1 hs
    obtain ⟨ss, hblock, hss⟩ := (h.functions g hg).block
    rw [hblock] at hs
    exact Stmt.located_block (fun s hs => (hss.members s hs).located) s hs
  case constants =>
    refine List.forall_mem_append.2 ⟨fun c hc => (h.consts c hc).value.located, fun c hc => ?_⟩
    obtain ⟨g, hg, hc⟩ := List.mem_flatMap.1 hc
    exact ((h.functions g hg).consts c hc).value.located
  case items => exact fun s hs i hi => ((h.structs s hs).items i hi).value.located
  case args => exact fun g hg a ha => ((h.functions g hg).args a ha).bare

/-! ## Tokens of a text -/

/-- The token stands where a lexeme of the text begins that makes it, or it is the end mark and
stands at the end of the text. -/
def Token.StartsIn (source : List Char) (t : Token) : Prop :=
  ∃ before behind, source = before ++ behind ∧ t.pos = Pos.start.after before ∧
    ((∃ text rest, behind = text ++ rest ∧ IsLexeme t.kind t.value text rest) ∨
      t.kind = .eof ∧ behind = [])

/-- The tokens of pieces of a text stand where their lexemes begin, and the rest begins behind
them. -/
theorem Pieces.startsIn {p q : Pos} {cs rest : List Char} {ts : List Token}
    (h : Pieces p cs ts q rest) (before : List Char) (hp : p = Pos.start.after before) :
    (∀ t ∈ ts, t.StartsIn (before ++ cs)) ∧
      ∃ read, cs = read ++ rest ∧ q = Pos.start.after (before ++ read) := by
  induction h generalizing before with
  | nil p rest => exact ⟨fun _ ht => absurd ht List.not_mem_nil, [], rfl, by simpa using hp⟩
  | @cons p q w text cs rest k v ts layout lexeme pieces ih =>
    subst hp
    obtain ⟨htokens, read, hread, hq⟩ :=
      ih (before ++ (w ++ text)) (Pos.after_append _ _ _).symm
    have hassoc : before ++ (w ++ text) ++ cs = before ++ (w ++ (text ++ cs)) := by
      simp only [List.append_assoc]
    rw [hassoc] at htokens
    refine ⟨List.forall_mem_cons.2 ⟨?_, htokens⟩, w ++ (text ++ read), ?_, ?_⟩
    · refine ⟨before ++ w, text ++ cs, by simp only [List.append_assoc], ?_, .inl ?_⟩
      · exact (Pos.after_append _ _ _).symm
      · exact ⟨text, cs, rfl, lexeme⟩
    · simp only [hread, List.append_assoc]
    · simpa only [List.append_assoc] using hq

/-- The tokens that the stream of a text delivers are those of the lexer, and these begin where
lexemes of the text do, or at its end. -/
theorem delivers_ofText (source : String) :
    (Stream.ofText source).view.Delivers fun t =>
      t ∈ (Cursor.ofText source).tokens.1 ∧ t.StartsIn source.toList := by
  obtain ⟨us, q, rest, hpieces, hahead, hcases⟩ := exists_view_ofText source
  obtain ⟨hstarts, read, hread, hq⟩ := hpieces.startsIn [] rfl
  rw [List.nil_append] at hstarts hq
  rcases hcases with ⟨-, htokens, hclose⟩ | ⟨e, htokens, hclose⟩
  · have hend : (Token.endMark (q.after rest)).StartsIn source.toList := by
      refine ⟨source.toList, [], (List.append_nil _).symm, ?_, .inr ⟨rfl, rfl⟩⟩
      rw [hread, Pos.after_append, ← hq]
      rfl
    refine ⟨fun t ht => ?_, fun t ht => ?_⟩
    · rw [hahead] at ht
      rw [htokens]
      exact ⟨List.mem_append_left _ ht, hstarts t ht⟩
    · rw [hclose] at ht
      cases ht
      rw [htokens]
      exact ⟨List.mem_append_right _ List.mem_cons_self, hend⟩
  · refine ⟨fun t ht => ?_, fun t ht => ?_⟩
    · rw [hahead] at ht
      rw [htokens]
      exact ⟨ht, hstarts t ht⟩
    · rw [hclose] at ht
      cases ht

/-- The tokens that the stream of a list delivers are in the list, or mark its end. -/
theorem delivers_ofList (ts : List Token) :
    (Stream.ofList ts).view.Delivers fun t => t ∈ ts ∨ t = endMarkOf ts := by
  have hclose := close_view_ofList ts
  refine ⟨fun t ht => .inl ?_, fun t ht => .inr ?_⟩
  · exact View.mem_of_mem_upToMark ht
  · rw [hclose] at ht
    cases ht
    rfl

/-! ## Parses -/

/-- The tokens that the stream delivers while something is built. -/
def Session.delivered {α : Type} (s : Session) (b : Nat → Builder α) : List Token :=
  (b (s.stream.size + 1)).delivered s

/-- What is reported and built is located by the tokens that were delivered, whatever the stream and
whatever a report leads to. -/
theorem madeFrom_delivered (stream : Stream) (strict : Bool) (name : String) :
    let T := (· ∈ (Session.over stream strict).delivered (Parser.file name))
    Builder.MadeFrom T (File.Located T) ((Session.over stream strict).build (Parser.file name)) :=
  (((Parser.makes_file name _).mono fun _ hf => hf.located).run_over fun _ ht => ht).madeFrom

/-- What a parse makes of the tokens of its text. -/
theorem made_parse (source name : String) (strict : Bool) :
    let T := fun t => t ∈ (Cursor.ofText source).tokens.1 ∧ t.StartsIn source.toList
    Builder.Made (.ofTokens T) (File.From T) (parse source name strict) := by
  intro T
  have hmakes := Parser.makes_file (T := T) name ((Stream.ofText source).size + 1)
  exact hmakes.run_over (hmakes.delivered (s := .over (.ofText source) strict)
    (delivers_ofText source))

/-- **Locations are genuine.** Every diagnostic of a parse, the one that stopped it included,
carries a token that the stream delivered and stands where this token does; every statement and
every expression of the file that is built stands where some delivered token does, but for blocks
and for absent expressions of parameters and bare statements. Of a list, the stream delivers tokens
of the list and its end mark. Of a text, it delivers tokens of the lexer, which stand where lexemes
of the text begin, or at its end. -/
theorem locations_genuine (name : String) (strict : Bool) :
    (∀ ts : List Token,
      let T := (· ∈ (Session.over (.ofList ts) strict).delivered (Parser.file name))
      Builder.MadeFrom T (File.Located T)
          ((Session.over (.ofList ts) strict).build (Parser.file name)) ∧
        ∀ t, T t → t ∈ ts ∨ t = endMarkOf ts) ∧
    ∀ source : String,
      let T := (· ∈ (Session.over (.ofText source) strict).delivered (Parser.file name))
      Builder.MadeFrom T (File.Located T) (parse source name strict) ∧
        ∀ t, T t → t ∈ (Cursor.ofText source).tokens.1 ∧ t.StartsIn source.toList := by
  refine ⟨fun ts => ⟨madeFrom_delivered _ strict name, ?_⟩,
    fun source => ⟨madeFrom_delivered (.ofText source) strict name, ?_⟩⟩
  · exact (Parser.makes_file name _).delivered (s := .over (.ofList ts) strict) (delivers_ofList ts)
  · exact (Parser.makes_file name _).delivered (s := .over (.ofText source) strict)
      (delivers_ofText source)

end ToyLang
