import ToyLang.Proofs.Accepted.File
import ToyLang.Proofs.Balance.File

/-!
# Nothing of an accepted file is a stopgap

Where something could not be read, the parser puts a stopgap into the tree: an empty name, no type,
a statement of no kind, an assignment whose target is missing. Each comes with a report, so that
none of them is in a file that was accepted. Regularity says so for whole trees; here it is said of
every node at every depth, for each node on its own.

* `Expr.Genuine`, `Stmt.Genuine`, `File.Genuine`: nodes and files without stopgaps;
* `File.genuine_of_parse`: what is parsed without a report is genuine.
-/

set_option autoImplicit false

namespace ToyLang

/-! ## Genuine nodes -/

namespace Expr

/-- An expression without an assignment in it. -/
def Plain (e : Expr) : Prop := ∀ n ∈ e.nodes, n.kind ≠ .operation .assign

/-- An assignment as a whole: its target is one of `P`, and no other assignment is in it. -/
def AssignsTo (P : Expr → Prop) (e : Expr) : Prop :=
  ∃ target value pos, e = .operation .assign target value pos ∧ P target ∧ target.Plain ∧
    value.Plain

/-- The value of a declaration: without an assignment, or an assignment to the declared name. -/
def Declares (name : String) (e : Expr) : Prop :=
  e.Plain ∨ e.AssignsTo fun target => ∃ pos, target = .identifier (.text name) pos

/-- A node that is what its kind promises. -/
structure Genuine (e : Expr) : Prop where
  name : e.kind ∈ [.identifier, .call, .arrayAcc, .structAcc] → ∃ s, e.value = .text s ∧ IsName s
  member : e.kind = .structAcc → ∃ m, e.args = [m] ∧ m.kind = .identifier
  number : e.kind = .int → ∃ n : Nat, e.value = .int n ∧ n ≤ maxNumber

end Expr

/-- A statement that is what its kind promises. Only a statement of its own and a declaration
assign, and behind a clause without condition there is none. -/
structure Stmt.Genuine (s : Stmt) : Prop where
  kind : s.kind ≠ .none
  name : s.kind ∈ [.varDec, .arrayDec, .structDec, .callStmt] → IsName s.name
  type : s.kind ∈ [.varDec, .arrayDec] → s.dataType ≠ .void
  assigns : s.kind = .exprStmt → s.expr.AssignsTo fun _ => True
  declares : s.kind = .varDec → s.expr.Declares s.name
  plain : s.kind ∉ [.exprStmt, .varDec] → s.expr.Plain
  struct : s.kind = .structDec → s.expr.kind = .identifier
  last : s.kind = .if_ → ∀ bs b cs, s.branches = bs ++ b :: cs → b.kind = .else_ → cs = []

/-- **A file without stopgaps**, at every depth. -/
structure File.Genuine (f : File) : Prop where
  functions : ∀ g ∈ f.functions, IsName g.name
  structs : ∀ s ∈ f.structs, IsName s.name
  declared : ∀ t ∈ f.typedNames, IsName t.name ∧ t.dataType ≠ .void
  constants : ∀ c ∈ f.constants, c.expr.Plain
  args : ∀ g ∈ f.functions, ∀ a ∈ g.args, a.expr.Plain
  items : ∀ s ∈ f.structs, ∀ t ∈ s.items, t.expr.Declares t.name
  stmts : ∀ s ∈ f.stmts, s.Genuine
  exprs : ∀ e ∈ f.exprs, e.Genuine
  lists : ∀ e ∈ f.exprs, e.kind = .list → e.items ≠ []

/-! ## Expressions -/

namespace Expr

variable {e : Expr}

/-- A node of an expression in which nothing is assigned. -/
def IsSound (e : Expr) : Prop := e.Genuine ∧ e.kind ≠ .operation .assign

/-- A node that has no name, no number and no target. -/
theorem isSound_of_kind
    (h : e.kind ∉ [.identifier, .call, .arrayAcc, .structAcc, .int, .operation .assign]) :
    e.IsSound := by
  simp only [List.mem_cons, List.not_mem_nil, or_false, not_or] at h
  exact ⟨⟨by simp [h], by simp [h], by simp [h]⟩, h.2.2.2.2.2⟩

/-- Every node of a regular expression is genuine, and none of them assigns. -/
theorem Regular.sound (h : e.Regular False) : ∀ n ∈ e.nodes, n.IsSound := by
  have named {kind : ExprKind} {s : String} (args : List Expr) (pos : Pos) (hs : IsName s)
      (hk : kind ∈ [.identifier, .call, .arrayAcc]) :
      ({ kind, value := .text s, args, pos } : Expr).IsSound := by
    simp only [List.mem_cons, List.not_mem_nil, or_false] at hk
    rcases hk with rfl | rfl | rfl <;>
      exact ⟨⟨fun _ => ⟨s, rfl, hs⟩, by simp, by simp⟩, by simp⟩
  induction h with
  | none pos | string s pos hs | char c pos hc | bool b pos =>
    exact forall_nodes_leaf _ _ _ (isSound_of_kind (by simp))
  | int n pos hn =>
    exact forall_nodes_leaf _ _ _ ⟨⟨by simp, by simp, fun _ => ⟨n, rfl, hn⟩⟩, by simp⟩
  | identifier s pos hs => exact forall_nodes_leaf _ _ _ (named [] pos hs (by simp))
  | operation o l r pos ho _ _ _ ihl ihr =>
    have hroot : (Expr.operation o l r pos).IsSound :=
      isSound_of_kind (by simpa [Expr.operation] using ho)
    exact forall_nodes_operation hroot ihl ihr
  | list items pos _ _ ih =>
    exact forall_nodes (isSound_of_kind (by simp)) (fun _ ha => absurd ha List.not_mem_nil) ih
  | call s arg pos hs _ ih | arrayAcc s arg pos hs _ ih =>
    exact forall_nodes_access (named [arg] pos hs (by simp)) ih
  | structAcc s m pos mpos hs hm =>
    refine forall_nodes_access ?_ (forall_nodes_leaf _ _ _ (named [] mpos hm (by simp)))
    exact ⟨⟨fun _ => ⟨s, rfl, hs⟩, fun _ => ⟨_, rfl, rfl⟩, by simp⟩, by simp⟩

theorem Regular.genuine (h : e.Regular False) : ∀ n ∈ e.nodes, n.Genuine :=
  fun n hn => (h.sound n hn).1

theorem Regular.plain (h : e.Regular False) : e.Plain := fun n hn => (h.sound n hn).2

/-- An assignment whose sides are regular. -/
theorem genuine_assign {target value : Expr} {pos : Pos} (ht : target.Regular False)
    (hv : value.Regular False) : ∀ n ∈ (operation .assign target value pos).nodes, n.Genuine := by
  have hroot : (operation .assign target value pos).Genuine :=
    ⟨by simp [operation], by simp [operation], by simp [operation]⟩
  exact forall_nodes_operation hroot ht.genuine hv.genuine

theorem Initializes.declares {name : String} (h : e.Initializes False name) (hname : IsName name) :
    e.Declares name ∧ ∀ n ∈ e.nodes, n.Genuine := by
  cases h with
  | absent pos =>
    have hnone : (Expr.none pos).Regular False := .none pos
    exact ⟨.inl hnone.plain, hnone.genuine⟩
  | assign v pos tpos hv =>
    have htarget : (identifier (.text name) tpos).Regular False := .identifier name tpos hname
    refine ⟨.inr ⟨_, v, pos, rfl, ⟨tpos, rfl⟩, htarget.plain, hv.regular.plain⟩, ?_⟩
    exact genuine_assign htarget hv.regular

end Expr

/-! ## Statements -/

namespace Stmt

variable {s : Stmt}

/-- A statement that is genuine and holds a genuine expression. -/
def IsSound (s : Stmt) : Prop := s.Genuine ∧ ∀ n ∈ s.expr.nodes, n.Genuine

/-- A body has the block and the nodes of its statements. -/
theorem sound_bodyOf {ss : List Stmt} (pos : Pos) (h : ∀ s ∈ ss, ∀ n ∈ s.nodes, n.IsSound) :
    ∀ b ∈ bodyOf ss pos, ∀ n ∈ b.nodes, n.IsSound := by
  have hnone : (Expr.none ⟨0, 0⟩).Regular False := .none _
  have hblock : ({ Stmt.block ss with pos } : Stmt).IsSound :=
    ⟨⟨by simp [block], by simp [block], by simp [block], by simp [block], by simp [block],
      fun _ => hnone.plain, by simp [block], by simp [block]⟩, hnone.genuine⟩
  refine List.forall_mem_singleton.2 (forall_nodes hblock h ?_)
  exact fun _ hb => absurd hb List.not_mem_nil

/-- A clause is sound if its condition is regular and its body is sound. -/
theorem sound_clause {kind : StmtKind} {condition : Expr} {ss branches : List Stmt} {pos bpos : Pos}
    (hkind : kind ∈ [.while_, .if_, .elif_, .else_]) (hc : condition.Regular False)
    (hs : ∀ s ∈ ss, ∀ n ∈ s.nodes, n.IsSound)
    (hlast : ∀ bs (b : Stmt) cs, branches = bs ++ b :: cs → b.kind = .else_ → cs = [])
    (hb : ∀ b ∈ branches, ∀ n ∈ b.nodes, n.IsSound) :
    ∀ n ∈ ({ kind, expr := condition, statements := bodyOf ss bpos, branches, pos } : Stmt).nodes,
      n.IsSound := by
  refine forall_nodes ⟨?_, hc.genuine⟩ (sound_bodyOf bpos hs) hb
  simp only [List.mem_cons, List.not_mem_nil, or_false] at hkind
  rcases hkind with rfl | rfl | rfl | rfl <;>
    exact ⟨by simp, by simp, by simp, by simp, by simp, fun _ => hc.plain, by simp, fun _ => hlast⟩

/-- Behind a clause without condition a chain has come to its end. -/
theorem IsChain.last {branches : List Stmt} (h : IsChain branches) :
    ∀ bs (b : Stmt) cs, branches = bs ++ b :: cs → b.kind = .else_ → cs = [] := by
  induction h with
  | nil =>
    intro bs b cs heq
    simp at heq
  | elif condition ss pos bpos rest _ ih =>
    intro bs b cs heq hk
    rcases bs with _ | ⟨b', bs⟩
    · cases heq
      cases hk
    · exact ih bs b cs (List.cons.inj heq).2 hk
  | else_ ss epos pos bpos =>
    intro bs b cs heq _
    rcases bs with _ | ⟨b', bs⟩
    · exact (List.cons.inj heq).2.symm
    · exact absurd (List.cons.inj heq).2 (by simp)

/-- Every node of a regular statement is genuine. -/
theorem Regular.sound (h : s.Regular False) : ∀ n ∈ s.nodes, n.IsSound := by
  induction h with
  | varDec name scalar e pos hname he =>
    obtain ⟨hdeclares, hgenuine⟩ := he.declares hname
    refine forall_nodes_leaf ⟨?_, hgenuine⟩ rfl rfl
    exact ⟨by simp, fun _ => hname, by simp, by simp, fun _ => hdeclares, by simp, by simp, by simp⟩
  | arrayDec name scalar e pos hname he =>
    refine forall_nodes_leaf ⟨?_, he.genuine⟩ rfl rfl
    exact ⟨by simp, fun _ => hname, by simp, by simp, by simp, fun _ => he.plain, by simp, by simp⟩
  | structDec name type pos tpos hname htype =>
    have he : (Expr.identifier (.text type) tpos).Regular False := .identifier type tpos htype
    refine forall_nodes_leaf ⟨?_, he.genuine⟩ rfl rfl
    exact ⟨by simp, fun _ => hname, by simp, by simp, by simp, fun _ => he.plain, fun _ => rfl,
      by simp⟩
  | exprStmt target v pos apos _ ht hv =>
    refine forall_nodes_leaf ⟨?_, Expr.genuine_assign ht hv.regular⟩ rfl rfl
    have hassigns : (Expr.operation .assign target v apos).AssignsTo fun _ => True :=
      ⟨target, v, apos, rfl, trivial, ht.plain, hv.regular.plain⟩
    exact ⟨by simp, by simp, by simp, fun _ => hassigns, by simp, by simp, by simp, by simp⟩
  | callStmt name e pos hname he =>
    refine forall_nodes_leaf ⟨?_, he.genuine⟩ rfl rfl
    exact ⟨by simp, fun _ => hname, by simp, by simp, by simp, fun _ => he.plain, by simp, by simp⟩
  | return_ e pos he =>
    refine forall_nodes_leaf ⟨?_, he.genuine⟩ rfl rfl
    exact ⟨by simp, by simp, by simp, by simp, by simp, fun _ => he.plain, by simp, by simp⟩
  | break_ epos pos | continue_ epos pos =>
    have he : (Expr.none epos).Regular False := .none epos
    refine forall_nodes_leaf ⟨?_, he.genuine⟩ rfl rfl
    exact ⟨by simp, by simp, by simp, by simp, by simp, fun _ => he.plain, by simp, by simp⟩
  | while_ condition ss pos bpos hc _ ih =>
    exact sound_clause (by simp) hc ih (by simp) (by simp)
  | if_ condition ss branches pos bpos hc _ hchain hconditions _ ih ihbodies =>
    refine sound_clause (by simp) hc ih hchain.last fun b hb => ?_
    have hinner := ihbodies b hb
    have hcondition := hconditions b hb
    obtain ⟨c, cs, cpos, cbpos, rfl⟩ | ⟨cs, epos, cpos, cbpos, rfl⟩ := hchain.mem hb
    · rw [inner_body] at hinner
      exact sound_clause (by simp) hcondition hinner (by simp) (by simp)
    · rw [inner_body] at hinner
      exact sound_clause (by simp) hcondition hinner (by simp) (by simp)

end Stmt

/-! ## Files -/

namespace File

variable {f : File}

/-- The statements of a regular file are sound. -/
theorem Regular.sound_stmts (h : f.Regular False) : ∀ s ∈ f.stmts, s.IsSound := by
  intro s hs
  obtain ⟨g, hg, hs⟩ := List.mem_flatMap.1 hs
  obtain ⟨ss, pos, hblock, hss⟩ := (h.functions g hg).block
  refine Stmt.sound_bodyOf pos (fun s hs => (hss s hs).sound) _ List.mem_cons_self s ?_
  rwa [← hblock]

theorem Regular.constant (h : f.Regular False) : ∀ c ∈ f.constants, c.IsConstant False := by
  refine List.forall_mem_append.2 ⟨h.consts, fun c hc => ?_⟩
  obtain ⟨g, hg, hc⟩ := List.mem_flatMap.1 hc
  exact (h.functions g hg).consts c hc

/-- What is declared in a regular file has a name, a type and a genuine value. -/
theorem Regular.declared (h : f.Regular False) :
    ∀ t ∈ f.typedNames, t.Declared ∧ ∀ n ∈ t.expr.nodes, n.Genuine := by
  refine List.forall_mem_append.2 ⟨fun c hc => ?_, List.forall_mem_append.2 ⟨?_, ?_⟩⟩
  · exact ⟨(h.constant c hc).toDeclared, (h.constant c hc).value.genuine⟩
  · intro t ht
    obtain ⟨s, hs, ht⟩ := List.mem_flatMap.1 ht
    have hitem := (h.structs s hs).items t ht
    exact ⟨hitem.toDeclared, (hitem.value.declares hitem.name).2⟩
  · intro a ha
    obtain ⟨g, hg, ha⟩ := List.mem_flatMap.1 ha
    have hparam := (h.functions g hg).args a ha
    obtain ⟨pos, hbare⟩ := hparam.bare
    have hnone : (Expr.none pos).Regular False := .none pos
    exact ⟨hparam.toDeclared, hbare ▸ hnone.genuine⟩

/-- A regular file whose lists have items is genuine. -/
theorem Regular.genuine (h : f.Regular False)
    (hlists : ∀ e ∈ f.exprs, e.kind = .list → e.items ≠ []) : f.Genuine := by
  constructor
  case functions => exact fun g hg => (h.functions g hg).name
  case structs => exact fun s hs => (h.structs s hs).name
  case declared =>
    intro t ht
    obtain ⟨hname, scalar, htype⟩ := (h.declared t ht).1
    exact ⟨hname, by simp [htype]⟩
  case constants => exact fun c hc => (h.constant c hc).value.plain
  case args =>
    intro g hg a ha
    obtain ⟨pos, hbare⟩ := ((h.functions g hg).args a ha).bare
    have hnone : (Expr.none pos).Regular False := .none pos
    exact hbare ▸ hnone.plain
  case items =>
    intro s hs t ht
    have hitem := (h.structs s hs).items t ht
    exact (hitem.value.declares hitem.name).1
  case stmts => exact fun s hs => (h.sound_stmts s hs).1
  case exprs =>
    intro e he
    obtain ⟨root, hroot, he⟩ := List.mem_flatMap.1 he
    rcases List.mem_append.1 hroot with hroot | hroot
    · obtain ⟨t, ht, rfl⟩ := List.mem_map.1 hroot
      exact (h.declared t ht).2 e he
    · obtain ⟨s, hs, rfl⟩ := List.mem_map.1 hroot
      exact (h.sound_stmts s hs).2 e he
  case lists => exact hlists

end File

/-! ## Texts -/

/-- Where only lists without items weigh something, tokens weigh nothing: there are none. -/
theorem File.lists_of_parse {source name : String} {f : File} {s : Session}
    (h : parse source name = (.ok f, s)) (hquiet : s.diagnostics.items = #[]) :
    ∀ e ∈ f.exprs, e.kind = .list → e.items ≠ [] := by
  let w : Weighing := { hollow := 1 }
  have htoken (t : Token) : w.token t = 0 := by
    unfold Weighing.token
    split <;> try rfl
    unfold Weighing.kind
    split <;> rfl
  have htokens (ts : List Token) : w.tokens ts = 0 := by
    induction ts with
    | nil => rfl
    | cons t ts ih => rw [Weighing.tokens_cons, htoken, ih]
  have hfile : w.file f = 0 := (weighs_file w rfl rfl h hquiet).symm.trans (htokens _)
  have hnodes : (f.exprs.map w.node).sum = 0 := by
    rw [Weighing.file_eq] at hfile
    omega
  intro e he hk hitems
  have hnode : w.node e = 0 :=
    List.sum_eq_zero_iff_forall_eq_nat.1 hnodes _ (List.mem_map_of_mem he)
  simp [Weighing.node, hk, hitems, w] at hnode

/-- **What a text is parsed as without a report holds nothing that stands in for something that
could not be read.** -/
theorem File.genuine_of_parse {source name : String} {f : File} {s : Session}
    (h : parse source name = (.ok f, s)) (hquiet : s.diagnostics.items = #[]) : f.Genuine :=
  (File.regular_of_parse h hquiet).genuine (File.lists_of_parse h hquiet)

theorem genuine_initialized :
    ∃ f s, parse "func f(n: u8) is var x: u8 := g(n, 1); end" = (.ok f, s) ∧
      s.diagnostics.items = #[] ∧ f.Genuine := by
  have hquiet : (parse
      "func f(n: u8) is var x: u8 := g(n, 1); end").2.diagnostics.items = #[] := rfl
  obtain ⟨f, hf⟩ | ⟨e, he⟩ := parse_ends "func f(n: u8) is var x: u8 := g(n, 1); end" ""
  · exact ⟨f, _, Prod.ext hf rfl, hquiet, File.genuine_of_parse (Prod.ext hf rfl) hquiet⟩
  · cases he

end ToyLang
