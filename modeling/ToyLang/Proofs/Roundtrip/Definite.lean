import ToyLang.Proofs.Roundtrip.Tokens

/-!
# Definite trees are read as themselves

On regular trees, to be read as itself is to be definite (`reread_iff`, for expressions, statements
and files). The one case with an argument is the list of one item: what it is read as is no larger
than the item, hence not the list.
-/

set_option autoImplicit false

namespace ToyLang

variable {definite : Prop}

/-! ## Forgetting definiteness -/

theorem Expr.Regular.weaken {e : Expr} (h : e.Regular definite) : e.Regular False := by
  induction h with
  | none pos => exact .none pos
  | int n pos h => exact .int n pos h
  | string s pos h => exact .string s pos h
  | char c pos h => exact .char c pos h
  | bool b pos => exact .bool b pos
  | identifier s pos h => exact .identifier s pos h
  | operation o l r pos ho _ _ _ ihl ihr => exact .operation o l r pos ho ihl ihr False.elim
  | list items pos _ _ ih => exact .list items pos ih False.elim
  | call s arg pos h _ ih => exact .call s arg pos h ih
  | arrayAcc s arg pos h _ ih => exact .arrayAcc s arg pos h ih
  | structAcc s m pos mpos h hm => exact .structAcc s m pos mpos h hm

theorem Expr.Assigned.weaken {v : Expr} (h : v.Assigned definite) : v.Assigned False :=
  ⟨h.regular.weaken, False.elim⟩

theorem Expr.Initializes.weaken {e : Expr} {name : String} (h : e.Initializes definite name) :
    e.Initializes False name := by
  cases h with
  | absent pos => exact .absent pos
  | assign v pos tpos h => exact .assign v pos tpos h.weaken

theorem Stmt.Regular.weaken {s : Stmt} (h : s.Regular definite) : s.Regular False := by
  induction h with
  | varDec name s e pos h he => exact .varDec name s e pos h he.weaken
  | arrayDec name s e pos h he => exact .arrayDec name s e pos h he.weaken
  | structDec name type pos tpos h htype => exact .structDec name type pos tpos h htype
  | exprStmt target v pos apos htarget ht hv =>
    exact .exprStmt target v pos apos htarget ht.weaken hv.weaken
  | callStmt name e pos h he => exact .callStmt name e pos h he.weaken
  | return_ e pos he => exact .return_ e pos he.weaken
  | break_ epos pos => exact .break_ epos pos
  | continue_ epos pos => exact .continue_ epos pos
  | while_ condition ss pos bpos hc _ ih => exact .while_ condition ss pos bpos hc.weaken ih
  | if_ condition ss branches pos bpos hc _ hchain hconds _ ih ihb =>
    exact .if_ condition ss branches pos bpos hc.weaken ih hchain
      (fun b hb => (hconds b hb).weaken) ihb

theorem TypedName.IsConstant.weaken {t : TypedName} (h : t.IsConstant definite) :
    t.IsConstant False := ⟨h.toDeclared, h.value.weaken⟩

theorem TypedName.IsItem.weaken {t : TypedName} (h : t.IsItem definite) : t.IsItem False :=
  ⟨h.toDeclared, h.value.weaken⟩

theorem Function.Regular.weaken {f : Function} (h : f.Regular definite) : f.Regular False := by
  obtain ⟨ss, pos, hblock, hss⟩ := h.block
  exact ⟨h.name, h.args, fun c hc => (h.consts c hc).weaken,
    ss, pos, hblock, fun s hs => (hss s hs).weaken⟩

theorem Struct.Regular.weaken {s : Struct} (h : s.Regular definite) : s.Regular False :=
  ⟨h.name, fun t ht => (h.items t ht).weaken⟩

theorem IsPath.weaken {path : String} (h : IsPath definite path) : IsPath False path :=
  fun w hw => (h w hw).imp_right fun h => ⟨h.1, False.elim⟩

theorem File.Regular.weaken {f : File} (h : f.Regular definite) : f.Regular False where
  functions g hg := (h.functions g hg).weaken
  structs s hs := (h.structs s hs).weaken
  consts c hc := (h.consts c hc).weaken
  imports path hp := (h.imports path hp).weaken

/-! ## Expressions -/

namespace Expr

theorem rereadItems_cons_cons (e e' : Expr) (es : List Expr) :
    rereadItems (e :: e' :: es) =
      if e.isNone then Option.none
      else do return (← reread e) :: (← rereadItems (e' :: es)) := rfl

theorem reread_operation (o : Operator) (l r : Expr) (pos : Pos) :
    (operation o l r pos).reread =
      if l.isNone ∨ r.isNone then Option.none
      else do return .operation o (← reread l) (← reread r) ⟨0, 0⟩ := rfl

theorem reread_list (e e' : Expr) (es : List Expr) (pos : Pos) :
    reread { kind := .list, items := e :: e' :: es, pos } =
      (rereadItems (e :: e' :: es)).map fun items => { kind := .list, items } := by
  rw [Option.map_eq_bind]
  rfl

theorem reread_access (kind : ExprKind) (hk : kind = .call ∨ kind = .arrayAcc) (name : Value)
    (arg : Expr) (pos : Pos) :
    (Parser.accessExpr kind name arg pos).reread =
      arg.reread.map fun arg => Parser.accessExpr kind name arg ⟨0, 0⟩ := by
  rw [Option.map_eq_bind]
  rcases hk with rfl | rfl <;> rfl

theorem unplaced_access (kind : ExprKind) (name : Value) (arg : Expr) (pos : Pos) :
    (Parser.accessExpr kind name arg pos).unplaced =
      Parser.accessExpr kind name arg.unplaced ⟨0, 0⟩ := unplaced_mk ..

/-- What items are read as is no larger than they are. -/
theorem sizeOf_rereadItems {es es' : List Expr}
    (ih : ∀ e ∈ es, ∀ e', e.reread = some e' → sizeOf e' ≤ sizeOf e.unplaced)
    (h : rereadItems es = some es') : sizeOf es' ≤ sizeOf (es.map unplaced) := by
  induction es generalizing es' with
  | nil => cases h; simp
  | cons e es ihes =>
    have he := ih e List.mem_cons_self
    cases es with
    | nil =>
      rw [rereadItems] at h
      split at h
      · cases h; simp
      · obtain ⟨x, hx, hes⟩ := Option.bind_eq_some_iff.1 h
        cases hes
        have := he x hx
        simp only [List.map_cons, List.map_nil, List.cons.sizeOf_spec]
        omega
    | cons e' es =>
      rw [rereadItems_cons_cons] at h
      split at h
      · cases h
      · obtain ⟨x, hx, h⟩ := Option.bind_eq_some_iff.1 h
        obtain ⟨xs, hxs, h⟩ := Option.bind_eq_some_iff.1 h
        cases h
        have := he x hx
        have := ihes (fun d hd => ih d (List.mem_cons_of_mem e hd)) hxs
        simp only [List.map_cons, List.cons.sizeOf_spec] at this ⊢
        omega

/-- What an expression is read as is no larger than the expression. -/
theorem sizeOf_reread {e e' : Expr} (h : e.Regular False) (he : e.reread = some e') :
    sizeOf e' ≤ sizeOf e.unplaced := by
  induction h generalizing e' with
  | none pos | int n pos h | string s pos h | char c pos h | bool b pos | identifier s pos h
  | structAcc s m pos mpos h hm =>
    cases he
    exact Nat.le_refl _
  | operation o l r pos ho _ _ _ ihl ihr =>
    rw [reread_operation] at he
    split at he
    · cases he
    · obtain ⟨l', hl, he⟩ := Option.bind_eq_some_iff.1 he
      obtain ⟨r', hr, he⟩ := Option.bind_eq_some_iff.1 he
      cases he
      have := ihl hl
      have := ihr hr
      rw [unplaced_operation]
      simp only [operation, mk.sizeOf_spec, List.cons.sizeOf_spec]
      omega
  | list items pos _ _ ih =>
    rw [unplaced_mk]
    match items, he with
    | [], he =>
      cases he
      simp [Expr.none]
    | [e], he =>
      have := ih e List.mem_cons_self he
      simp only [mk.sizeOf_spec, List.map_cons, List.cons.sizeOf_spec]
      omega
    | e :: e' :: es, he =>
      obtain ⟨xs, hxs, he⟩ := Option.bind_eq_some_iff.1 he
      cases he
      have := sizeOf_rereadItems ih hxs
      simp only [mk.sizeOf_spec, List.map_nil] at this ⊢
      omega
  | call s arg pos h _ ih | arrayAcc s arg pos h _ ih =>
    rw [reread_access _ (by simp)] at he
    obtain ⟨arg', harg, rfl⟩ := Option.map_eq_some_iff.1 he
    have := ih harg
    rw [unplaced_access]
    simp only [Parser.accessExpr, mk.sizeOf_spec, List.cons.sizeOf_spec]
    omega

/-- Items are read as themselves if each of them is present and read as itself. -/
theorem rereadItems_eq_iff {es : List Expr} :
    rereadItems es = some (es.map unplaced) ↔
      ∀ e ∈ es, e.isNone = false ∧ e.reread = some e.unplaced := by
  induction es with
  | nil => simp [rereadItems]
  | cons e es ih =>
    cases es with
    | nil =>
      rw [rereadItems]
      cases hnone : e.isNone <;> simp [hnone, Option.bind_eq_some_iff]
    | cons e' es =>
      rw [rereadItems_cons_cons, List.forall_mem_cons, ← ih]
      cases hnone : e.isNone <;> simp [Option.bind_eq_some_iff]

theorem reread_operation_iff {o : Operator} {l r : Expr} {pos : Pos} :
    (operation o l r pos).reread = some (operation o l r pos).unplaced ↔
      (l.reread = some l.unplaced ∧ r.reread = some r.unplaced) ∧
        l.isNone = false ∧ r.isNone = false := by
  rw [reread_operation, unplaced_operation]
  cases hl : l.isNone <;> cases hr : r.isNone <;> simp [Option.bind_eq_some_iff, operation]

theorem reread_access_iff {kind : ExprKind} (hk : kind = .call ∨ kind = .arrayAcc) {name : Value}
    {arg : Expr} {pos : Pos} :
    (Parser.accessExpr kind name arg pos).reread =
        some (Parser.accessExpr kind name arg pos).unplaced ↔
      arg.reread = some arg.unplaced := by
  rw [reread_access kind hk, unplaced_access]
  simp [Option.map_eq_some_iff, Parser.accessExpr]

/-- An item is not read as the list it is alone in: that one is larger. -/
theorem reread_ne_singleton {e : Expr} (h : e.Regular False) (pos : Pos) :
    e.reread ≠ some (unplaced { kind := .list, items := [e], pos }) := by
  intro he
  have := sizeOf_reread h he
  rw [unplaced_mk] at this
  simp only [mk.sizeOf_spec, List.map_cons, List.map_nil, List.cons.sizeOf_spec] at this
  omega

theorem reread_list_iff {items : List Expr} (h : ∀ e ∈ items, e.Regular False) {pos : Pos} :
    reread { kind := .list, items, pos } = some (unplaced { kind := .list, items, pos }) ↔
      2 ≤ items.length ∧ ∀ e ∈ items, e.isNone = false ∧ e.reread = some e.unplaced := by
  match items with
  | [] =>
    rw [unplaced_mk]
    exact ⟨fun he => (nomatch he), fun he => absurd he.1 (by simp)⟩
  | [e] =>
    have hne := reread_ne_singleton (h e List.mem_cons_self) pos
    exact ⟨fun he => absurd he hne, fun he => absurd he.1 (by simp)⟩
  | e :: e' :: es =>
    rw [reread_list, unplaced_mk, ← rereadItems_eq_iff]
    simp [Option.map_eq_some_iff]

theorem reread_iff {e : Expr} (h : e.Regular False) :
    e.reread = some e.unplaced ↔ e.Regular True := by
  induction h with
  | none pos => exact ⟨fun _ => .none pos, fun _ => rfl⟩
  | int n pos h => exact ⟨fun _ => .int n pos h, fun _ => rfl⟩
  | string s pos h => exact ⟨fun _ => .string s pos h, fun _ => rfl⟩
  | char c pos h => exact ⟨fun _ => .char c pos h, fun _ => rfl⟩
  | bool b pos => exact ⟨fun _ => .bool b pos, fun _ => rfl⟩
  | identifier s pos h => exact ⟨fun _ => .identifier s pos h, fun _ => rfl⟩
  | structAcc s m pos mpos h hm => exact ⟨fun _ => .structAcc s m pos mpos h hm, fun _ => rfl⟩
  | operation o l r pos ho _ _ _ ihl ihr =>
    rw [reread_operation_iff, ihl, ihr]
    constructor
    · rintro ⟨⟨hl, hr⟩, hpresent⟩
      exact .operation o l r pos ho hl hr fun _ => hpresent
    · intro he
      cases he with
      | operation _ _ _ _ _ hl hr hdef => exact ⟨⟨hl, hr⟩, hdef trivial⟩
  | list items pos hitems _ ih =>
    rw [reread_list_iff hitems]
    constructor
    · rintro ⟨hlen, hall⟩
      exact .list items pos (fun e he => (ih e he).1 (hall e he).2)
        fun _ => ⟨hlen, fun e he => (hall e he).1⟩
    · intro he
      cases he with
      | list _ _ h hdef =>
        obtain ⟨hlen, hpresent⟩ := hdef trivial
        exact ⟨hlen, fun e he => ⟨hpresent e he, (ih e he).2 (h e he)⟩⟩
  | call s arg pos h _ ih =>
    refine (reread_access_iff (.inl rfl)).trans (ih.trans ⟨fun harg => .call s arg pos h harg, ?_⟩)
    intro he
    cases he
    assumption
  | arrayAcc s arg pos h _ ih =>
    refine (reread_access_iff (.inr rfl)).trans
      (ih.trans ⟨fun harg => .arrayAcc s arg pos h harg, ?_⟩)
    intro he
    cases he
    assumption

/-- A value is read as itself behind an assignment if it is definite, present and no list. -/
theorem rereadAssigned_iff {v : Expr} (h : v.Regular False) :
    v.rereadAssigned = some v.unplaced ↔ v.Assigned True := by
  unfold rereadAssigned
  split
  · next hnone =>
    refine ⟨fun hv => (nomatch hv), fun hv => ?_⟩
    rw [(hv.shown trivial).1] at hnone
    cases hnone
  next hnone =>
  split
  · next hlist =>
    refine ⟨fun hv => ?_, fun hv => absurd hlist (hv.shown trivial).2⟩
    cases h with
    | list items pos hitems _ =>
      match items, hv with
      | [e], hv =>
        dsimp only at hv
        split at hv
        · cases hv
        · exact absurd hv (reread_ne_singleton (hitems e List.mem_cons_self) pos)
    | _ => cases hlist
  · next hlist =>
    rw [reread_iff h]
    exact ⟨fun hv => ⟨hv, fun _ => ⟨by simpa using hnone, hlist⟩⟩, fun hv => hv.regular⟩

theorem rereadAssignment_iff {t v : Expr} (ht : t.Regular False) (hv : v.Regular False) :
    rereadAssignment t v = some (operation .assign t.unplaced v.unplaced ⟨0, 0⟩) ↔
      t.Regular True ∧ v.Assigned True := by
  rw [← reread_iff ht, ← rereadAssigned_iff hv]
  simp [rereadAssignment, Option.bind_eq_some_iff, operation]

theorem rereadInitializer_iff {e : Expr} {name : String} (hname : IsName name)
    (h : e.Initializes False name) :
    e.rereadInitializer = some e.unplaced ↔ e.Initializes True name := by
  cases h with
  | absent pos => exact ⟨fun _ => .absent pos, fun _ => rfl⟩
  | assign v pos tpos hv =>
    rw [unplaced_operation]
    refine (rereadAssignment_iff (.identifier name tpos hname) hv.regular).trans ?_
    constructor
    · exact fun ⟨_, hv⟩ => .assign v pos tpos hv
    · intro h
      cases h with
      | assign _ _ _ hv => exact ⟨.identifier name tpos hname, hv⟩

end Expr

/-! ## Statements -/

namespace Stmt

theorem rereadAll_eq_iff {ss : List Stmt} :
    rereadAll ss = some (ss.map unplaced) ↔ ∀ s ∈ ss, s.reread = some s.unplaced := by
  induction ss with
  | nil => simp [rereadAll]
  | cons s ss ih =>
    rw [rereadAll, List.forall_mem_cons, ← ih]
    simp [Option.bind_eq_some_iff]

/-- Statements that neither assign nor lack a condition are read part by part. -/
theorem reread_parts_iff {s : Stmt} (hk : s.kind ∉ [.varDec, .exprStmt, .else_]) :
    s.reread = some s.unplaced ↔ s.expr.reread = some s.expr.unplaced ∧
      (∀ t ∈ s.statements, t.reread = some t.unplaced) ∧
        ∀ b ∈ s.branches, b.reread = some b.unplaced := by
  rw [← rereadAll_eq_iff, ← rereadAll_eq_iff]
  obtain ⟨kind, name, dataType, expr, statements, branches, pos⟩ := s
  have hread : reread ⟨kind, name, dataType, expr, statements, branches, pos⟩ =
      expr.reread.bind fun e => (rereadAll statements).bind fun ss =>
        (rereadAll branches).bind fun bs => some ⟨kind, name, dataType, e, ss, bs, ⟨0, 0⟩⟩ := by
    cases kind <;> first | rfl | simp at hk
  rw [hread, unplaced_mk]
  cases expr.reread <;> cases rereadAll statements <;> cases rereadAll branches <;> simp

theorem reread_body_iff (ss : List Stmt) (pos : Pos) :
    (∀ t ∈ bodyOf ss pos, t.reread = some t.unplaced) ↔
      ∀ s ∈ ss, s.reread = some s.unplaced := by
  rw [bodyOf, List.forall_mem_singleton, reread_parts_iff (by simp [block])]
  exact ⟨fun h => h.2.1, fun h => ⟨rfl, h, fun b hb => by cases hb⟩⟩

/-- A clause is read as itself if its condition and the statements in it are. -/
theorem reread_clause_iff {bs : List Stmt} (h : IsChain bs) {b : Stmt} (hb : b ∈ bs) :
    b.reread = some b.unplaced ↔
      b.expr.reread = some b.expr.unplaced ∧ ∀ s ∈ b.inner, s.reread = some s.unplaced := by
  obtain ⟨condition, ss, pos, bpos, rfl⟩ | ⟨ss, epos, pos, bpos, rfl⟩ := h.mem hb
  · rw [inner_body, reread_parts_iff (by simp), reread_body_iff]
    simp
  · rw [inner_body, ← reread_body_iff ss bpos, ← rereadAll_eq_iff, unplaced_mk]
    simp [reread, Expr.reread, Expr.none, Expr.unplaced_mk, Option.bind_eq_some_iff]

theorem reread_varDec_iff {name : String} {dataType : DataType} {e : Expr} {pos : Pos} :
    reread { kind := .varDec, name, dataType, expr := e, pos } =
        some (unplaced { kind := .varDec, name, dataType, expr := e, pos }) ↔
      e.rereadInitializer = some e.unplaced := by
  simp [reread, unplaced_mk, Option.bind_eq_some_iff]

theorem reread_exprStmt_iff {target v : Expr} {pos apos : Pos} :
    reread { kind := .exprStmt, expr := .operation .assign target v apos, pos } =
        some (unplaced { kind := .exprStmt, expr := .operation .assign target v apos, pos }) ↔
      Expr.rereadAssignment target v =
        some (.operation .assign target.unplaced v.unplaced ⟨0, 0⟩) := by
  simp [reread, unplaced_mk, Expr.rereadInitializer, Expr.operation, Expr.unplaced_mk,
    Option.bind_eq_some_iff]

/-- A statement without inner ones is read as itself if its expression is. -/
theorem reread_expr_iff {kind : StmtKind} (hk : kind ∉ [.varDec, .exprStmt, .else_])
    {name : String} {dataType : DataType} {e : Expr} (he : e.Regular False) {pos : Pos} :
    reread { kind, name, dataType, expr := e, pos } =
        some (unplaced { kind, name, dataType, expr := e, pos }) ↔
      e.Regular True := by
  rw [reread_parts_iff hk, Expr.reread_iff he]
  simp

theorem reread_iff {s : Stmt} (h : s.Regular False) :
    s.reread = some s.unplaced ↔ s.Regular True := by
  induction h with
  | varDec name s e pos h he =>
    rw [reread_varDec_iff, Expr.rereadInitializer_iff h he]
    exact ⟨fun he => .varDec name s e pos h he, fun hs => by cases hs; assumption⟩
  | arrayDec name s e pos h he =>
    rw [reread_expr_iff (by simp) he]
    exact ⟨fun he => .arrayDec name s e pos h he, fun hs => by cases hs; assumption⟩
  | structDec name type pos tpos h htype =>
    exact ⟨fun _ => .structDec name type pos tpos h htype, fun _ => rfl⟩
  | exprStmt target v pos apos htarget ht hv =>
    rw [reread_exprStmt_iff, Expr.rereadAssignment_iff ht hv.regular]
    refine ⟨fun hs => .exprStmt target v pos apos htarget hs.1 hs.2, fun hs => ?_⟩
    cases hs
    exact ⟨by assumption, by assumption⟩
  | callStmt name e pos h he =>
    rw [reread_expr_iff (by simp) he]
    exact ⟨fun he => .callStmt name e pos h he, fun hs => by cases hs; assumption⟩
  | return_ e pos he =>
    rw [reread_expr_iff (by simp) he]
    exact ⟨fun he => .return_ e pos he, fun hs => by cases hs; assumption⟩
  | break_ epos pos => exact ⟨fun _ => .break_ epos pos, fun _ => rfl⟩
  | continue_ epos pos => exact ⟨fun _ => .continue_ epos pos, fun _ => rfl⟩
  | while_ condition ss pos bpos hc hs ih =>
    rw [reread_parts_iff (by simp), Expr.reread_iff hc]
    dsimp only
    rw [reread_body_iff]
    constructor
    · rintro ⟨hc, hs, -⟩
      exact .while_ condition ss pos bpos hc fun s hm => (ih s hm).1 (hs s hm)
    · intro hs
      cases hs with
      | while_ _ _ _ _ hc hs => exact ⟨hc, fun s hm => (ih s hm).2 (hs s hm), by simp⟩
  | if_ condition ss branches pos bpos hc hs hchain hconds hbodies ih ihb =>
    rw [reread_parts_iff (by simp), Expr.reread_iff hc]
    dsimp only
    rw [reread_body_iff]
    constructor
    · rintro ⟨hc, hs, hb⟩
      have hb b hm := (reread_clause_iff hchain hm).1 (hb b hm)
      refine .if_ condition ss branches pos bpos hc (fun s hm => (ih s hm).1 (hs s hm)) hchain ?_ ?_
      · exact fun b hm => (Expr.reread_iff (hconds b hm)).1 (hb b hm).1
      · exact fun b hm s hs => (ihb b hm s hs).1 ((hb b hm).2 s hs)
    · intro hs
      cases hs with
      | if_ _ _ _ _ _ hc hs _ hconds' hbodies' =>
        refine ⟨hc, fun s hm => (ih s hm).2 (hs s hm), fun b hm => ?_⟩
        refine (reread_clause_iff hchain hm).2 ⟨?_, fun s hs => (ihb b hm s hs).2 ?_⟩
        · exact (Expr.reread_iff (hconds b hm)).2 (hconds' b hm)
        · exact hbodies' b hm s hs

end Stmt

/-! ## Declarations and files -/

/-- A row is read as itself if its members are. -/
theorem mapM_eq_iff {α : Type} {f : α → Option α} {g : α → α} {as : List α} :
    as.mapM f = some (as.map g) ↔ ∀ a ∈ as, f a = some (g a) := by
  induction as with
  | nil => simp
  | cons a as ih =>
    rw [List.mapM_cons, List.forall_mem_cons, ← ih]
    simp [Option.bind_eq_some_iff]

/-- Members of a row that are read as themselves under a condition each. -/
theorem mapM_eq_iff_forall {α : Type} {f : α → Option α} {g : α → α} {P : α → Prop} {as : List α}
    (h : ∀ a ∈ as, f a = some (g a) ↔ P a) : as.mapM f = some (as.map g) ↔ ∀ a ∈ as, P a :=
  mapM_eq_iff.trans ⟨fun hf a ha => (h a ha).1 (hf a ha), fun hp a ha => (h a ha).2 (hp a ha)⟩

theorem TypedName.rereadConst_iff {t : TypedName} (h : t.IsConstant False) :
    t.rereadConst = some t.unplaced ↔ t.IsConstant True := by
  have hread : t.rereadConst = some t.unplaced ↔ t.expr.reread = some t.expr.unplaced := by
    simp [rereadConst, unplaced, Option.bind_eq_some_iff]
  rw [hread, Expr.reread_iff h.value]
  exact ⟨fun hv => ⟨h.toDeclared, hv⟩, fun ht => ht.value⟩

theorem TypedName.rereadItem_iff {t : TypedName} (h : t.IsItem False) :
    t.rereadItem = some t.unplaced ↔ t.IsItem True := by
  have hread : t.rereadItem = some t.unplaced ↔
      t.expr.rereadInitializer = some t.expr.unplaced := by
    simp [rereadItem, unplaced, Option.bind_eq_some_iff]
  rw [hread, Expr.rereadInitializer_iff h.name h.value]
  exact ⟨fun hv => ⟨h.toDeclared, hv⟩, fun ht => ht.value⟩

theorem Struct.reread_iff {s : Struct} (h : s.Regular False) :
    s.reread = some s.unplaced ↔ s.Regular True := by
  have hread : s.reread = some s.unplaced ↔
      s.items.mapM TypedName.rereadItem = some (s.items.map TypedName.unplaced) := by
    simp [reread, unplaced, Option.bind_eq_some_iff]
  rw [hread, mapM_eq_iff_forall fun t ht => TypedName.rereadItem_iff (h.items t ht)]
  exact ⟨fun hi => ⟨h.name, hi⟩, fun hs => hs.items⟩

theorem Function.reread_iff {f : Function} (h : f.Regular False) :
    f.reread = some f.unplaced ↔ f.Regular True := by
  obtain ⟨ss, pos, hblock, hss⟩ := h.block
  have hread : f.reread = some f.unplaced ↔
      f.consts.mapM TypedName.rereadConst = some (f.consts.map TypedName.unplaced) ∧
        f.block.reread = some f.block.unplaced := by
    simp [reread, unplaced, Option.bind_eq_some_iff]
  have hbody : f.block.reread = some f.block.unplaced ↔ ∀ s ∈ ss, s.Regular True := by
    rw [hblock, Stmt.reread_parts_iff (by simp [Stmt.block])]
    constructor
    · exact fun hb s hs => (Stmt.reread_iff (hss s hs)).1 (hb.2.1 s hs)
    · intro hb
      refine ⟨rfl, fun s hs => ?_, by simp [Stmt.block]⟩
      exact (Stmt.reread_iff (hss s hs)).2 (hb s hs)
  rw [hread, hbody, mapM_eq_iff_forall fun c hc => TypedName.rereadConst_iff (h.consts c hc)]
  constructor
  · rintro ⟨hc, hb⟩
    exact ⟨h.name, h.args, hc, ss, pos, hblock, hb⟩
  · intro hf
    obtain ⟨ss', pos', hblock', hss'⟩ := hf.block
    have : ss' = ss := congrArg Stmt.statements (hblock'.symm.trans hblock)
    exact ⟨hf.consts, this ▸ hss'⟩

theorem rereadImport_iff {path : String} (h : IsPath False path) :
    rereadImport path = some path ↔ IsPath True path := by
  have hword (w : List Char) (hw : IsWord w) :
      TokenKind.ofWord (String.ofList w) = .ident ↔ IsName (String.ofList w) :=
    (isName_iff (by rwa [String.toList_ofList])).symm
  unfold rereadImport
  constructor
  · intro hread w hm
    split at hread
    · next hall =>
      rcases h w hm with rfl | ⟨hw, -⟩
      · exact .inl rfl
      · exact (hall w hm).imp_right fun hk => ⟨hw, fun _ => (hword w hw).1 hk⟩
    · cases hread
  · intro hpath
    rw [if_pos fun w hm => (hpath w hm).imp_right fun hw => (hword w hw.1).2 (hw.2 trivial)]

/-- **A regular file is read as itself if it is canonical.** -/
theorem File.reread_iff {f : File} (h : f.Regular False) :
    f.reread = some f.unplaced ↔ f.Canonical := by
  have hread : f.reread = some f.unplaced ↔
      f.functions.mapM Function.reread = some (f.functions.map Function.unplaced) ∧
      f.structs.mapM Struct.reread = some (f.structs.map Struct.unplaced) ∧
      f.consts.mapM TypedName.rereadConst = some (f.consts.map TypedName.unplaced) ∧
      f.imports.mapM rereadImport = some (f.imports.map id) := by
    unfold reread unplaced
    rw [List.map_id]
    cases f.imports.mapM rereadImport <;> cases f.consts.mapM TypedName.rereadConst <;>
      cases f.structs.mapM Struct.reread <;> cases f.functions.mapM Function.reread <;>
        simp [and_comm]
  have himports := mapM_eq_iff_forall (f := rereadImport) (g := id)
    fun p hp => rereadImport_iff (h.imports p hp)
  rw [hread, himports, mapM_eq_iff_forall fun c hc => TypedName.rereadConst_iff (h.consts c hc),
    mapM_eq_iff_forall fun s hs => Struct.reread_iff (h.structs s hs),
    mapM_eq_iff_forall fun g hg => Function.reread_iff (h.functions g hg)]
  exact ⟨fun ⟨hg, hs, hc, hi⟩ => ⟨hg, hs, hc, hi⟩,
    fun hf => ⟨hf.functions, hf.structs, hf.consts, hf.imports⟩⟩

end ToyLang
