import ToyLang.Proofs.Roundtrip.Definite

/-!
# What is read stands at no position

Whatever a regular tree is read as holds no positions (`File.unplaced_reread`), so that it is the
same as another tree without positions only if the two are equal.
-/

set_option autoImplicit false

namespace ToyLang

/-- Members of a row that `g` leaves as they are. -/
theorem map_eq_of_mapM {α : Type} {f : α → Option α} {g : α → α} {as bs : List α}
    (h : ∀ a ∈ as, ∀ b, f a = some b → g b = b) (hm : as.mapM f = some bs) : bs.map g = bs := by
  induction as generalizing bs with
  | nil =>
    cases hm
    rfl
  | cons a as ih =>
    rw [List.mapM_cons] at hm
    obtain ⟨b, hb, hm⟩ := Option.bind_eq_some_iff.1 hm
    obtain ⟨bs, hbs, hm⟩ := Option.bind_eq_some_iff.1 hm
    cases hm
    rw [List.map_cons, h a List.mem_cons_self b hb,
      ih (fun c hc => h c (List.mem_cons_of_mem a hc)) hbs]

namespace Expr

theorem unplaced_rereadItems {es es' : List Expr}
    (ih : ∀ e ∈ es, ∀ e', e.reread = some e' → e'.unplaced = e')
    (h : rereadItems es = some es') : es'.map unplaced = es' := by
  induction es generalizing es' with
  | nil =>
    cases h
    rfl
  | cons e es ihes =>
    have he := ih e List.mem_cons_self
    cases es with
    | nil =>
      rw [rereadItems] at h
      split at h
      · cases h
        rfl
      · obtain ⟨x, hx, hes⟩ := Option.bind_eq_some_iff.1 h
        cases hes
        rw [List.map_cons, he x hx]
        rfl
    | cons e' es =>
      rw [rereadItems_cons_cons] at h
      split at h
      · cases h
      · obtain ⟨x, hx, h⟩ := Option.bind_eq_some_iff.1 h
        obtain ⟨xs, hxs, h⟩ := Option.bind_eq_some_iff.1 h
        cases h
        rw [List.map_cons, he x hx, ihes (fun d hd => ih d (List.mem_cons_of_mem e hd)) hxs]

theorem unplaced_reread {e e' : Expr} (h : e.Regular False) (he : e.reread = some e') :
    e'.unplaced = e' := by
  induction h generalizing e' with
  | none pos | int n pos h | string s pos h | char c pos h | bool b pos | identifier s pos h
  | structAcc s m pos mpos h hm =>
    cases he
    rfl
  | operation o l r pos ho _ _ _ ihl ihr =>
    rw [reread_operation] at he
    split at he
    · cases he
    · obtain ⟨l', hl, he⟩ := Option.bind_eq_some_iff.1 he
      obtain ⟨r', hr, he⟩ := Option.bind_eq_some_iff.1 he
      cases he
      rw [unplaced_operation, ihl hl, ihr hr]
  | list items pos _ _ ih =>
    match items, he with
    | [], he =>
      cases he
      rfl
    | [e], he => exact ih e List.mem_cons_self he
    | e :: e' :: es, he =>
      obtain ⟨xs, hxs, he⟩ := Option.bind_eq_some_iff.1 he
      cases he
      rw [unplaced_mk, unplaced_rereadItems (fun d hd _ => ih d hd) hxs]
      rfl
  | call s arg pos h _ ih | arrayAcc s arg pos h _ ih =>
    rw [reread_access _ (by simp)] at he
    obtain ⟨arg', harg, rfl⟩ := Option.map_eq_some_iff.1 he
    rw [unplaced_access, ih harg]

theorem unplaced_rereadAssigned {v v' : Expr} (h : v.Regular False)
    (hv : v.rereadAssigned = some v') : v'.unplaced = v' := by
  unfold rereadAssigned at hv
  split at hv
  · cases hv
  split at hv
  · next hlist =>
    cases h with
    | list items pos hitems _ =>
      match items, hv with
      | [e], hv =>
        dsimp only at hv
        split at hv
        · cases hv
        · exact unplaced_reread (hitems e List.mem_cons_self) hv
    | _ => cases hlist
  · exact unplaced_reread h hv

theorem unplaced_rereadAssignment {t v e' : Expr} (ht : t.Regular False) (hv : v.Regular False)
    (he : rereadAssignment t v = some e') : e'.unplaced = e' := by
  obtain ⟨t', ht', he⟩ := Option.bind_eq_some_iff.1 he
  obtain ⟨v', hv', he⟩ := Option.bind_eq_some_iff.1 he
  cases he
  rw [unplaced_operation, unplaced_reread ht ht', unplaced_rereadAssigned hv hv']

theorem unplaced_rereadInitializer {e e' : Expr} {name : String} (hname : IsName name)
    (h : e.Initializes False name) (he : e.rereadInitializer = some e') : e'.unplaced = e' := by
  cases h with
  | absent pos =>
    cases he
    rfl
  | assign v pos tpos hv =>
    exact unplaced_rereadAssignment (.identifier name tpos hname) hv.regular he

end Expr

/-! ## Statements -/

namespace Stmt

theorem unplaced_rereadAll {ss ss' : List Stmt}
    (ih : ∀ s ∈ ss, ∀ s', s.reread = some s' → s'.unplaced = s')
    (h : rereadAll ss = some ss') : ss'.map unplaced = ss' := by
  induction ss generalizing ss' with
  | nil =>
    cases h
    rfl
  | cons s ss ihss =>
    obtain ⟨x, hx, h⟩ := Option.bind_eq_some_iff.1 h
    obtain ⟨xs, hxs, h⟩ := Option.bind_eq_some_iff.1 h
    cases h
    rw [List.map_cons, ih s List.mem_cons_self x hx,
      ihss (fun t ht => ih t (List.mem_cons_of_mem s ht)) hxs]

/-- Statements that neither assign nor lack a condition, part by part. -/
theorem unplaced_reread_parts {s s' : Stmt} (hk : s.kind ∉ [.varDec, .exprStmt, .else_])
    (he : s.expr.Regular False)
    (hs : ∀ t ∈ s.statements, ∀ t', t.reread = some t' → t'.unplaced = t')
    (hb : ∀ b ∈ s.branches, ∀ b', b.reread = some b' → b'.unplaced = b')
    (h : s.reread = some s') : s'.unplaced = s' := by
  obtain ⟨kind, name, dataType, expr, statements, branches, pos⟩ := s
  have hread : reread ⟨kind, name, dataType, expr, statements, branches, pos⟩ =
      expr.reread.bind fun e => (rereadAll statements).bind fun ss =>
        (rereadAll branches).bind fun bs => some ⟨kind, name, dataType, e, ss, bs, ⟨0, 0⟩⟩ := by
    cases kind <;> first | rfl | simp at hk
  rw [hread] at h
  obtain ⟨e', he', h⟩ := Option.bind_eq_some_iff.1 h
  obtain ⟨ss, hss, h⟩ := Option.bind_eq_some_iff.1 h
  obtain ⟨bs, hbs, h⟩ := Option.bind_eq_some_iff.1 h
  cases h
  rw [unplaced_mk, Expr.unplaced_reread he he', unplaced_rereadAll hs hss,
    unplaced_rereadAll hb hbs]

/-- A block that holds statements. -/
theorem unplaced_reread_block {ss : List Stmt} (pos : Pos)
    (ih : ∀ s ∈ ss, ∀ s', s.reread = some s' → s'.unplaced = s') :
    ∀ t ∈ bodyOf ss pos, ∀ t', t.reread = some t' → t'.unplaced = t' := by
  intro t ht t' h
  rw [List.mem_singleton.1 ht] at h
  exact unplaced_reread_parts (by simp [block]) (.none ⟨0, 0⟩) ih (by simp [block]) h

theorem unplaced_reread_clause {bs : List Stmt} (h : IsChain bs) {b b' : Stmt} (hb : b ∈ bs)
    (he : b.expr.Regular False)
    (ih : ∀ s ∈ b.inner, ∀ s', s.reread = some s' → s'.unplaced = s')
    (hread : b.reread = some b') : b'.unplaced = b' := by
  obtain ⟨condition, ss, pos, bpos, rfl⟩ | ⟨ss, epos, pos, bpos, rfl⟩ := h.mem hb
  · rw [inner_body] at ih
    exact unplaced_reread_parts (by simp) he (unplaced_reread_block _ ih) (by simp) hread
  · rw [inner_body] at ih
    obtain ⟨ss', hss, hread⟩ := Option.bind_eq_some_iff.1 hread
    cases hread
    rw [unplaced_mk, unplaced_rereadAll (unplaced_reread_block _ ih) hss]
    rfl

theorem unplaced_reread {s s' : Stmt} (h : s.Regular False) (hread : s.reread = some s') :
    s'.unplaced = s' := by
  induction h generalizing s' with
  | varDec name s e pos h he =>
    obtain ⟨e', he', hread⟩ := Option.bind_eq_some_iff.1 hread
    cases hread
    rw [unplaced_mk, Expr.unplaced_rereadInitializer h he he']
    rfl
  | exprStmt target v pos apos htarget ht hv =>
    obtain ⟨e', he', hread⟩ := Option.bind_eq_some_iff.1 hread
    cases hread
    rw [unplaced_mk, Expr.unplaced_rereadAssignment ht hv.regular he']
    rfl
  | arrayDec name s e pos h he | callStmt name e pos h he | return_ e pos he =>
    exact unplaced_reread_parts (by simp) he (by simp) (by simp) hread
  | structDec name type pos tpos h htype =>
    cases hread
    rfl
  | break_ epos pos | continue_ epos pos =>
    cases hread
    rfl
  | while_ condition ss pos bpos hc _ ih =>
    exact unplaced_reread_parts (by simp) hc
      (unplaced_reread_block _ fun s hs s' hr => ih s hs hr) (by simp) hread
  | if_ condition ss branches pos bpos hc _ hchain hconditions _ ih ihb =>
    exact unplaced_reread_parts (by simp) hc
      (unplaced_reread_block _ fun s hs s' hr => ih s hs hr)
      (fun b hb b' hr => unplaced_reread_clause hchain hb (hconditions b hb)
        (fun s hs s' hr => ihb b hb s hs hr) hr) hread

end Stmt

/-! ## Declarations and files -/

theorem TypedName.unplaced_rereadConst {t t' : TypedName} (h : t.IsConstant False)
    (hread : t.rereadConst = some t') : t'.unplaced = t' := by
  obtain ⟨e, he, hread⟩ := Option.bind_eq_some_iff.1 hread
  cases hread
  rw [TypedName.unplaced, Expr.unplaced_reread h.value he]

theorem TypedName.unplaced_rereadItem {t t' : TypedName} (h : t.IsItem False)
    (hread : t.rereadItem = some t') : t'.unplaced = t' := by
  obtain ⟨e, he, hread⟩ := Option.bind_eq_some_iff.1 hread
  cases hread
  rw [TypedName.unplaced, Expr.unplaced_rereadInitializer h.name h.value he]

theorem Struct.unplaced_reread {s s' : Struct} (h : s.Regular False)
    (hread : s.reread = some s') : s'.unplaced = s' := by
  obtain ⟨items, hitems, hread⟩ := Option.bind_eq_some_iff.1 hread
  cases hread
  have := map_eq_of_mapM
    (fun i hi _ hr => TypedName.unplaced_rereadItem (h.items i hi) hr) hitems
  rw [Struct.unplaced, this]

theorem Function.unplaced_reread {f f' : Function} (h : f.Regular False)
    (hread : f.reread = some f') : f'.unplaced = f' := by
  obtain ⟨ss, pos, hblock, hss⟩ := h.block
  obtain ⟨consts, hconsts, hread⟩ := Option.bind_eq_some_iff.1 hread
  obtain ⟨b, hb, hread⟩ := Option.bind_eq_some_iff.1 hread
  cases hread
  have hargs : (f.args.map TypedName.unplaced).map TypedName.unplaced =
      f.args.map TypedName.unplaced := by
    rw [List.map_map]
    refine List.map_congr_left fun a ha => ?_
    obtain ⟨_, pos, hbare⟩ := h.args a ha
    simp [TypedName.unplaced, hbare]
  have hconsts := map_eq_of_mapM
    (fun c hc _ hr => TypedName.unplaced_rereadConst (h.consts c hc) hr) hconsts
  have hblock := Stmt.unplaced_reread_block pos
    (fun s hs _ hr => Stmt.unplaced_reread (hss s hs) hr) _
    (by rw [Stmt.bodyOf, ← hblock]; exact List.mem_cons_self) b hb
  simp only [Function.unplaced, hargs, hconsts, hblock]

theorem File.unplaced_reread {f f' : File} (h : f.Regular False) (hread : f.reread = some f') :
    f'.unplaced = f' := by
  obtain ⟨imports, himports, hread⟩ := Option.bind_eq_some_iff.1 hread
  obtain ⟨consts, hconsts, hread⟩ := Option.bind_eq_some_iff.1 hread
  obtain ⟨structs, hstructs, hread⟩ := Option.bind_eq_some_iff.1 hread
  obtain ⟨functions, hfunctions, hread⟩ := Option.bind_eq_some_iff.1 hread
  cases hread
  have hconsts := map_eq_of_mapM
    (fun c hc _ hr => TypedName.unplaced_rereadConst (h.consts c hc) hr) hconsts
  have hstructs := map_eq_of_mapM
    (fun s hs _ hr => Struct.unplaced_reread (h.structs s hs) hr) hstructs
  have hfunctions := map_eq_of_mapM
    (fun g hg _ hr => Function.unplaced_reread (h.functions g hg) hr) hfunctions
  simp only [File.unplaced, hconsts, hstructs, hfunctions]

end ToyLang
