import ToyLang.Proofs.Extent.Run
import ToyLang.Proofs.Phrase.Role

/-!
# Counting operands and operators

Operands and operators wait on piles of their own and are compared at a comma and at the end only.
So an expression is read without a report where their numbers fit, in whatever order they stand
(`expression_tallied`); that operators stand between operands is not asked for
(`postfix_sum_accepted`).

The numbers come from a reduction that notices nothing: an operator takes two operands and leaves
one, and an assignment leaves an open operand, which no operator takes, so that it is the last one
to be reduced and the first one to be read (`Work.tally_of_reduceQuietly`).
-/

set_option autoImplicit false

namespace ToyLang

open Builder ToyLang.Parser

/-- What a token is to the others, if it is a part by itself. -/
def Token.role (t : Token) : Role :=
  match t.kind with
  | .operator o => .operator o
  | .punct .comma => .comma
  | _ => .operand

namespace Role

/-! ## Rows of segments -/

/-- The segments between commas are as `P` says; the last one may be empty, as it is in a row of
nothing and behind a trailing comma. -/
def Segmented (P : List Role → Prop) (rs : List Role) : Prop :=
  (∀ s ∈ (rs.splitOn .comma).dropLast, P s) ∧
    ∀ s ∈ (rs.splitOn .comma).getLast?, s = [] ∨ P s

/-- An operand, and any number of operators with an operand behind each. -/
def isInfix : List Role → Bool
  | [.operand] => true
  | .operand :: .operator _ :: rs => isInfix rs
  | _ => false

/-- Segments with their operators between operands, behind an assignment or not. -/
def InfixRow (rs : List Role) : Prop :=
  Segmented (isInfix · = true) (if rs.head? = some (.operator .assign) then rs.tail else rs)

/-- One more operand than operators, none of them that of an assignment, in any order. -/
def Even (rs : List Role) : Prop :=
  .operator .assign ∉ rs ∧ rs.count .operand = (operators rs).length + 1

/-- One more operand than operators, if an assignment in front of all other operators is left
out. -/
def Assigned (rs : List Role) : Prop :=
  ∃ a b, rs = a ++ .operator .assign :: b ∧ operators a = [] ∧ Even (a ++ b)

/-- Segments with one more operand than operators each; or a single one that has an assignment for
its first operator besides. -/
def Tallied (rs : List Role) : Prop := Segmented Even rs ∨ .comma ∉ rs ∧ Assigned rs

instance (P : List Role → Prop) [DecidablePred P] : DecidablePred (Segmented P) :=
  fun _ => inferInstanceAs (Decidable (_ ∧ _))

instance : DecidablePred InfixRow := fun _ => inferInstanceAs (Decidable (Segmented _ _))

variable {P : List Role → Prop} {rs ss : List Role}

theorem segmented_nil : Segmented P [] := ⟨by simp, by simp⟩

theorem segmented_single (hcomma : .comma ∉ rs) (h : P rs) : Segmented P rs := by
  rw [Segmented, List.splitOn_eq_singleton hcomma]
  exact ⟨by simp, by simp [h]⟩

theorem segmented_cons (hcomma : .comma ∉ rs) (h : P rs) (hss : Segmented P ss) :
    Segmented P (rs ++ .comma :: ss) := by
  rw [Segmented, List.splitOn_append_cons_self_of_not_mem hcomma]
  obtain ⟨s, more, hs⟩ := List.exists_cons_of_ne_nil (List.splitOn_ne_nil .comma ss)
  rw [Segmented, hs] at hss
  rw [hs, List.dropLast_cons_cons, List.getLast?_cons_cons]
  exact ⟨List.forall_mem_cons.2 ⟨h, hss.1⟩, hss.2⟩

theorem operators_append (a b : List Role) : operators (a ++ b) = operators a ++ operators b :=
  List.filterMap_append

theorem mem_operators {o : Operator} : o ∈ operators rs ↔ .operator o ∈ rs := by
  rw [operators, List.mem_filterMap]
  constructor
  · rintro ⟨r, hr, hro⟩
    cases r <;> cases hro
    exact hr
  · exact fun h => ⟨_, h, rfl⟩

/-- The first operator among the parts. -/
theorem exists_operator {o : Operator} {os : List Operator} (h : operators rs = o :: os) :
    ∃ a b, rs = a ++ .operator o :: b ∧ operators a = [] ∧ operators b = os := by
  obtain ⟨a, r, b, rfl, ha, hr, hb⟩ := List.filterMap_eq_cons_iff.1 h
  cases r <;> cases hr
  exact ⟨a, b, rfl, List.filterMap_eq_nil_iff.2 ha, hb⟩

theorem assigned_of_operators {os : List Operator} (h : operators rs = .assign :: os)
    (hos : .assign ∉ os) (hcount : rs.count .operand = os.length + 1) : Assigned rs := by
  obtain ⟨a, b, rfl, ha, hb⟩ := exists_operator h
  have hrest : operators (a ++ b) = os := by rw [operators_append, ha, hb, List.nil_append]
  refine ⟨a, b, rfl, ha, ?_, ?_⟩
  · rwa [← mem_operators, hrest]
  · rw [hrest, ← hcount, List.count_append, List.count_append, List.count_cons_of_ne (by simp)]

end Role

/-! ## Reductions -/

namespace Work

/-- **The tally of a reduction** that notices nothing and leaves one operand: there is one operand
more than operators, an assignment left out, which is reduced last and leaves its operand open. -/
theorem tally_of_reduceQuietly {ops : List Token} {os : List Operand} {o : Operand}
    (h : reduceQuietly ops os = some [o]) :
    .operator .assign ∉ ops.map Token.kind ∧ os.length = ops.length + 1 ∨
      ∃ (before : List Token) (op : Token) (p : PendingAssignment), ops = before ++ [op] ∧
        op.kind = .operator .assign ∧ o = .pending p ∧
        .operator .assign ∉ before.map Token.kind ∧ os.length = before.length + 1 := by
  induction ops generalizing os with
  | nil =>
    cases h
    exact .inl ⟨List.not_mem_nil, rfl⟩
  | cons op ops ih =>
    obtain ⟨operator, hop, h⟩ := Option.bind_eq_some_iff.1 h
    split at h
    · next hquiet =>
      rw [TokenKind.operator?_eq_some_iff] at hop
      obtain ⟨r, os', rfl, ⟨rfl, happly⟩ | ⟨hne, l, os'', rfl, happly⟩⟩ := operands_of_quiet hquiet
      · rw [happly] at h
        match ops with
        | [] =>
          cases h
          exact .inr ⟨[], op, _, rfl, hop, rfl, List.not_mem_nil, rfl⟩
        | op' :: ops =>
          -- an open operand is not taken without a notice
          obtain ⟨operator', -, h⟩ := Option.bind_eq_some_iff.1 h
          split at h
          · next hquiet' =>
            obtain ⟨r', os'', hplain, -⟩ := operands_of_quiet hquiet'
            cases hplain
          · cases h
      · rw [happly] at h
        have hkind : .operator .assign ≠ op.kind := by rw [hop]; simpa using Ne.symm hne
        rcases ih h with ⟨hnone, hlength⟩ | ⟨before, last, p, rfl, hlast, ho, hnone, hlength⟩
        · refine .inl ⟨List.not_mem_cons_of_ne_of_not_mem hkind hnone, ?_⟩
          simp only [List.length_cons] at hlength ⊢
          omega
        · refine .inr ⟨op :: before, last, p, rfl, hlast, ho,
            List.not_mem_cons_of_ne_of_not_mem hkind hnone, ?_⟩
          simp only [List.length_cons] at hlength ⊢
          omega
    · cases h

end Work

/-! ## Phrases -/

namespace Phrase

variable {ph : Phrase} {st st' : ExprState} {o : Operand} {pos : Pos} {rs : List Role}
  {items : Option (List Expr)}

/-- Parts that come to one operand without a notice have the numbers for it. -/
theorem Stands.tally (h : Stands rs items st)
    (hreduce : Work.reduceQuietly st.work.operators st.work.operands = some [o]) :
    Role.Even rs ∨ (∃ p, o = .pending p) ∧ Role.Assigned rs := by
  obtain ⟨-, hoperands, hoperators, -⟩ := h
  rcases Work.tally_of_reduceQuietly hreduce with
    ⟨hnone, hcount⟩ | ⟨before, op, p, hops, hop, ho, hnone, hcount⟩
  · have hlength : st.work.operators.length = (Role.operators rs).length := by
      simpa using congrArg List.length hoperators
    refine .inl ⟨?_, by omega⟩
    rw [← Role.mem_operators]
    simpa [hoperators] using hnone
  · -- the assignment is at the bottom of the pile: it is the first operator
    rw [hops, List.map_append, List.map_singleton, hop] at hoperators
    have hreverse := congrArg List.reverse hoperators
    rw [List.reverse_append, List.map_reverse, List.reverse_reverse, List.reverse_singleton,
      List.singleton_append] at hreverse
    obtain ⟨_, os, hos, hfirst, hothers⟩ := List.map_eq_cons_iff.1 hreverse.symm
    cases hfirst
    have hlength : os.length = before.length := by simpa using congrArg List.length hothers
    refine .inr ⟨⟨p, ho⟩, Role.assigned_of_operators hos ?_ (by omega)⟩
    intro hassign
    exact hnone (List.mem_reverse.1 (hothers ▸ List.mem_map_of_mem hassign))

/-- **The tally of a phrase.** Behind the parts `rs` and the items before them, a phrase that comes
to a result continues them to segments with one more operand than operators. -/
theorem tally_of_run (hst : Stands rs items st) (hrun : ph.run st = some st')
    (hresult : st'.result pos = some o) :
    Role.Segmented Role.Even (rs ++ ph.roles) ∨
      items = none ∧ .comma ∉ rs ++ ph.roles ∧ Role.Assigned (rs ++ ph.roles) := by
  induction ph generalizing rs items st with
  | nil =>
    cases hrun
    rw [roles, List.append_nil]
    rcases ExprState.reduced_of_result hresult with hreduce | ⟨r, hreduce, hr⟩
    · rw [hst.eq_nil (Work.eq_nil_of_reduceQuietly hreduce)]
      exact .inl Role.segmented_nil
    · rcases hst.tally hreduce with heven | ⟨⟨p, rfl⟩, hassigned⟩
      · exact .inl (Role.segmented_single hst.single heven)
      · rcases hr with hitems | ⟨e, he⟩
        · exact .inr ⟨hst.items.symm.trans hitems, hst.single, hassigned⟩
        · cases he
  | literal t ph ih | name t ph ih | member s dot m ph ih =>
    rw [roles, List.append_cons]
    exact ih (hst.push _) hrun
  | operator t ph ih =>
    rw [roles, List.append_cons]
    exact ih (hst.pushOperator t) hrun
  | comma t ph ih =>
    obtain ⟨st₁, hitem, hrun⟩ := Option.bind_eq_some_iff.1 hrun
    obtain ⟨e, hreduce, rfl⟩ := ExprState.reduced_of_item hitem
    have heven : Role.Even rs := by
      rcases hst.tally hreduce with heven | ⟨⟨p, hp⟩, -⟩
      · exact heven
      · cases hp
    rcases ih (stands_nil _) hrun with hsegmented | ⟨hnone, -⟩
    · exact .inl (Role.segmented_cons hst.single heven hsegmented)
    · cases hnone
  | argument f b opening inside closing ph _ ih =>
    rw [run_argument] at hrun
    obtain ⟨e, -, hrun⟩ := Option.bind_eq_some_iff.1 hrun
    rw [roles, List.append_cons]
    exact ih (hst.push _) hrun
  | group opening inside closing ph _ ih =>
    rw [run_group] at hrun
    obtain ⟨r, -, hrun⟩ := Option.bind_eq_some_iff.1 hrun
    rw [roles, List.append_cons]
    exact ih (hst.push _) hrun

/-- Without names and groups every token is a part. -/
theorem roles_of_flat (h : ∀ t ∈ ph.tokens, t.kind ≠ .ident ∧ t.kind ≠ .punct .lparen) :
    ph.roles = ph.tokens.map Token.role := by
  induction ph with
  | nil => rfl
  | literal t ph ih =>
    have ht : t.role = .operand := by
      rcases t.kind_cases with hk | hk | hk | hk | hk <;> simp only [Token.role, hk]
    rw [roles, tokens, List.map_cons, ht, ih fun u hu => h u (.tail _ hu)]
  | operator t ph ih =>
    rw [roles, tokens, List.map_cons, Token.role, t.kind_eq, ih fun u hu => h u (.tail _ hu)]
  | comma t ph ih =>
    rw [roles, tokens, List.map_cons, Token.role, t.kind_eq, ih fun u hu => h u (.tail _ hu)]
  | name t ph _ | member t _ _ ph _ | argument t _ _ _ _ ph _ _ =>
    exact absurd t.kind_eq (h _ List.mem_cons_self).1
  | group opening _ _ ph _ _ => exact absurd opening.kind_eq (h _ List.mem_cons_self).2

theorem tallied_of_outcome {t : Token} (h : ph.outcome t = some o) : Role.Tallied ph.roles := by
  obtain ⟨st, hrun, hresult⟩ := Option.bind_eq_some_iff.1 h
  rcases tally_of_run (stands_nil none) hrun hresult with hsegmented | ⟨-, hassigned⟩
  · exact .inl hsegmented
  · exact .inr hassigned

/-- What brackets hold, at any depth, is as `P` says. -/
def Inside (P : List Role → Prop) : Phrase → Prop
  | nil => True
  | literal _ rest | operator _ rest | comma _ rest | name _ rest | member _ _ _ rest =>
    rest.Inside P
  | argument _ _ _ inside _ rest | group _ inside _ rest =>
    P inside.roles ∧ inside.Inside P ∧ rest.Inside P

/-- What comes to a state holds in its brackets what comes to a result. -/
theorem inside_tallied (hrun : ph.run st = some st') : ph.Inside Role.Tallied := by
  induction ph generalizing st st' with
  | nil => trivial
  | literal t ph ih | operator t ph ih | name t ph ih | member s dot m ph ih => exact ih hrun
  | comma t ph ih =>
    obtain ⟨st₁, -, hrun⟩ := Option.bind_eq_some_iff.1 hrun
    exact ih hrun
  | argument f b opening inside closing ph ihinside ih =>
    rw [run_argument] at hrun
    obtain ⟨e, hinside, hrun⟩ := Option.bind_eq_some_iff.1 hrun
    obtain ⟨r, hout, -⟩ := Option.bind_eq_some_iff.1 hinside
    obtain ⟨st₁, hrun₁, -⟩ := Option.bind_eq_some_iff.1 hout
    exact ⟨tallied_of_outcome hout, ihinside hrun₁, ih hrun⟩
  | group opening inside closing ph ihinside ih =>
    rw [run_group] at hrun
    obtain ⟨r, hout, hrun⟩ := Option.bind_eq_some_iff.1 hrun
    obtain ⟨st₁, hrun₁, -⟩ := Option.bind_eq_some_iff.1 hout
    exact ⟨tallied_of_outcome hout, ihinside hrun₁, ih hrun⟩

end Phrase

namespace Parser

/-- **The tally of an accepted expression.** What is read without a report is, up to the stop token,
a phrase whose operands and operators have fitting numbers between commas, and so do those in its
brackets. -/
theorem expression_tallied {stop : TokenKind} (hstop : IsStop stop) {ts : List Token}
    {strict : Bool} {o : Operand} {s : Session}
    (hrun : (Session.over (.ofList ts) strict).build (expression · stop) = (.ok o, s))
    (hquiet : s.diagnostics.items = #[]) :
    ∃ (ph : Phrase) (t : Token) (rest : List Token), ts = ph.tokens ++ t :: rest ∧ t.kind = stop ∧
      s.stream = .ofList rest ∧ ph.Apart ∧ Role.Tallied ph.roles ∧ ph.Inside Role.Tallied := by
  obtain ⟨ph, t, rest, hts, ht, hrest, hapart, hout⟩ := phrase_of_quiet hstop rfl ⟨hrun, hquiet⟩
  obtain ⟨st, hrun, -⟩ := Option.bind_eq_some_iff.1 hout
  exact ⟨ph, t, rest, hts, ht, hrest, hapart, Phrase.tallied_of_outcome hout,
    Phrase.inside_tallied hrun⟩

/-- `f(1 2 +) 3 -` before a semicolon: operators stand behind their operands, in brackets and
outside. -/
theorem postfix_call_tallied :
    let number (n : Int) : Token := ⟨.number, .int n, ⟨1, 1⟩⟩
    let token (kind : TokenKind) (text : String) : Token := ⟨kind, .text text, ⟨1, 1⟩⟩
    let stop := TokenKind.punct .semicolon
    let ts := [token .ident "f", token (.punct .lparen) "(", number 1, number 2,
      token (.operator .add) "+", token (.punct .rparen) ")", number 3,
      token (.operator .sub) "-", token stop ";"]
    ∃ o s, IsStop stop ∧
      (Session.over (.ofList ts) false).build (expression · stop) = (.ok o, s) ∧
      s.diagnostics.items = #[] ∧
      ∃ (ph : Phrase) (t : Token) (rest : List Token), ts = ph.tokens ++ t :: rest ∧
        t.kind = stop ∧ s.stream = .ofList rest ∧ ph.Apart ∧ Role.Tallied ph.roles ∧
        ph.Inside Role.Tallied := by
  intro number token stop ts
  have hstop : IsStop stop := by simp [stop, IsStop]
  have hrun : (Session.over (.ofList ts) false).build (expression · stop) = (.ok _, _) := rfl
  exact ⟨_, _, hstop, hrun, rfl, expression_tallied hstop hrun rfl⟩

/-- `1 2 +` before a semicolon is read without a report, though no operator stands between the
operands. -/
theorem postfix_sum_accepted :
    let number (n : Int) : Token := ⟨.number, .int n, ⟨1, 1⟩⟩
    let plus : Token := ⟨.operator .add, .text "+", ⟨1, 1⟩⟩
    let stop := TokenKind.punct .semicolon
    let ts := [number 1, number 2, plus]
    (∃ o s, (Session.over (.ofList (ts ++ [⟨stop, .text ";", ⟨1, 1⟩⟩])) false).build
        (expression · stop) = (.ok o, s) ∧ s.diagnostics.items = #[] ∧ s.stream = .ofList []) ∧
      IsStop stop ∧ ∀ ph : Phrase, ph.tokens = ts → ¬Role.InfixRow ph.roles := by
  intro number plus stop ts
  refine ⟨⟨_, _, rfl, rfl, rfl⟩, by simp [stop, IsStop], fun ph hts => ?_⟩
  have hroles : ph.roles = [.operand, .operand, .operator .add] := by
    rw [Phrase.roles_of_flat (by rw [hts]; decide), hts]
    rfl
  rw [hroles]
  decide

end Parser

end ToyLang
