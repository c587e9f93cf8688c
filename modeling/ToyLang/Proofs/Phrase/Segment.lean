import ToyLang.Proofs.Extent.Run
import ToyLang.Proofs.Phrase.Role

/-!
# Commas separate independent expressions

A segment is a row of tokens without a comma outside of brackets that is read as an expression on
its own. Segments with commas between them are read as the list of what they are read as one by one
(`list_of_segments`), whether a comma follows the last one or not.

A segment is a phrase without commas, since the brackets of a phrase are in balance
(`Phrase.depth_tokens`). It leaves its operands and operators on the piles whatever the items before
it are, and a comma, or the end, reduces them to just its expression (`IsItem`). So the items grow
by one expression with every segment, which is what carries the induction of `exists_behind`.
-/

set_option autoImplicit false

namespace ToyLang

open Builder ToyLang.Parser
open Grammar (Mark)

/-! ## Brackets -/

/-- How much deeper in brackets the tokens behind this one are. -/
def Token.turn (t : Token) : Int :=
  match t.kind with
  | .punct .lparen | .punct .lbracket => 1
  | .punct .rparen | .punct .rbracket => -1
  | _ => 0

/-- How deep in brackets what follows the tokens is. -/
def depth : List Token → Int
  | [] => 0
  | t :: ts => t.turn + depth ts

theorem depth_append (ts us : List Token) : depth (ts ++ us) = depth ts + depth us := by
  induction ts with
  | nil => exact (Int.zero_add _).symm
  | cons t ts ih => rw [List.cons_append, depth, depth, ih, Int.add_assoc]

/-- No comma stands outside of parentheses and brackets. -/
def CommaFree (ts : List Token) : Prop :=
  ∀ i, (h : i < ts.length) → ts[i].kind = .punct .comma → depth (ts.take i) ≠ 0

instance (ts : List Token) : Decidable (CommaFree ts) := Nat.decidableBallLT ..

theorem Token.turn_of_kind {t : Token} {k : TokenKind} (ht : t.kind = k) :
    t.turn = Token.turn ⟨k, t.value, t.pos⟩ := by
  simp only [Token.turn, ht]

theorem LiteralToken.turn_eq (t : LiteralToken) : t.turn = 0 := by
  rcases t.kind_cases with hk | hk | hk | hk | hk <;> exact Token.turn_of_kind hk

theorem OperatorToken.turn_eq (t : OperatorToken) : t.turn = 0 := Token.turn_of_kind t.kind_eq

theorem turn_brackets (b : Bracket) (opening : Mark b.opening) (closing : Mark b.closing) :
    opening.turn + closing.turn = 0 := by
  rw [Token.turn_of_kind opening.kind_eq, Token.turn_of_kind closing.kind_eq]
  cases b <;> rfl

namespace Phrase

/-- The brackets of a phrase are in balance. -/
theorem depth_tokens (ph : Phrase) : depth ph.tokens = 0 := by
  induction ph with
  | nil => rfl
  | literal t ph ih => rw [tokens, depth, t.turn_eq, ih]; rfl
  | operator t ph ih => rw [tokens, depth, t.turn_eq, ih]; rfl
  | comma t ph ih | name t ph ih => rw [tokens, depth, Token.turn_of_kind t.kind_eq, ih]; rfl
  | member s dot m ph ih =>
    rw [tokens, depth, depth, depth, Token.turn_of_kind s.kind_eq,
      Token.turn_of_kind dot.kind_eq, Token.turn_of_kind m.kind_eq, ih]
    rfl
  | argument f b opening inside closing ph ihinside ih =>
    have hturn := turn_brackets b opening closing
    have hname : f.turn = 0 := Token.turn_of_kind f.kind_eq
    simp only [tokens, depth, depth_append, hname, ihinside, ih]
    omega
  | group opening inside closing ph ihinside ih =>
    have hturn := turn_brackets .call opening closing
    simp only [tokens, depth, depth_append, ihinside, ih]
    omega

theorem commaFree_behind {p q : Phrase} (h : CommaFree (p.append q).tokens) :
    CommaFree q.tokens := by
  intro i hi hcomma hdepth
  rw [tokens_append] at h
  refine h (p.tokens.length + i) (by rw [List.length_append]; omega) ?_ ?_
  · rw [List.getElem_append_right (by omega)]
    simpa using hcomma
  · rw [List.take_length_add_append, depth_append, p.depth_tokens, hdepth]
    rfl

/-- A comma of a phrase stands outside of brackets. -/
theorem comma_not_mem_roles {ph : Phrase} (h : CommaFree ph.tokens) : .comma ∉ ph.roles := by
  have operand {q : Phrase} (hq : .comma ∉ q.roles) : .comma ∉ .operand :: q.roles :=
    List.not_mem_cons_of_ne_of_not_mem (by simp) hq
  induction ph with
  | nil => exact List.not_mem_nil
  | literal t ph ih => exact operand (ih (commaFree_behind (p := literal t nil) h))
  | operator t ph ih =>
    have hph := ih (commaFree_behind (p := operator t nil) h)
    exact List.not_mem_cons_of_ne_of_not_mem (by simp) hph
  | comma t ph ih => exact absurd rfl (h 0 (Nat.succ_pos _) t.kind_eq)
  | name t ph ih => exact operand (ih (commaFree_behind (p := name t nil) h))
  | member s dot m ph ih => exact operand (ih (commaFree_behind (p := member s dot m nil) h))
  | argument f b opening inside closing ph _ ih =>
    exact operand (ih (commaFree_behind (p := argument f b opening inside closing nil) h))
  | group opening inside closing ph _ ih =>
    exact operand (ih (commaFree_behind (p := group opening inside closing nil) h))

end Phrase

/-! ## Items -/

namespace Phrase

/-- A phrase without commas that comes to the expression `e` alone. -/
structure IsItem (ph : Phrase) (e : Expr) : Prop where
  apart : ph.Apart
  single : .comma ∉ ph.roles
  reduces : ∃ work, ph.run {} = some { work } ∧
    Work.reduceQuietly work.operators work.operands = some [.plain e]

theorem IsItem.run_items {ph : Phrase} {e : Expr} (h : ph.IsItem e) (items : Option (List Expr)) :
    ∃ work, ph.run { items } = some { work, items } ∧
      Work.reduceQuietly work.operators work.operands = some [.plain e] := by
  obtain ⟨work, hrun, hreduce⟩ := h.reduces
  refine ⟨work, ?_, hreduce⟩
  rw [Phrase.run_items h.single, hrun]
  rfl

end Phrase

/-- A phrase that is not empty and has no comma is an item, if it comes to an expression. -/
theorem Phrase.isItem_of_outcome {ph : Phrase} {t : Token} {e : Expr} (hapart : ph.Apart)
    (hsingle : .comma ∉ ph.roles) (hne : ph.tokens ≠ []) (h : ph.outcome t = some (.plain e)) :
    ph.IsItem e := by
  obtain ⟨st, hrun, hresult⟩ := Option.bind_eq_some_iff.1 h
  have hstands := stands_of_run (stands_nil none) hsingle hrun
  obtain ⟨work, items⟩ := st
  obtain rfl : items = none := hstands.items
  refine ⟨hapart, hsingle, work, hrun, ?_⟩
  unfold ExprState.result at hresult
  dsimp only at hresult
  match hreduce : Work.reduceQuietly work.operators work.operands with
  | none => simp [hreduce] at hresult
  | some [] =>
    -- nothing is left only where nothing was there
    have hroles := hstands.eq_nil (Work.eq_nil_of_reduceQuietly hreduce)
    exact absurd (congrArg tokens (eq_nil_of_roles hroles)) hne
  | some [o] => simpa [hreduce] using hresult
  | some (_ :: _ :: _) => simp [hreduce] at hresult

/-! ## Segments -/

/-- Tokens without a comma outside of brackets that are read as an expression on their own. -/
structure Segment (stop : TokenKind) where
  tokens : List Token
  value : Expr
  nonempty : tokens ≠ []
  commaFree : CommaFree tokens
  read : ∃ strict t rest, t.kind = stop ∧
    Reads (expression · stop) strict (tokens ++ t :: rest) (.plain value) rest

namespace Segment

variable {stop : TokenKind}

theorem exists_item (s : Segment stop) (hstop : IsStop stop) :
    ∃ ph : Phrase, ph.tokens = s.tokens ∧ ph.IsItem s.value := by
  obtain ⟨strict, t, rest, rfl, hread⟩ := s.read
  obtain ⟨ph, hts, hapart, hout⟩ := phrase_of_reads hstop hread
  have hsingle := Phrase.comma_not_mem_roles (hts ▸ s.commaFree)
  exact ⟨ph, hts, Phrase.isItem_of_outcome hapart hsingle (hts ▸ s.nonempty) hout⟩

/-- Segments with a comma before each, and perhaps a comma at the end. -/
def behind (more : List (Mark .comma × Segment stop)) (trailing : Option (Mark .comma)) :
    List Token :=
  more.flatMap (fun p => p.1.toToken :: p.2.tokens) ++ trailing.toList.map fun t => t.toToken

/-- Behind an item, segments with commas before them add their expressions to the items, if there
is a comma at all. -/
theorem exists_behind (hstop : IsStop stop) (more : List (Mark .comma × Segment stop))
    (trailing : Option (Mark .comma)) :
    ∃ ph : Phrase, ph.tokens = behind more trailing ∧ ph.Apart ∧ ¬ph.OpensGroup ∧
      ∀ pos work items e, Work.reduceQuietly work.operators work.operands = some [.plain e] →
        (items = none → more = [] → trailing ≠ none) →
        (ph.run { work, items }).bind (ExprState.result pos) = some
          (.plain { kind := .list, items := items.getD [] ++ e :: more.map (·.2.value), pos }) := by
  induction more with
  | nil =>
    cases trailing with
    | none =>
      refine ⟨.nil, rfl, trivial, id, fun pos work items e hreduce hcomma => ?_⟩
      cases items with
      | none => exact absurd rfl (hcomma rfl rfl)
      | some items => simp [Phrase.run, ExprState.result, hreduce]
    | some c =>
      refine ⟨.comma c .nil, rfl, trivial, id, fun pos work items e hreduce _ => ?_⟩
      simp [Phrase.run, ExprState.item, ExprState.result, Work.reduceQuietly, hreduce]
  | cons p more ih =>
    obtain ⟨c, s⟩ := p
    obtain ⟨rest, hrest, hapart, hgroup, hrun⟩ := ih
    obtain ⟨ph, hts, hitem⟩ := s.exists_item hstop
    refine ⟨.comma c (ph.append rest), ?_, Phrase.apart_append hitem.apart hapart hgroup, id, ?_⟩
    · simp [Phrase.tokens, Phrase.tokens_append, hts, hrest, behind]
    · intro pos work items e hreduce _
      have hcomma : ExprState.item { work, items } =
          some { items := some (items.getD [] ++ [e]) } := by
        simp [ExprState.item, hreduce]
      obtain ⟨work', hwork, hvalue⟩ := hitem.run_items (some (items.getD [] ++ [e]))
      rw [Phrase.run, hcomma, Option.bind_some, Phrase.run_append, hwork, Option.bind_some,
        hrun pos work' _ s.value hvalue (by simp)]
      simp

/-- **Commas separate independent expressions.** Segments with commas between them, with or without
one more comma at the end, are read up to any stop token without a report, as the list of what the
segments are read as on their own. -/
theorem list_of_segments (hstop : IsStop stop) (first : Segment stop)
    {more : List (Mark .comma × Segment stop)} (hmore : more ≠ [])
    (trailing : Option (Mark .comma)) {t : Token} (ht : t.kind = stop) (rest : List Token)
    (strict : Bool) :
    Reads (expression · stop) strict (first.tokens ++ behind more trailing ++ t :: rest)
      (.plain { kind := .list, items := first.value :: more.map (·.2.value),
                pos := (first.tokens.head first.nonempty).pos }) rest := by
  obtain ⟨ph, hts, hitem⟩ := first.exists_item hstop
  obtain ⟨work, hwork, hvalue⟩ := hitem.reduces
  obtain ⟨tail, htail, hapart, hgroup, hrun⟩ := exists_behind hstop more trailing
  have hfirst : (ph.append tail).first t = first.tokens.head first.nonempty := by
    obtain ⟨u, us, hcons⟩ := List.exists_cons_of_ne_nil first.nonempty
    simp [Phrase.first, Phrase.tokens_append, hts, hcons]
  have hout : (ph.append tail).outcome t = some (.plain
      { kind := .list, items := first.value :: more.map (·.2.value),
        pos := (first.tokens.head first.nonempty).pos }) := by
    rw [Phrase.outcome, hfirst, Phrase.run_append, hwork, Option.bind_some,
      hrun _ work none first.value hvalue fun _ h => absurd h hmore]
    rfl
  subst ht
  have hreads := reads_of_phrase (Phrase.apart_append hitem.apart hapart hgroup) hstop hout rest
    strict
  rwa [Phrase.tokens_append, hts, htail] at hreads

/-- `f(a, 2), b + 1,` up to a semicolon; an end mark comes behind it. -/
theorem call_and_sum_listed :
    let token (kind : TokenKind) (text : String) : Token := ⟨kind, .text text, ⟨1, 1⟩⟩
    let number (n : Int) : Token := ⟨.number, .int n, ⟨1, 1⟩⟩
    let stop := TokenKind.punct .semicolon
    let t := token stop ";"
    let comma : Mark .comma := ⟨token (.punct .comma) ",", rfl⟩
    let two : Expr := { kind := .int, value := .int 2, pos := ⟨1, 1⟩ }
    let a := Expr.identifier (.text "a") ⟨1, 1⟩
    let call : Segment stop :=
      { tokens := [token .ident "f", token (.punct .lparen) "(", token .ident "a", comma.toToken,
          number 2, token (.punct .rparen) ")"]
        value := { kind := .call, value := .text "f", pos := ⟨1, 1⟩, args := [
          { kind := .list, items := [a, two], pos := ⟨1, 1⟩ }] }
        nonempty := by decide
        commaFree := by decide
        read := ⟨false, t, [], rfl, _, rfl, rfl, rfl⟩ }
    let sum : Segment stop :=
      { tokens := [token .ident "a", token (.operator .add) "+", number 2]
        value := .operation .add a two ⟨1, 1⟩
        nonempty := by decide
        commaFree := by decide
        read := ⟨false, t, [], rfl, _, rfl, rfl, rfl⟩ }
    IsStop stop ∧ [(comma, sum)] ≠ [] ∧ t.kind = stop ∧
      Reads (expression · stop) false
        (call.tokens ++ behind [(comma, sum)] (some comma) ++ t :: [.endMark ⟨1, 1⟩])
        (.plain { kind := .list, items := [call.value, sum.value], pos := ⟨1, 1⟩ })
        [.endMark ⟨1, 1⟩] := by
  intro token number stop t comma two a call sum
  have hstop : IsStop stop := by simp [stop, IsStop]
  have hmore : [(comma, sum)] ≠ [] := List.cons_ne_nil _ _
  exact ⟨hstop, hmore, rfl, list_of_segments hstop call hmore (some comma) rfl _ false⟩

end Segment

end ToyLang
