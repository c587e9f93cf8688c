import ToyLang.Proofs.Roundtrip.Tokens

/-!
# Printed expressions

A regular expression has a text, and the text is read as the tokens of the expression.

* `spells_keyword`, `spells_word_of`, `closed_punct`, `spells_operator`: texts of single tokens;
* `closed_parenthesised`, `spells_trim`: texts put together;
* `Expr.Regular.printed`: the texts of expressions.
-/

set_option autoImplicit false

namespace ToyLang

variable {definite : Prop} {ts us : List Token} {a b : List Char} {c : Char}

/-! ## Tokens -/

theorem spells_word_of {s : String} (h : IsWord s.toList) : Spells s.toList [.ofWord s] := by
  have := spells_word h
  rwa [String.ofList_toList] at this

theorem spells_name {s : String} (h : IsName s) : Spells s.toList [.ofWord s] := spells_word_of h.1

theorem spells_keyword (k : Keyword) : Spells k.spelling.toList [.ofKeyword k] := by
  rw [← Token.ofWord_keyword]
  exact spells_word_of (by cases k <;> decide)

theorem spells_scalar (s : Scalar) : Spells s.spelling.toList [.ofWord s.spelling] :=
  spells_word_of (by cases s <;> decide)

theorem spells_punct (p : Punct) : Spells p.spelling.toList [.ofPunct p] := by
  have := spells_symbol (k := .punct p) (.inl ⟨p, rfl, rfl⟩)
  rwa [String.ofList_toList] at this

theorem spells_operator (o : Operator) : Spells o.spelling.toList [.ofOperator o] := by
  have := spells_symbol (k := .operator o) (.inr ⟨o, rfl, rfl⟩)
  rwa [String.ofList_toList] at this

/-- A symbol of one character that starts no longer one. -/
theorem closed_punct (p : Punct) (hp : p ≠ .colon ∧ p ≠ .arrow) :
    Closed p.spelling.toList [.ofPunct p] := by
  obtain ⟨c, hc, hshort⟩ : ∃ c, p.spelling.toList = [c] ∧
      c ∉ ['-', ':', '!', '>', '<', '&', '|'] := by
    cases p <;> first | exact ⟨_, rfl, by decide⟩ | simp at hp
  have := closed_symbol (k := .punct p) (.inl ⟨p, rfl, hc⟩) hshort
  rwa [← hc, String.ofList_toList] at this

/-- Blanks behind a piece close it. -/
theorem Spells.space (h : Spells a ts) : Closed (a ++ [' ']) ts := by
  have := h.closed_append (c := ' ') rfl (closed_space rfl)
  rwa [List.append_nil] at this

/-! ## Texts put together -/

theorem closed_parenthesised {s : String} (h : Spells s.toList ts) :
    Closed (parenthesised s).toList (inParentheses ts) := by
  have hopen := closed_punct .lparen (by decide)
  have hclose := closed_punct .rparen (by decide)
  have htext : (parenthesised s).toList = '(' :: (s.toList ++ [')']) := by simp [parenthesised]
  rw [htext]
  exact hopen.append (h.closed_append (c := ')') rfl hclose)

/-- A text in front of others, with commas between all of them. -/
theorem spells_intercalate_cons {s t : String} {texts : List String} (hs : Spells s.toList ts)
    (h : Spells (", ".intercalate (t :: texts)).toList us) :
    Spells (", ".intercalate (s :: t :: texts)).toList (ts ++ .ofPunct .comma :: us) := by
  have htext : (", ".intercalate (s :: t :: texts)).toList =
      s.toList ++ ',' :: ([' '] ++ (", ".intercalate (t :: texts)).toList) := by
    simp [String.toList_intercalate]
  rw [htext]
  refine hs.append (bounded_cons rfl) ?_
  exact (closed_punct .comma (by decide)).spells_append ((closed_space rfl).spells_append h)

/-- The text starts and ends with characters that are no blanks, if it is not empty. -/
structure Neat (cs : List Char) : Prop where
  head : ∀ c ∈ cs.head?, Text.isBlank c = false
  last : ∀ c ∈ cs.getLast?, Text.isBlank c = false

theorem all_not_blank (o : Option Char) :
    o.all (!Text.isBlank ·) = true ↔ ∀ c ∈ o, Text.isBlank c = false := by
  cases o <;> simp

instance (cs : List Char) : Decidable (Neat cs) :=
  decidable_of_iff
    (cs.head?.all (!Text.isBlank ·) = true ∧ cs.getLast?.all (!Text.isBlank ·) = true)
    ⟨fun h => ⟨(all_not_blank _).1 h.1, (all_not_blank _).1 h.2⟩,
      fun h => ⟨(all_not_blank _).2 h.head, (all_not_blank _).2 h.last⟩⟩

theorem Neat.append (ha : Neat a) (hb : Neat b) : Neat (a ++ b) := by
  constructor
  · intro c hc
    rw [List.head?_append] at hc
    cases a with
    | nil => exact hb.head c hc
    | cons d ds => exact ha.head c hc
  · intro c hc
    rw [List.getLast?_append] at hc
    cases hlast : b.getLast? with
    | none => exact ha.last c (by simpa [hlast] using hc)
    | some d => exact hb.last c (by simpa [hlast] using hc)

theorem neat_of_forall (h : ∀ c ∈ a, Text.isBlank c = false) : Neat a :=
  ⟨fun c hc => h c (List.mem_of_mem_head? hc), fun c hc => h c (List.mem_of_getLast? hc)⟩

theorem isBlank_of_isWordChar (h : isWordChar c = true) : Text.isBlank c = false := by
  have hbounds : 33 ≤ c.toNat ∧ c.toNat ≤ 132 := by
    by_cases hu : c = '_'
    · subst hu
      decide
    · simp only [isWordChar, Char.isAlphanum, isAlpha_eq, Char.isDigit, hu, decide_false,
        Bool.or_false, Bool.or_eq_true, Bool.and_eq_true, decide_eq_true_eq, ge_iff_le,
        UInt32.le_iff_toNat_le] at h
      have hc : c.toNat = c.val.toNat := rfl
      have h0 : '0'.val.toNat = 48 := rfl
      have h9 : '9'.val.toNat = 57 := rfl
      have hA : 'A'.val.toNat = 65 := rfl
      have hZ : 'Z'.val.toNat = 90 := rfl
      have ha : 'a'.val.toNat = 97 := rfl
      have hz : 'z'.val.toNat = 122 := rfl
      omega
  rw [Text.isBlank, Bool.eq_false_iff]
  intro hblank
  obtain ⟨r, hr, hin⟩ := List.any_eq_true.1 hblank
  simp only [Bool.and_eq_true, decide_eq_true_eq] at hin
  have hranges : ∀ r ∈ Text.blankRanges, r.2 < 33 ∨ 132 < r.1 := by decide
  have := hranges r hr
  omega

theorem neat_word {s : String} (h : IsWord s.toList) : Neat s.toList :=
  neat_of_forall fun c hc => isBlank_of_isWordChar (h.2 c hc)

theorem dropWhile_blank (ha : ∀ c ∈ a.head?, Text.isBlank c = false)
    (hb : ∀ c ∈ b.head?, Text.isBlank c = false) :
    (a ++ ' ' :: b).dropWhile Text.isBlank = if a = [] then b else a ++ ' ' :: b := by
  cases a with
  | nil =>
    have hspace : Text.isBlank ' ' = true := by decide
    cases b with
    | nil => simp [hspace]
    | cons c cs => simp [hspace, hb c rfl]
  | cons c cs => simp [ha c rfl]

/-- Trimming drops the blank next to an absent side. -/
theorem trim_sides {l o r : List Char} (hl : Neat l) (ho : Neat o) (hr : Neat r) (hne : o ≠ []) :
    (Text.trim (String.ofList (l ++ ' ' :: (o ++ ' ' :: r)))).toList =
      (if l = [] then o else l ++ ' ' :: o) ++ if r = [] then [] else ' ' :: r := by
  have hfront : ∀ c ∈ (o ++ ' ' :: r).head?, Text.isBlank c = false := by
    obtain ⟨c, cs, rfl⟩ := List.exists_cons_of_ne_nil hne
    exact ho.head
  obtain ⟨y, hy, hlast⟩ : ∃ y, (if l = [] then o else l ++ ' ' :: o) = y ∧
      ∀ c ∈ y.reverse.head?, Text.isBlank c = false := by
    refine ⟨_, rfl, ?_⟩
    rw [List.head?_reverse]
    split
    · exact ho.last
    · obtain ⟨c, cs, rfl⟩ := List.exists_cons_of_ne_nil hne
      have := ho.last
      rw [List.getLast?_append, List.getLast?_cons_cons]
      simpa [List.getLast?_cons] using this
  have hdrop : (if l = [] then o ++ ' ' :: r else l ++ ' ' :: (o ++ ' ' :: r)) = y ++ ' ' :: r := by
    rw [← hy]
    split <;> simp
  have hend := dropWhile_blank (a := r.reverse) (b := y.reverse)
    (by rw [List.head?_reverse]; exact hr.last) hlast
  rw [Text.trim, String.toList_ofList, String.toList_ofList, dropWhile_blank hl.head hfront, hdrop,
    hy, Text.dropEndWhile]
  have hreverse : (y ++ ' ' :: r).reverse = r.reverse ++ ' ' :: y.reverse := by simp
  rw [hreverse, hend]
  simp only [List.reverse_eq_nil_iff]
  split <;> simp

/-! ## Expressions -/

namespace Expr

/-- The expression has a text, which is read as the tokens. -/
def PrintsAs (e : Expr) (ts : List Token) : Prop :=
  ∃ text, e.print = .ok text ∧ Spells text.toList ts ∧
    (e.kind.isCompound = false → Neat text.toList)

/-- The expression has a text, which is read as its tokens. -/
def Printed (e : Expr) : Prop :=
  ∃ text, e.print = .ok text ∧ Spells text.toList e.tokens ∧
    (e.kind.isCompound = false → Neat text.toList)

/-- A text between characters that are no blanks. -/
theorem neat_between {cs : List Char} {c d : Char} (hc : Text.isBlank c = false)
    (hd : Text.isBlank d = false) : Neat (c :: (cs ++ [d])) := by
  constructor
  · rintro _ ⟨⟩
    exact hc
  · rw [← List.cons_append, List.getLast?_concat]
    rintro _ ⟨⟩
    exact hd

theorem neat_parenthesised (s : String) : Neat (parenthesised s).toList := by
  have htext : (parenthesised s).toList = '(' :: (s.toList ++ [')']) := by simp [parenthesised]
  rw [htext]
  exact neat_between (by decide) (by decide)

theorem PrintsAs.operand {e : Expr} (h : e.PrintsAs ts) :
    ∃ text, e.print = .ok text ∧ Neat (asOperand e.kind text).toList ∧
      Spells (asOperand e.kind text).toList (operandTokens e.kind ts) := by
  obtain ⟨text, htext, hspells, hneat⟩ := h
  refine ⟨text, htext, ?_⟩
  unfold asOperand operandTokens
  cases hk : e.kind.isCompound with
  | true => exact ⟨neat_parenthesised text, (closed_parenthesised hspells).spells⟩
  | false => exact ⟨hneat hk, hspells⟩

theorem PrintsAs.item {e : Expr} (h : e.PrintsAs ts) :
    ∃ text, e.print = .ok text ∧
      Spells (asItem e.kind text).toList (itemTokens e.kind ts) := by
  obtain ⟨text, htext, hspells, -⟩ := h
  refine ⟨text, htext, ?_⟩
  unfold asItem itemTokens
  split
  · exact (closed_parenthesised hspells).spells
  · exact hspells

theorem spells_operation {o : Operator} {l r : List Char} (hl : Neat l) (hr : Neat r)
    (hlt : Spells l ts) (hrt : Spells r us) :
    Spells (Text.trim (String.ofList (l ++ ' ' :: (o.spelling.toList ++ ' ' :: r)))).toList
      (ts ++ .ofOperator o :: us) := by
  have ho : Neat o.spelling.toList ∧ o.spelling.toList ≠ [] := by
    cases o <;> decide
  rw [trim_sides hl ho.1 hr ho.2]
  have hfront : Spells (if l = [] then o.spelling.toList else l ++ ' ' :: o.spelling.toList)
      (ts ++ [Token.ofOperator o]) := by
    split
    · next hnil =>
      subst hnil
      rw [hlt.yields.unique yields_nil]
      exact spells_operator o
    · have := hlt.space.spells_append (spells_operator o)
      rwa [List.append_assoc] at this
  have htokens : ts ++ .ofOperator o :: us = (ts ++ [Token.ofOperator o]) ++ us := by simp
  rw [htokens]
  refine hfront.append ?_ ?_
  · split
    · exact fun c hc => by cases hc
    · exact bounded_cons rfl
  · split
    · next hnil =>
      subst hnil
      exact hrt
    · exact (closed_space rfl).spells_append hrt

theorem printsAs_operation {o : Operator} {l r : Expr} {pos : Pos} (hl : l.PrintsAs ts)
    (hr : r.PrintsAs us) : (operation o l r pos).PrintsAs
      (operandTokens l.kind ts ++ .ofOperator o :: operandTokens r.kind us) := by
  obtain ⟨left, hleft, hlneat, hlt⟩ := hl.operand
  obtain ⟨right, hright, hrneat, hrt⟩ := hr.operand
  have htext : asOperand l.kind left ++ " " ++ o.spelling ++ " " ++ asOperand r.kind right =
      String.ofList ((asOperand l.kind left).toList ++ ' ' :: (o.spelling.toList ++
        ' ' :: (asOperand r.kind right).toList)) := by
    rw [← String.toList_inj]
    simp
  refine ⟨_, ?_, spells_operation (o := o) hlneat hrneat hlt hrt, fun hk => by cases hk⟩
  rw [← htext]
  simp only [operation, print, printOperands, hleft, hright]
  rfl

/-- Items with commas between them. -/
theorem spells_items {items : List Expr} (h : ∀ e ∈ items, e.Printed) :
    ∃ texts, printItems items = .ok texts ∧ texts.length = items.length ∧
      Spells (", ".intercalate texts).toList (tokensItems items) := by
  induction items with
  | nil => exact ⟨[], rfl, rfl, closed_nil.spells⟩
  | cons e items ih =>
    obtain ⟨text, htext, hspells⟩ := PrintsAs.item (h e List.mem_cons_self)
    obtain ⟨texts, htexts, hlength, hrest⟩ := ih fun d hd => h d (List.mem_cons_of_mem e hd)
    refine ⟨asItem e.kind text :: texts, by rw [printItems, htext, htexts]; rfl,
      congrArg (· + 1) hlength, ?_⟩
    cases items with
    | nil =>
      obtain rfl := List.length_eq_zero_iff.1 hlength
      rw [String.intercalate_singleton]
      exact hspells
    | cons e' items =>
      obtain ⟨t, ts, rfl⟩ : ∃ t ts, texts = t :: ts :=
        List.exists_cons_of_length_eq_add_one hlength
      exact spells_intercalate_cons hspells hrest

theorem printed_list {items : List Expr} {pos : Pos} (h : ∀ e ∈ items, e.Printed) :
    Printed { kind := .list, items, pos } := by
  obtain ⟨texts, htexts, -, hspells⟩ := spells_items h
  exact ⟨_, by rw [print, htexts]; rfl, hspells, fun hk => by cases hk⟩

section
variable (name : Value) {arg : Expr} {pos : Pos} (hneat : Neat name.name.toList)
  (hname : Spells name.name.toList ts)
include hneat hname

theorem printsAs_call (harg : arg.PrintsAs us) :
    (Parser.accessExpr .call name arg pos).PrintsAs (ts ++ inParentheses us) := by
  obtain ⟨text, htext, hspells, -⟩ := harg
  refine ⟨name.name ++ parenthesised text,
    by simp only [Parser.accessExpr, print, printArg, htext]; rfl, ?_, fun _ => ?_⟩
  · rw [String.toList_append]
    refine hname.append ?_ (closed_parenthesised hspells).spells
    simpa [parenthesised] using bounded_cons rfl
  · rw [String.toList_append]
    exact hneat.append (neat_parenthesised text)

theorem printsAs_arrayAcc (harg : arg.PrintsAs us) :
    (Parser.accessExpr .arrayAcc name arg pos).PrintsAs
      (ts ++ .ofPunct .lbracket :: us ++ [Token.ofPunct .rbracket]) := by
  obtain ⟨text, htext, hspells, -⟩ := harg
  have hlist : (name.name ++ "[" ++ text ++ "]").toList =
      name.name.toList ++ ('[' :: (text.toList ++ [']'])) := by simp
  refine ⟨name.name ++ "[" ++ text ++ "]",
    by simp only [Parser.accessExpr, print, printArg, htext]; rfl, ?_, fun _ => ?_⟩
  · have hopen := closed_punct .lbracket (by decide)
    have hclose := hspells.closed_append (c := ']') rfl (closed_punct .rbracket (by decide))
    rw [hlist, List.append_assoc]
    exact hname.append (bounded_cons rfl) (hopen.append hclose).spells
  · rw [hlist]
    exact hneat.append (neat_between (by decide) (by decide))

theorem printsAs_structAcc (member : Value) {mpos : Pos} (hmneat : Neat member.name.toList)
    (hmember : Spells member.name.toList us) :
    (Parser.accessExpr .structAcc name (.identifier member mpos) pos).PrintsAs
      (ts ++ .ofPunct .dot :: us) := by
  have hlist : (name.name ++ "." ++ member.name).toList =
      name.name.toList ++ (['.'] ++ member.name.toList) := by simp
  refine ⟨name.name ++ "." ++ member.name, rfl, ?_, fun _ => ?_⟩
  · rw [hlist]
    exact hname.append (bounded_cons rfl)
      ((closed_punct .dot (by decide)).spells_append hmember)
  · rw [hlist]
    exact hneat.append ((show Neat ['.'] by decide).append hmneat)

end

/-- **A regular expression is printed.** -/
theorem Regular.printed {e : Expr} (h : e.Regular definite) : e.Printed := by
  induction h with
  | none pos => exact ⟨"", rfl, closed_nil.spells, fun _ => ⟨by simp, by simp⟩⟩
  | int n pos h =>
    refine ⟨n.repr, rfl, spells_repr h, fun _ => neat_of_forall fun c hc => ?_⟩
    refine isBlank_of_isWordChar ?_
    have hdigit : c.isDigit = true :=
      Nat.isDigit_of_mem_toDigits (by decide) (by decide) (Nat.toList_repr ▸ hc)
    simp [isWordChar, Char.isAlphanum, hdigit]
  | string s pos h =>
    have hlist : ("\x22" ++ s ++ "\x22").toList = Lexeme.literalText .string s.toList := by
      simp [Lexeme.literalText, Literal.quote]
    have hclosed := closed_string h
    rw [String.ofList_toList] at hclosed
    refine ⟨"\x22" ++ s ++ "\x22", rfl, ?_, fun _ => ?_⟩
    · rw [hlist]
      exact hclosed.spells
    · rw [hlist]
      exact neat_between (by decide) (by decide)
  | char c pos h =>
    have hlist : ("\x27" ++ String.ofList [c] ++ "\x27").toList =
        Lexeme.literalText .character [c] := by
      simp [Lexeme.literalText, Literal.quote]
    refine ⟨"\x27" ++ String.ofList [c] ++ "\x27", rfl, ?_, fun _ => ?_⟩
    · rw [hlist]
      exact (closed_char h).spells
    · rw [hlist]
      exact neat_between (by decide) (by decide)
  | bool b pos =>
    cases b with
    | true => exact ⟨"true", rfl, spells_keyword .true_, fun _ => by decide⟩
    | false => exact ⟨"false", rfl, spells_keyword .false_, fun _ => by decide⟩
  | identifier s pos h => exact ⟨s, rfl, spells_name h, fun _ => neat_word h.1⟩
  | operation o l r pos ho _ _ _ ihl ihr => exact printsAs_operation ihl ihr
  | list items pos _ _ ih => exact printed_list ih
  | call s arg pos h _ ih =>
    exact printsAs_call (.text s) (neat_word h.1) (spells_name h) ih
  | arrayAcc s arg pos h _ ih =>
    exact printsAs_arrayAcc (.text s) (neat_word h.1) (spells_name h) ih
  | structAcc s m pos mpos h hm =>
    exact printsAs_structAcc (.text s) (neat_word h.1) (spells_name h) (.text m) (neat_word hm.1)
      (spells_name hm)

end Expr

end ToyLang
