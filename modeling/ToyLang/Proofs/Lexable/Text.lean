import ToyLang.Proofs.Printing.File

/-!
# Texts without lexical errors

A text is lexable if it is read as tokens none of which is an error, whichever they are. As with
`Spells` and `Closed` there are two strengths, for what a boundary has to follow (`Lexable`) and for
what anything may follow (`Sealed`). A computation is clean if it writes such tokens.
-/

set_option autoImplicit false

namespace ToyLang

/-- None of the tokens is an error. -/
def NoErrors (ts : List Token) : Prop := ∀ t ∈ ts, t.kind ≠ .error

/-- The text is read without errors where a boundary follows. -/
def Lexable (s : String) : Prop := ∃ ts, NoErrors ts ∧ Spells s.toList ts

/-- The text is read without errors whatever follows. -/
def Sealed (s : String) : Prop := ∃ ts, NoErrors ts ∧ Closed s.toList ts

/-- A name, or nothing where none could be read. -/
def MaybeName (s : String) : Prop := s = "" ∨ IsName s

/-- The computation writes tokens without errors. -/
def Clean (p : Printing Unit) : Prop := ∃ ts, NoErrors ts ∧ Writes p ts

variable {s t : String} {ts us : List Token}

/-! ## Tokens -/

theorem noErrors_nil : NoErrors [] := fun _ h => absurd h List.not_mem_nil

theorem NoErrors.append (ht : NoErrors ts) (hu : NoErrors us) : NoErrors (ts ++ us) :=
  List.forall_mem_append.2 ⟨ht, hu⟩

theorem noErrors_single {t : Token} (h : t.kind ≠ .error) : NoErrors [t] :=
  List.forall_mem_singleton.2 h

theorem noErrors_keyword (k : Keyword) : NoErrors [.ofKeyword k] :=
  noErrors_single (by simp [Token.ofKeyword])

theorem noErrors_punct (p : Punct) : NoErrors [.ofPunct p] :=
  noErrors_single (by simp [Token.ofPunct])

theorem noErrors_operator (o : Operator) : NoErrors [.ofOperator o] :=
  noErrors_single (by simp [Token.ofOperator])

theorem noErrors_word (s : String) : NoErrors [.ofWord s] := by
  refine noErrors_single ?_
  unfold Token.ofWord TokenKind.ofWord
  dsimp only
  split <;> simp

theorem NoErrors.inParentheses (h : NoErrors ts) : NoErrors (inParentheses ts) :=
  (noErrors_punct .lparen).append (h.append (noErrors_punct .rparen))

/-! ## Texts put together -/

theorem Sealed.lexable (h : Sealed s) : Lexable s := by
  obtain ⟨ts, hts, hs⟩ := h
  exact ⟨ts, hts, hs.spells⟩

theorem Sealed.then_lexable (hs : Sealed s) (ht : Lexable t) : Lexable (s ++ t) := by
  obtain ⟨ts, hts, hs⟩ := hs
  obtain ⟨us, hus, ht⟩ := ht
  exact ⟨ts ++ us, hts.append hus, hs.then_spells ht⟩

theorem Lexable.then_lexable (hs : Lexable s) (hbound : Bounded t.toList) (ht : Lexable t) :
    Lexable (s ++ t) := by
  obtain ⟨ts, hts, hs⟩ := hs
  obtain ⟨us, hus, ht⟩ := ht
  exact ⟨ts ++ us, hts.append hus, hs.then_spells hbound ht⟩

theorem Lexable.then_sealed (hs : Lexable s) (hbound : Bounded t.toList) (hne : t.toList ≠ [])
    (ht : Sealed t) : Sealed (s ++ t) := by
  obtain ⟨ts, hts, hs⟩ := hs
  obtain ⟨us, hus, ht⟩ := ht
  exact ⟨ts ++ us, hts.append hus, hs.then_closed hbound hne ht⟩

/-! ## Words and marks -/

theorem lexable_empty : Lexable "" := ⟨[], noErrors_nil, closed_nil.spells⟩

theorem lexable_word (h : IsWord s.toList) : Lexable s :=
  ⟨[.ofWord s], noErrors_word s, spells_word_of h⟩

theorem lexable_name (h : MaybeName s) : Lexable s := by
  rcases h with rfl | h
  · exact lexable_empty
  · exact lexable_word h.1

theorem neat_name (h : MaybeName s) : Neat s.toList := by
  rcases h with rfl | h
  · decide
  · exact neat_word h.1

/-- The text of a type is a word, also that of an absent one. -/
theorem lexable_type (d : DataType) : Lexable d.text := by
  refine lexable_word ?_
  cases d with
  | void => decide
  | scalar s => cases s <;> decide

theorem sealed_punct (p : Punct) (hp : p ≠ .colon ∧ p ≠ .arrow) : Sealed p.spelling :=
  ⟨[.ofPunct p], noErrors_punct p, closed_punct p hp⟩

theorem lexable_keyword (k : Keyword) : Lexable k.spelling :=
  ⟨[.ofKeyword k], noErrors_keyword k, spells_keyword k⟩

/-- A keyword with a blank behind it. -/
theorem sealed_keyword (k : Keyword) (hs : s.toList = k.spelling.toList ++ [' ']) : Sealed s :=
  ⟨[.ofKeyword k], noErrors_keyword k, closed_keyword k hs⟩

theorem Lexable.semicolon (h : Lexable s) : Lexable (s ++ ";") :=
  h.then_lexable (bounded_cons rfl) (sealed_punct .semicolon (by decide)).lexable

/-- A keyword with a blank in front of it. -/
theorem Lexable.then_keyword (h : Lexable s) (k : Keyword)
    (ht : t.toList = ' ' :: k.spelling.toList) : Lexable (s ++ t) := by
  obtain ⟨ts, hts, hs⟩ := h
  exact ⟨ts ++ [Token.ofKeyword k], hts.append (noErrors_keyword k), hs.then_keyword k ht⟩

theorem Lexable.colon (h : Lexable s) : Sealed (s ++ " : ") := by
  obtain ⟨ts, hts, hs⟩ := h
  exact ⟨ts ++ [Token.ofPunct .colon], hts.append (noErrors_punct .colon), hs.colon⟩

theorem sealed_assign : Sealed " := " :=
  ⟨[.ofOperator .assign], noErrors_operator .assign, closed_assign⟩

theorem Lexable.assign (h : Lexable s) : Sealed (s ++ " := ") :=
  h.then_sealed (bounded_cons rfl) (by decide) sealed_assign

/-- A name and its type behind a sealed piece. -/
theorem Sealed.typed {name : String} (hs : Sealed s) (h : MaybeName name) (d : DataType) :
    Lexable (s ++ name ++ " : " ++ d.text) :=
  (hs.then_lexable (lexable_name h)).colon.then_lexable (lexable_type d)

/-- Texts with commas between them. -/
theorem lexable_intercalate {texts : List String} (h : ∀ s ∈ texts, Lexable s) :
    Lexable (", ".intercalate texts) := by
  induction texts with
  | nil => exact lexable_empty
  | cons s texts ih =>
    obtain ⟨hs, htexts⟩ := List.forall_mem_cons.1 h
    cases texts with
    | nil => rwa [String.intercalate_singleton]
    | cons t texts =>
      obtain ⟨ts, hts, hs⟩ := hs
      obtain ⟨us, hus, h⟩ := ih htexts
      exact ⟨_, hts.append ((noErrors_punct .comma).append hus), spells_intercalate_cons hs h⟩

/-! ## Clean computations -/

section
variable {p q : Printing Unit}

theorem clean_pure : Clean (pure ()) := ⟨[], noErrors_nil, writes_pure⟩

theorem clean_line (h : Lexable s) : Clean (Printing.line s) := by
  obtain ⟨ts, hts, hs⟩ := h
  exact ⟨ts, hts, writes_line hs⟩

theorem Clean.then (hp : Clean p) (hq : Clean q) : Clean (do p; q) := by
  obtain ⟨ts, hts, hp⟩ := hp
  obtain ⟨us, hus, hq⟩ := hq
  exact ⟨ts ++ us, hts.append hus, hp.then hq⟩

theorem Clean.gap (h : Clean p) : Clean (do p; Printing.gap) :=
  h.then ⟨[], noErrors_nil, writes_gap⟩

theorem clean_nested (h : Clean p) : Clean (Printing.nested p) := by
  obtain ⟨ts, hts, hp⟩ := h
  exact ⟨ts, hts, writes_nested hp⟩

theorem clean_forM {α : Type} {as : List α} {p : α → Printing Unit} (h : ∀ a ∈ as, Clean (p a)) :
    Clean (as.forM p) :=
  holds_forM clean_pure Clean.then h

/-- What an expression gives is there at once. -/
theorem Clean.of_ok {α : Type} {x : Except PrintError α} {a : α} {p : α → Printing Unit}
    (hx : x = .ok a) (h : Clean (p a)) : Clean (do p (← x)) := by
  subst hx
  exact h

theorem clean_end : Clean (Printing.line "end") := clean_line (lexable_keyword .end_)

end

end ToyLang
