import Mathlib.Data.List.DropRight
import Mathlib.Data.List.Forall2
import ToyLang.Proofs.Lexing.Text
import ToyLang.Token.Tape

/-!
# Positions are tracked

A tape counts characters, lines and columns while it reads. In whatever order its operations come,
and wherever one of them fails, its index and its position are those of one place in the text
(`Tape.StandsIn`).

* `Pos.start_after`: the position behind a text, counted by its line feeds.
* `Cursor.Reaches`: a cursor that has moved on in its text and has kept count; `Cursor.reaches_next`
  and its siblings say that everything that moves a cursor does so.
* `Tape.StandsIn.behind`: what an operation leaves, failed or not, stands in the text.
* `positions_tracked`: so does what any row of operations leaves, and from there on the tokens stand
  where their lexemes begin, each behind the one before.
-/

set_option autoImplicit false

namespace ToyLang

variable {s cs w text rest : List Char} {p q : Pos} {ts : List Token}

/-! ## Lines and columns -/

/-- The position behind a text: its line is one more than there are line feeds, its column one more
than there are characters behind the last of them. -/
def Pos.counted (text : List Char) : Pos :=
  ⟨1 + text.count '\n', 1 + (text.rtakeWhile (· ≠ '\n')).length⟩

/-- Counting character by character comes to the same. -/
theorem Pos.start_after (text : List Char) : Pos.start.after text = Pos.counted text := by
  induction text using List.reverseRecOn with
  | nil => rfl
  | append_singleton text c ih =>
    rw [after_append, ih, after_cons, after_nil, advance]
    by_cases hc : c = '\n'
    · subst hc
      have hcount : (text ++ ['\n']).count '\n' = text.count '\n' + 1 := by simp
      have hline : (text ++ ['\n']).rtakeWhile (· ≠ '\n') = [] := by simp
      rw [if_pos rfl, counted, counted, hcount, hline]
      exact congrArg (Pos.mk · 1) (by simp only; omega)
    · have hcount : (text ++ [c]).count '\n' = text.count '\n' := by simp [hc]
      have hline : (text ++ [c]).rtakeWhile (· ≠ '\n') = text.rtakeWhile (· ≠ '\n') ++ [c] := by
        simp [hc]
      rw [if_neg hc, counted, counted, hcount, hline, List.length_append]
      exact congrArg (Pos.mk _) (by simp only [List.length_singleton]; omega)

/-! ## Cursors that move on -/

/-- The second cursor is the first one further on in its text. -/
def Cursor.Reaches (c d : Cursor) : Prop :=
  ∃ read, c.rest = read ++ d.rest ∧ d.pos = c.pos.after read

namespace Cursor

variable {c d e : Cursor}

theorem Reaches.refl (c : Cursor) : c.Reaches c := ⟨[], rfl, rfl⟩

theorem Reaches.trans (h : c.Reaches d) (h' : d.Reaches e) : c.Reaches e := by
  obtain ⟨read, hrest, hpos⟩ := h
  obtain ⟨more, hrest', hpos'⟩ := h'
  exact ⟨read ++ more, by rw [hrest, hrest', List.append_assoc],
    by rw [hpos', hpos, Pos.after_append]⟩

theorem reaches_past (h : text ++ rest = c.rest) : c.Reaches (c.past text rest) :=
  ⟨text, h.symm, rfl⟩

theorem reaches_skipLayout (c : Cursor) : c.Reaches c.skipLayout :=
  reaches_past (layout_append false c.rest)

theorem reaches_skipLine (c : Cursor) : c.Reaches c.skipLine :=
  reaches_past List.takeWhile_append_dropWhile

theorem reaches_read (c : Cursor) : c.Reaches c.read.2 := by
  obtain ⟨_ | ⟨ch, cs⟩, p⟩ := c
  · exact .refl _
  · simp only [read]
    split
    · next l hl => exact reaches_past (lexeme_append hl).1
    · next r hr => exact reaches_past (scrap_append hr)

theorem reaches_next (c : Cursor) : c.Reaches c.next.2 :=
  c.reaches_skipLayout.trans c.skipLayout.reaches_read

end Cursor

/-- So do the lexemes of a text. -/
theorem Pieces.reaches (h : Pieces p cs ts q rest) :
    (Cursor.mk cs p).Reaches ⟨rest, q⟩ := by
  induction h with
  | nil => exact .refl _
  | cons layout lexeme pieces ih =>
    exact (Cursor.reaches_past (List.append_assoc _ _ _)).trans ih

/-! ## Tapes -/

namespace Tape

/-- The tape is one of the text `s`, and its index and position are those of one place in it. -/
def StandsIn (t : Tape) (s : List Char) : Prop :=
  ∃ read rest, s = read ++ rest ∧ t = ⟨s, read.length, Pos.start.after read⟩

/-- The cursor on what the tape has not read. -/
def unread (t : Tape) : Cursor := ⟨t.source.drop t.index.toNat, t.pos⟩

theorem unread_mk (read rest : List Char) (p : Pos) :
    (Tape.mk (read ++ rest) read.length p).unread = ⟨rest, p⟩ := by
  simp [unread]

variable {t : Tape} {α : Type}

/-- Working as a cursor that moves on does to the tape what it does to the cursor. -/
theorem StandsIn.onCursor (h : t.StandsIn s) {f : Cursor → α × Cursor}
    (hf : ∀ c : Cursor, c.Reaches (f c).2) :
    (t.onCursor f).1 = (f t.unread).1 ∧ (t.onCursor f).2.unread = (f t.unread).2 ∧
      (t.onCursor f).2.StandsIn s := by
  obtain ⟨read, rest, rfl, rfl⟩ := h
  obtain ⟨more, hrest, hpos⟩ := hf ⟨rest, Pos.start.after read⟩
  have hsource : read ++ rest = (read ++ more) ++ (f ⟨rest, Pos.start.after read⟩).2.rest := by
    rw [List.append_assoc, ← hrest]
  -- the index moves on by as much as the unread part gets shorter, which is what `f` has read
  have hbehind : ((Tape.mk (read ++ rest) read.length (Pos.start.after read)).onCursor f).2 =
      ⟨read ++ rest, (read ++ more).length, Pos.start.after (read ++ more)⟩ := by
    have hlength := congrArg List.length hrest
    simp only [List.length_append] at hlength
    simp only [Tape.onCursor, Int.toNat_natCast, List.drop_left, hpos, Pos.after_append,
      List.length_append, Tape.mk.injEq, true_and, and_true]
    omega
  refine ⟨?_, ?_, ?_⟩
  · simp [Tape.onCursor, unread]
  · rw [hbehind, unread_mk, hsource, unread_mk, Pos.after_append, ← hpos]
  · exact hbehind ▸ ⟨read ++ more, _, hsource, rfl⟩

theorem StandsIn.index_nonneg (h : t.StandsIn s) : 0 ≤ t.index := by
  obtain ⟨read, rest, -, rfl⟩ := h
  exact Int.natCast_nonneg _

/-- There is nothing to read before index 0. -/
theorem StandsIn.settled_eq (h : t.StandsIn s)
    (f : List Char → Cursor → Except TapeError α × Cursor) : t.settled f = t.onCursor (f []) := by
  have hsettle : t.settle = (.ok [], t) := if_pos h.index_nonneg
  simp only [settled, hsettle]

theorem StandsIn.settled (h : t.StandsIn s) {f : List Char → Cursor → Except TapeError α × Cursor}
    (hf : ∀ c : Cursor, c.Reaches (f [] c).2) : (t.settled f).2.StandsIn s := by
  rw [h.settled_eq]
  exact (h.onCursor hf).2.2

/-- Behind the end nothing is read, and before it one character. -/
theorem StandsIn.next (h : t.StandsIn s) : t.next.2.StandsIn s := by
  obtain ⟨read, rest, rfl, rfl⟩ := h
  cases rest with
  | nil =>
    have hend : (Tape.mk (read ++ []) read.length (Pos.start.after read)).atEnd = true := by
      simp [atEnd]
    rw [Tape.next, if_pos hend]
    exact ⟨read, [], rfl, rfl⟩
  | cons c rest =>
    have hend : ¬(Tape.mk (read ++ c :: rest) read.length (Pos.start.after read)).atEnd = true := by
      simp only [atEnd, decide_eq_true_eq, List.length_append, List.length_cons]
      omega
    have hread : (read ++ c :: rest)[read.length]? = some c := by simp
    rw [Tape.next, if_neg hend]
    simp only [Int.natCast_nonneg, if_true, Int.toNat_natCast, hread]
    refine ⟨read ++ [c], rest, by simp, ?_⟩
    simp [past, Pos.after_append]

theorem StandsIn.symbol? (h : t.StandsIn s) : t.symbol?.2.StandsIn s := by
  rw [Tape.symbol?, if_neg (Int.not_lt.2 h.index_nonneg)]
  refine (h.onCursor fun c => ?_).2.2
  split
  · next l hl => exact Cursor.reaches_past (Lexeme.symbol?_append hl).1
  · exact .refl c

/-- Whatever closes the literal, the tape is behind the closing quote or at the end of the text. -/
theorem StandsIn.quoted (h : t.StandsIn s) (quote : String) (start : Pos) :
    (t.quoted quote start).2.StandsIn s := by
  rw [Tape.quoted, if_neg fun hq => absurd hq.2 (Int.not_lt.2 h.index_nonneg)]
  refine h.settled fun c => ?_
  dsimp only
  split
  · next body q rest hclose =>
    have hbody : quotedBody q c.rest = (body, some rest) := by
      split at hclose
      · obtain ⟨_, hrest, heq⟩ := Option.map_eq_some_iff.1 hclose
        cases heq
        exact Prod.ext rfl hrest
      · cases hclose
    refine Cursor.reaches_past ?_
    rw [eq_append_of_quotedBody hbody, List.append_assoc]
    rfl
  · exact Cursor.reaches_past (List.append_nil _)

/-- A tape reads the tokens of the cursor on what it has not read. -/
theorem StandsIn.token (h : t.StandsIn s) :
    t.token.1 = t.unread.next.1.mapError .lexical ∧
      t.token.2.unread = t.unread.next.2 ∧ t.token.2.StandsIn s := by
  have htoken : t.token = t.onCursor fun c => (c.next.1.mapError .lexical, c.next.2) := by
    rw [Tape.token, h.settled_eq]
    congr 1
    funext c
    rcases c.next with ⟨_ | _, _⟩ <;> rfl
  rw [htoken]
  exact h.onCursor Cursor.reaches_next

/-! ## Operations one after the other -/

/-- What can be done with a tape. To go through its tokens is to take them one by one. -/
inductive Action where
  | peek (offset : Int)
  | atEnd
  | next
  | skipLayout
  | skipLine
  | symbol
  | quoted (quote : String) (start : Pos)
  | token

/-- The tape behind an operation, which may have failed. -/
def behind (t : Tape) : Action → Tape
  | .peek _ | .atEnd => t
  | .next => t.next.2
  | .skipLayout => t.skipLayout.2
  | .skipLine => t.skipLine.2
  | .symbol => t.symbol?.2
  | .quoted quote start => (t.quoted quote start).2
  | .token => t.token.2

/-- **Every operation keeps the tape at a place of its text**, failed or not. -/
theorem StandsIn.behind (h : t.StandsIn s) (a : Action) : (t.behind a).StandsIn s := by
  cases a with
  | peek | atEnd => exact h
  | next => exact h.next
  | skipLayout => exact h.settled Cursor.reaches_skipLayout
  | skipLine => exact h.settled Cursor.reaches_skipLine
  | symbol => exact h.symbol?
  | quoted quote start => exact h.quoted quote start
  | token => exact h.token.2.2

theorem StandsIn.run (h : t.StandsIn s) (actions : List Action) :
    (actions.foldl Tape.behind t).StandsIn s := by
  induction actions generalizing t with
  | nil => exact h
  | cons a actions ih => exact ih (h.behind a)

end Tape

/-! ## Where tokens begin -/

/-- The token carries the position of the offset, and there its lexeme begins; an end mark stands at
the end of the text. -/
def Token.BeginsAt (s : List Char) (offset : Nat) (t : Token) : Prop :=
  t.pos = Pos.counted (s.take offset) ∧
    ((∃ text rest, s.drop offset = text ++ rest ∧ IsLexeme t.kind t.value text rest) ∨
      t.kind = .eof ∧ offset = s.length)

theorem Token.beginsAt_endMark (s : List Char) :
    (Token.endMark (Pos.start.after s)).BeginsAt s s.length := by
  refine ⟨?_, .inr ⟨rfl, rfl⟩⟩
  rw [List.take_length]
  exact Pos.start_after s

theorem IsLexeme.text_ne_nil {k : TokenKind} {v : Payload} (h : IsLexeme k v text rest) :
    text ≠ [] := by
  obtain ⟨c, cs, -, -, hl⟩ := h.lexeme_eq
  exact (lexeme_append hl).2

/-- The lexemes behind `before` begin at offsets of their own, in ascending order and before the
rest. -/
theorem Pieces.offsets (h : Pieces p cs ts q rest) (before : List Char)
    (hp : p = Pos.start.after before) :
    ∃ offsets : List Nat, List.Forall₂ (Token.BeginsAt (before ++ cs)) offsets ts ∧
      offsets.Pairwise (· < ·) ∧
      ∀ o ∈ offsets, before.length ≤ o ∧ o + rest.length < (before ++ cs).length := by
  induction h generalizing before with
  | nil => exact ⟨[], .nil, .nil, fun _ ho => absurd ho List.not_mem_nil⟩
  | @cons p q w text cs rest k v ts layout lexeme pieces ih =>
    subst hp
    obtain ⟨offsets, hbegins, hascending, hbounds⟩ :=
      ih (before ++ (w ++ text)) (Pos.after_append _ _ _).symm
    have hassoc : before ++ (w ++ text) ++ cs = before ++ (w ++ (text ++ cs)) := by
      simp only [List.append_assoc]
    obtain ⟨read, hread, -⟩ := pieces.reaches
    have hlength := congrArg List.length hread
    have htext := List.length_pos_iff.2 lexeme.text_ne_nil
    simp only [List.length_append] at hlength hbounds
    rw [hassoc] at hbegins
    -- the first lexeme begins behind `w`, all others behind its text, which is not empty
    refine ⟨(before ++ w).length :: offsets, .cons ⟨?_, .inl ⟨text, cs, ?_, lexeme⟩⟩ hbegins,
      List.pairwise_cons.2 ⟨fun o ho => ?_, hascending⟩,
      List.forall_mem_cons.2 ⟨?_, fun o ho => ?_⟩⟩
    · rw [← List.append_assoc, List.take_left, ← Pos.start_after, Pos.after_append]
    · rw [← List.append_assoc, List.drop_left]
    · have := (hbounds o ho).1
      rw [List.length_append]
      omega
    · simp only [List.length_append]
      omega
    · have := hbounds o ho
      simp only [List.length_append]
      omega

/-- The tokens behind `before` stand where their lexemes begin, each behind the one before. -/
theorem tokens_offsets (before cs : List Char) :
    ∃ offsets : List Nat, offsets.Pairwise (· < ·) ∧ (∀ o ∈ offsets, before.length ≤ o) ∧
      List.Forall₂ (Token.BeginsAt (before ++ cs)) offsets
        (Cursor.mk cs (Pos.start.after before)).tokens.1 := by
  obtain ⟨us, q, rest, hpieces, hending⟩ := exists_pieces (Pos.start.after before) cs
  obtain ⟨offsets, hbegins, hascending, hbounds⟩ := hpieces.offsets before rfl
  rw [hpieces.tokens]
  cases hending with
  | layout hw =>
    obtain ⟨read, hread, hq⟩ := hpieces.reaches
    have hmark : q.after rest = Pos.start.after (before ++ cs) := by
      rw [show cs = read ++ rest from hread, Pos.after_append, Pos.after_append, ← hq]
    rw [tokens_of_end hw, hmark]
    refine ⟨offsets ++ [(before ++ cs).length], ?_, ?_, ?_⟩
    · refine List.pairwise_append.2 ⟨hascending, List.pairwise_singleton _ _, fun o ho o' ho' => ?_⟩
      have := (hbounds o ho).2
      rw [List.mem_singleton.1 ho']
      omega
    · refine List.forall_mem_append.2 ⟨fun o ho => (hbounds o ho).1, List.forall_mem_singleton.2 ?_⟩
      rw [List.length_append]
      omega
    · exact List.rel_append hbegins (.cons (Token.beginsAt_endMark _) .nil)
  | scrap hw h =>
    rw [tokens_of_scrap hw h, List.append_nil]
    exact ⟨offsets, hascending, fun o ho => (hbounds o ho).1, hbegins⟩

/-- **Positions are tracked.** Whatever row of operations is made on the tape of a text, failures
among them included, the tape stays in the text: its index is that of a place there, and its
position is the one of that place, counted by line feeds. From there on it reads the tokens of a
cursor, and each of these carries the position of the offset where its lexeme begins, the end mark
that of the end of the text; the offsets ascend strictly. -/
theorem positions_tracked (source : String) (actions : List Tape.Action) :
    let s := source.toList
    let t := actions.foldl Tape.behind { source := s }
    t.source = s ∧ 0 ≤ t.index ∧ t.index ≤ s.length ∧
      t.pos = Pos.counted (s.take t.index.toNat) ∧
      t.token.1 = t.unread.next.1.mapError .lexical ∧ t.token.2.unread = t.unread.next.2 ∧
      ∃ offsets : List Nat, offsets.Pairwise (· < ·) ∧ (∀ o ∈ offsets, t.index ≤ o) ∧
        List.Forall₂ (Token.BeginsAt s) offsets t.unread.tokens.1 := by
  intro s t
  have ht : t.StandsIn s := Tape.StandsIn.run ⟨[], s, rfl, rfl⟩ actions
  obtain ⟨hread, hbehind, -⟩ := ht.token
  have hindex := ht.index_nonneg
  obtain ⟨read, rest, hs, htape⟩ := ht
  obtain ⟨offsets, hascending, hbounds, hbegins⟩ := tokens_offsets read rest
  have hunread : t.unread = ⟨rest, Pos.start.after read⟩ := by
    rw [htape, hs, Tape.unread_mk]
  rw [← hunread, ← hs] at hbegins
  refine ⟨by rw [htape], hindex, ?_, ?_, hread, hbehind, offsets, hascending, fun o ho => ?_,
    hbegins⟩
  · rw [htape, hs, List.length_append]
    exact Int.ofNat_le.2 (Nat.le_add_right _ _)
  · rw [htape, Int.toNat_natCast, hs, List.take_left]
    exact Pos.start_after read
  · rw [htape]
    exact Int.ofNat_le.2 (hbounds o ho)

end ToyLang
