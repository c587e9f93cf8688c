import ToyLang.Token.Stream

/-!
# What a stream is going to deliver

`Stream.view` is the tokens a stream has yet to deliver: a finite row, and how it closes, with an
end mark that is delivered ever after or with a lexical failure. Feed, held token and remembered end
mark are gone from it: a stream that reads from a text and one that reads from the list of its
tokens have one view.

* `Stream.next_view`, `Stream.putBack_view`: the two operations of a stream are those of its view.
* `View.Delivers T`: every token it delivers is in `T`.
* `View.Within m`, `View.Taken t m`: the view is that of a stream between reads, or one with the
  token `t` in hand, and at most `m` tokens come before the end mark.
-/

set_option autoImplicit false

namespace ToyLang

/-- The tokens to come, how the row of them closes, and whether the first one was put back. -/
structure View where
  ahead : List Token
  close : Except LexicalError Token
  held : Bool := false

namespace View

/-- The next token. Behind a lexical failure there is the end mark at no position. -/
def next (v : View) : Except LexicalError Token × View :=
  match v.ahead, v.close with
  | t :: ts, _ => (.ok t, { v with ahead := ts, held := false })
  | [], .ok e => (.ok e, { v with held := false })
  | [], .error x => (.error x, { v with close := .ok (.endMark ⟨0, 0⟩), held := false })

/-- The view with a token in front. -/
def push (v : View) (t : Token) : View := { v with ahead := t :: v.ahead, held := true }

theorem close_of_next {v v' : View} {t : Token} (h : v.next = (.ok t, v')) :
    v'.close = v.close := by
  obtain ⟨_ | ⟨s, ss⟩, x | e, held⟩ := v <;> simp only [next, Prod.mk.injEq, reduceCtorEq,
    false_and] at h <;> rw [← h.2]

/-- A read takes the first token, or the end mark where there is none. -/
theorem ahead_of_next {v v' : View} {t : Token} (h : v.next = (.ok t, v')) :
    v.ahead = t :: v'.ahead ∨ v.ahead = [] ∧ v'.ahead = [] ∧ v.close = .ok t := by
  obtain ⟨_ | ⟨s, ss⟩, x | e, held⟩ := v
  · cases h
  · cases h
    exact .inr ⟨rfl, rfl, rfl⟩
  · cases h
    exact .inl rfl
  · cases h
    exact .inl rfl

theorem close_of_failure {v : View} {e : LexicalError} (h : v.next.1 = .error e) :
    v.close = .error e := by
  obtain ⟨_ | ⟨s, ss⟩, x | t, held⟩ := v <;> simp_all [next]

/-- The row up to its first end mark; without one it closes as `close` says. -/
def upToMark (close : Except LexicalError Token) : List Token → View
  | [] => { ahead := [], close }
  | t :: ts =>
    if t.kind = .eof then { ahead := [], close := .ok t }
    else { upToMark close ts with ahead := t :: (upToMark close ts).ahead }

end View

/-! ## The view of a stream -/

/-- The tokens of a feed up to its first end mark. -/
def Feed.view : Feed → View
  | listed ts => .upToMark (.ok (.endMark ⟨0, 0⟩)) ts
  | text c => .upToMark (c.tokens.2.elim (.ok (.endMark ⟨0, 0⟩)) .error) c.tokens.1

namespace Stream

/-- The view behind the put-back place. -/
def unheldView (s : Stream) : View :=
  match s.ended with
  | some e => { ahead := [], close := .ok e }
  | none => s.feed.view

/-- What the stream is going to deliver. -/
def view (s : Stream) : View :=
  match s.held with
  | some t => s.unheldView.push t
  | none => s.unheldView

end Stream

theorem Cursor.tokens_of_next {c c' : Cursor} {t : Token} (h : c.next = (.ok t, c')) :
    c.tokens = if t.kind = .eof then ([t], none) else (t :: c'.tokens.1, c'.tokens.2) := by
  rw [Cursor.tokens.eq_def]
  split
  · next h' =>
    rw [h] at h'
    cases h'
    split <;> rfl
  · next h' => rw [h] at h'; cases h'

theorem Cursor.tokens_of_failure {c c' : Cursor} {e : LexicalError}
    (h : c.next = (.error e, c')) : c.tokens = ([], some e) := by
  rw [Cursor.tokens.eq_def]
  split
  · next h' => rw [h] at h'; cases h'
  · next h' => rw [h] at h'; cases h'; rfl

namespace View

theorem close_upToMark (close : Except LexicalError Token) (ts : List Token) :
    (upToMark close ts).close =
      match ts.find? fun t => t.kind = .eof with
      | some e => .ok e
      | none => close := by
  induction ts with
  | nil => rfl
  | cons t ts ih =>
    rw [upToMark]
    split
    · next h => simp [h]
    · next h => simp [h, ih]

/-- The tokens that come are those before the first end mark. -/
theorem ahead_upToMark (close : Except LexicalError Token) (ts : List Token) :
    (upToMark close ts).ahead = ts.takeWhile (·.kind ≠ .eof) := by
  induction ts with
  | nil => rfl
  | cons t ts ih =>
    rw [upToMark]
    split
    · next h => simp [h]
    · next h => simp [h, ih]

/-- Tokens that are no end marks are delivered before everything else. -/
theorem upToMark_append (close : Except LexicalError Token) {ts : List Token}
    (h : ∀ t ∈ ts, t.kind ≠ .eof) (us : List Token) :
    upToMark close (ts ++ us) =
      { upToMark close us with ahead := ts ++ (upToMark close us).ahead } := by
  induction ts with
  | nil => rfl
  | cons t ts ih =>
    obtain ⟨ht, hts⟩ := List.forall_mem_cons.1 h
    rw [List.cons_append, upToMark, if_neg ht, ih hts]
    rfl

/-- A row without an end mark is delivered as it is. -/
theorem upToMark_of_ne_eof {close : Except LexicalError Token} {ts : List Token}
    (h : ∀ t ∈ ts, t.kind ≠ .eof) : upToMark close ts = { ahead := ts, close } := by
  have := upToMark_append close h []
  simpa only [List.append_nil, upToMark] using this

/-- An end mark behind a row without one closes it. -/
theorem upToMark_append_mark {close : Except LexicalError Token} {ts : List Token} {mark : Token}
    (h : ∀ t ∈ ts, t.kind ≠ .eof) (hmark : mark.kind = .eof) :
    upToMark close (ts ++ [mark]) = { ahead := ts, close := .ok mark } := by
  rw [upToMark_append close h, upToMark, if_pos hmark, List.append_nil]

/-- Only tokens of the row come before its end mark. -/
theorem mem_of_mem_upToMark {close : Except LexicalError Token} {ts : List Token} {t : Token}
    (h : t ∈ (upToMark close ts).ahead) : t ∈ ts := by
  rw [ahead_upToMark] at h
  exact (List.takeWhile_sublist _).mem h

theorem upToMark_held (close : Except LexicalError Token) (ts : List Token) :
    (upToMark close ts).held = false := by
  induction ts with
  | nil => rfl
  | cons t ts ih => unfold upToMark; split <;> simp [ih]

/-- Reading from a row: a mark ends it, any other token is taken off it. -/
theorem next_upToMark_cons (close : Except LexicalError Token) (t : Token) (ts : List Token) :
    (upToMark close (t :: ts)).next =
      (.ok t, if t.kind = .eof then { ahead := [], close := .ok t } else upToMark close ts) := by
  rw [upToMark]
  split
  · rfl
  · simp only [next, Prod.mk.injEq, true_and]
    rw [← upToMark_held close ts]

end View

namespace Stream

theorem unheldView_held (s : Stream) : s.unheldView.held = false := by
  unfold unheldView Feed.view
  split
  · rfl
  · split <;> exact View.upToMark_held _ _

theorem view_held (s : Stream) : s.view.held = s.held.isSome := by
  unfold view
  split
  · next h => simp [View.push, h]
  · next h => simp [unheldView_held, h]

/-- Where nothing is held and no mark is known, the view is that of the feed. -/
theorem next_feed_view (f : Feed) :
    (Stream.mk f none none).next.1 = f.view.next.1 ∧
      (Stream.mk f none none).next.2.view = f.view.next.2 := by
  match f with
  | .listed [] => exact ⟨rfl, rfl⟩
  | .listed (t :: ts) =>
    refine ⟨by rw [Feed.view, View.next_upToMark_cons]; rfl, ?_⟩
    rw [Feed.view, View.next_upToMark_cons]
    by_cases ht : t.kind = .eof <;>
      simp [next, Feed.next, deliver, view, unheldView, Feed.view, ht]
  | .text c =>
    cases hc : c.next with
    | mk r c' =>
      cases r with
      | error e =>
        have hn : (Stream.mk (.text c) none none).next =
            (.error e, { feed := .listed [], held := none, ended := none }) := by
          simp [next, Feed.next, hc]
        simp [hn, view, unheldView, Feed.view, View.upToMark, View.next,
          Cursor.tokens_of_failure hc, Option.elim]
      | ok t =>
        have hn : (Stream.mk (.text c) none none).next =
            (.ok t, { feed := .text c', held := none,
                      ended := if t.kind = .eof then some t else none }) := by
          simp [next, Feed.next, hc, deliver]
        rw [hn, Feed.view, Cursor.tokens_of_next hc]
        by_cases ht : t.kind = .eof <;>
          simp [ht, view, unheldView, Feed.view, View.next_upToMark_cons]

/-- **Reading from a stream is reading from its view.** -/
theorem next_view (s : Stream) :
    s.next.1 = s.view.next.1 ∧ s.next.2.view = s.view.next.2 := by
  match s with
  | ⟨f, some t, ended⟩ =>
    have h := unheldView_held ⟨f, none, ended⟩
    refine ⟨rfl, ?_⟩
    show unheldView ⟨f, none, ended⟩ =
      ⟨(unheldView ⟨f, none, ended⟩).ahead, (unheldView ⟨f, none, ended⟩).close, false⟩
    rw [← h]
  | ⟨f, none, some e⟩ => exact ⟨rfl, rfl⟩
  | ⟨f, none, none⟩ => exact next_feed_view f

theorem view_of_next {s s' : Stream} {r : Except LexicalError Token} (hn : s.next = (r, s')) :
    s.view.next = (r, s'.view) := by
  obtain ⟨h1, h2⟩ := s.next_view
  rw [hn] at h1 h2
  exact Prod.ext h1.symm h2.symm

/-- A read takes the first of the tokens to come. -/
theorem next_of_ahead {s : Stream} {t : Token} {ts : List Token} (h : s.view.ahead = t :: ts) :
    ∃ s', s.next = (.ok t, s') ∧ s'.view = { ahead := ts, close := s.view.close } := by
  have hv : s.view.next = (.ok t, { ahead := ts, close := s.view.close }) := by
    rw [View.next, h]
  exact ⟨s.next.2, Prod.ext (s.next_view.1.trans (congrArg Prod.fst hv)) rfl,
    s.next_view.2.trans (congrArg Prod.snd hv)⟩

/-- **Putting back** prepends to the view of a stream whose place is free, and fails otherwise. -/
theorem putBack_view (s : Stream) (t : Token) :
    (s.view.held = false → ∃ s', s.putBack t = .ok s' ∧ s'.view = s.view.push t) ∧
      (s.view.held = true → ∃ o, s.putBack t = .error o) := by
  rw [view_held]
  match s with
  | ⟨f, some h, ended⟩ => exact ⟨by simp, fun _ => ⟨⟨h, t⟩, rfl⟩⟩
  | ⟨f, none, ended⟩ => exact ⟨fun _ => ⟨_, rfl, rfl⟩, by simp⟩

theorem view_of_putBack {s s' : Stream} {t : Token} (hb : s.putBack t = .ok s') :
    s'.view = s.view.push t := by
  cases hheld : s.view.held with
  | false =>
    obtain ⟨s'', hb', hview⟩ := (s.putBack_view t).1 hheld
    cases hb.symm.trans hb'
    exact hview
  | true =>
    obtain ⟨o, hb'⟩ := (s.putBack_view t).2 hheld
    cases hb.symm.trans hb'

end Stream

namespace Stream

/-- The stream behind some reads. -/
def behind : Nat → Stream → Stream
  | 0, s => s
  | n + 1, s => behind n s.next.2

/-- Where a read gives a token and changes nothing of the view, every further read does. -/
theorem next_behind {s : Stream} {t : Token} (h : s.view.next = (.ok t, s.view)) (n : Nat) :
    (s.behind n).next.1 = .ok t := by
  induction n generalizing s with
  | zero => exact s.next_view.1.trans (congrArg Prod.fst h)
  | succ n ih =>
    have hv : s.next.2.view = s.view := s.next_view.2.trans (congrArg Prod.snd h)
    exact ih (by rw [hv]; exact h)

end Stream

/-! ## Views between reads and with a token in hand -/

namespace View

/-- The tokens before the end mark. -/
def left (v : View) : Nat := v.ahead.countP fun t => t.kind ≠ .eof

/-- Only an end mark closes the row, and one that was put back is the one that closes it. -/
structure Sane (v : View) : Prop where
  mark : ∀ e, v.close = .ok e → e.kind = .eof
  last : ∀ t ∈ v.ahead, t.kind = .eof → v.ahead = [t] ∧ v.close = .ok t

/-- A view between reads with at most `m` tokens before the end mark. -/
structure Within (v : View) (m : Nat) : Prop where
  sane : v.Sane
  left_le : v.left ≤ m

/-- A view right behind the token `t`, with at most `m` tokens before the end mark, counting `t`. -/
structure Taken (v : View) (t : Token) (m : Nat) : Prop where
  free : v.held = false
  within : (v.push t).Within m

variable {v v' : View} {t : Token} {m m' : Nat}

theorem left_push (v : View) (t : Token) :
    (v.push t).left = v.left + if t.kind = .eof then 0 else 1 := by
  by_cases h : t.kind = .eof <;> simp [left, push, h]

theorem Within.mono (h : v.Within m) (hm : m ≤ m') : v.Within m' :=
  ⟨h.sane, Nat.le_trans h.left_le hm⟩

theorem Taken.mono (h : v.Taken t m) (hm : m ≤ m') : v.Taken t m' := ⟨h.free, h.within.mono hm⟩

/-- What a read gives can be put back, and nothing has changed. -/
theorem taken_of_next (h : v.Within m) (hn : v.next = (.ok t, v')) :
    v'.Taken t m ∧ (v'.push t).left = v.left := by
  obtain ⟨ahead, close, held⟩ := v
  match ahead, close, hn with
  | t :: ts, close, hn =>
    cases hn
    exact ⟨⟨rfl, ⟨h.sane.mark, h.sane.last⟩, h.left_le⟩, rfl⟩
  | [], .ok e, hn =>
    cases hn
    have he := h.sane.mark _ rfl
    refine ⟨⟨rfl, ⟨h.sane.mark, ?_⟩, ?_⟩, ?_⟩ <;> simp [push, left, he]

/-- Behind the token in hand. -/
theorem Taken.behind (h : v.Taken t m) : v.Within m := by
  refine ⟨⟨h.within.sane.mark, fun s hs he => ?_⟩, ?_⟩
  · have := (h.within.sane.last s (List.mem_cons_of_mem _ hs) he).1
    simp only [push, List.cons.injEq] at this
    rw [this.2] at hs
    simp at hs
  · have := h.within.left_le
    rw [left_push] at this
    omega

/-- Behind a token in hand that is not the end mark one token less is left. -/
theorem Taken.shorter (h : v.Taken t m) (ht : t.kind ≠ .eof) : ∃ k, m = k + 1 ∧ v.Within k := by
  have := h.within.left_le
  rw [left_push, if_neg ht] at this
  exact ⟨m - 1, by omega, h.behind.sane, by omega⟩

/-- Behind the end mark there is nothing but the end mark. -/
theorem Taken.next_mark (h : v.Taken t m) (ht : t.kind = .eof) : v.next = (.ok t, v) := by
  obtain ⟨ha, hc⟩ := h.within.sane.last t (List.mem_cons_self) ht
  have hf := h.free
  obtain ⟨ahead, close, held⟩ := v
  simp only [push, List.cons.injEq, true_and] at ha hc hf
  subst ha hc hf
  rfl

theorem sane_upToMark {close : Except LexicalError Token}
    (h : ∀ e, close = .ok e → e.kind = .eof) (ts : List Token) :
    (upToMark close ts).Sane ∧ ∀ t ∈ (upToMark close ts).ahead, t.kind ≠ .eof := by
  induction ts with
  | nil => exact ⟨⟨h, by simp [upToMark]⟩, by simp [upToMark]⟩
  | cons t ts ih =>
    rw [upToMark]
    split
    · next ht =>
      refine ⟨⟨fun e he => ?_, by simp⟩, by simp⟩
      cases he
      exact ht
    · next ht =>
      have hall : ∀ s ∈ t :: (upToMark close ts).ahead, s.kind ≠ .eof :=
        List.forall_mem_cons.2 ⟨ht, ih.2⟩
      exact ⟨⟨ih.1.mark, fun s hs he => absurd he (hall s hs)⟩, hall⟩

theorem left_upToMark_cons (close : Except LexicalError Token) (t : Token) (ts : List Token) :
    (upToMark close (t :: ts)).left =
      if t.kind = .eof then 0 else (upToMark close ts).left + 1 := by
  rw [upToMark]
  split
  · rfl
  · next ht => simp [left, ht]

theorem left_upToMark_le (close : Except LexicalError Token) (ts : List Token) :
    (upToMark close ts).left ≤ ts.length := by
  induction ts with
  | nil => exact Nat.le_refl 0
  | cons t ts ih =>
    rw [left_upToMark_cons, List.length_cons]
    split <;> omega

end View

/-- A text has no more tokens than characters. -/
theorem Cursor.left_view_le (c : Cursor) : (Feed.text c).view.left ≤ c.rest.length := by
  generalize hn : c.rest.length = n
  induction n using Nat.strongRecOn generalizing c with
  | ind n ih =>
    cases hc : c.next with
    | mk r c' =>
      cases r with
      | error e =>
        rw [Feed.view, Cursor.tokens_of_failure hc]
        exact Nat.zero_le _
      | ok t =>
        rw [Feed.view, Cursor.tokens_of_next hc]
        by_cases ht : t.kind = .eof
        · rw [if_pos ht, View.left_upToMark_cons, if_pos ht]
          exact Nat.zero_le _
        · have hlt := Cursor.rest_length_lt_of_next hc ht
          have hle := ih c'.rest.length (by omega) c' rfl
          rw [Feed.view] at hle
          rw [if_neg ht, View.left_upToMark_cons, if_neg ht]
          exact Nat.succ_le_of_lt (Nat.lt_of_le_of_lt hle (hn ▸ hlt))

namespace Stream

/-- The size of a fresh stream bounds what is ahead of it. -/
theorem view_within {s : Stream} (hh : s.held = none) (he : s.ended = none) :
    s.view.Within s.size := by
  obtain ⟨f, held, ended⟩ := s
  subst hh he
  show f.view.Within (f.size + 0)
  match f with
  | .listed ts =>
    exact ⟨(View.sane_upToMark (by rintro _ ⟨⟩; rfl) ts).1, View.left_upToMark_le _ ts⟩
  | .text c =>
    refine ⟨(View.sane_upToMark (fun e he => ?_) _).1, c.left_view_le⟩
    cases hx : c.tokens.2 <;> rw [hx] at he <;> cases he
    rfl

end Stream

/-! ## Where tokens come from -/

/-- Every token of the view, its end mark included, is in `T`. -/
structure View.Delivers (T : Token → Prop) (v : View) : Prop where
  ahead : ∀ t ∈ v.ahead, T t
  close : ∀ t, v.close = .ok t → T t

namespace View

variable {T : Token → Prop} {v v' : View} {t : Token}

theorem Delivers.push (h : v.Delivers T) (ht : T t) : (v.push t).Delivers T :=
  ⟨List.forall_mem_cons.2 ⟨ht, h.ahead⟩, h.close⟩

theorem Delivers.next (h : v.Delivers T) (hn : v.next = (.ok t, v')) : T t ∧ v'.Delivers T := by
  have hclose := close_of_next hn
  rcases ahead_of_next hn with hahead | ⟨hnil, hnil', ht⟩
  · obtain ⟨ht, hts⟩ := List.forall_mem_cons.1 (hahead ▸ h.ahead)
    exact ⟨ht, hts, hclose ▸ h.close⟩
  · exact ⟨h.close t ht, hnil' ▸ hnil ▸ h.ahead, hclose ▸ h.close⟩

theorem delivers_upToMark {close : Except LexicalError Token} {ts : List Token}
    (hts : ∀ t ∈ ts, T t) (hclose : ∀ t, close = .ok t → T t) :
    (upToMark close ts).Delivers T := by
  induction ts with
  | nil => exact ⟨hts, hclose⟩
  | cons t ts ih =>
    obtain ⟨ht, hts⟩ := List.forall_mem_cons.1 hts
    rw [upToMark]
    split
    · refine ⟨fun _ h => absurd h List.not_mem_nil, fun e he => ?_⟩
      cases he
      exact ht
    · exact ⟨List.forall_mem_cons.2 ⟨ht, (ih hts).ahead⟩, (ih hts).close⟩

end View

end ToyLang
