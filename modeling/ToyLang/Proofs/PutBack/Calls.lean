import ToyLang.Parser.Builder
import ToyLang.Proofs.View

/-!
# Calls to the stream

A run calls its stream to read tokens and to put tokens back (`Builder.calls`, which lead from the
stream at the beginning to the one at the end: `Builder.after_calls`). What the reads give is
delivered to the run (`Builder.delivered`). The calls are disciplined if
no token is put back over another one, if every token that is put back is the one that was read
immediately before, and if what the stream still has to deliver is the rest of what it had
(`Builder.Disciplined`).

* `Builder.Careful Q b last`: a builder that has `last` in hand, the token that was read immediately
  before, puts back only what it has in hand;
* `Builder.Careful.disciplined`: a builder that is careful is disciplined in every session.
-/

set_option autoImplicit false

namespace ToyLang

/-! ## What a stream delivers -/

namespace Stream

/-- What the read behind `i` others gives. -/
def delivery (s : Stream) (i : Nat) : Except LexicalError Token := (s.behind i).next.1

/-- What `s'` delivers is the rest of what `s` delivers. -/
def IsRest (s' s : Stream) : Prop := ∃ n, ∀ i, s'.delivery i = s.delivery (n + i)

variable {s s' s'' : Stream} {t : Token}

theorem isRest_refl (s : Stream) : s.IsRest s := ⟨0, fun i => by rw [Nat.zero_add]⟩

theorem IsRest.trans (h' : s''.IsRest s') (h : s'.IsRest s) : s''.IsRest s := by
  obtain ⟨n', hn'⟩ := h'
  obtain ⟨n, hn⟩ := h
  exact ⟨n + n', fun i => by rw [hn', hn, Nat.add_assoc]⟩

/-- Behind a read there is the rest, also where the read failed. -/
theorem isRest_next (s : Stream) : s.next.2.IsRest s := ⟨1, fun i => by rw [Nat.add_comm]; rfl⟩

/-- Behind a read the place for a token is free. -/
theorem held_of_next {r : Except LexicalError Token} (h : s.next = (r, s')) : s'.held = none := by
  obtain ⟨feed, held, ended⟩ := s
  cases held with
  | some t =>
    cases h
    rfl
  | none =>
    cases ended with
    | some t =>
      cases h
      rfl
    | none =>
      unfold next at h
      dsimp only at h
      split at h <;> cases h <;> rfl

/-- A token that was just read can be put back. -/
theorem putBack_of_next (h : s.next = (.ok t, s')) :
    s'.putBack t = .ok { s' with held := some t } := by
  rw [putBack, held_of_next h]

/-- **Putting back the token that was just read** undoes the read. -/
theorem isRest_putBack (h : s.next = (.ok t, s')) :
    ({ s' with held := some t } : Stream).IsRest s := by
  refine ⟨0, fun i => ?_⟩
  rw [Nat.zero_add]
  cases i with
  | zero => exact (congrArg Prod.fst h).symm
  | succ i =>
    have hback : ({ s' with held := some t } : Stream).next.2 = s' := by
      show ({ s' with held := none } : Stream) = s'
      rw [← held_of_next h]
    show (behind i ({ s' with held := some t } : Stream).next.2).next.1 = (behind i s.next.2).next.1
    rw [hback, h]

end Stream

/-! ## Calls -/

/-- A call to a stream: a read, with the token it gave or the failure, or a token that is put
back. -/
inductive Call where
  | next (t : Token)
  | failed (e : LexicalError)
  | putBack (t : Token)
deriving DecidableEq

/-- The token that a call delivers. -/
def Call.delivered? : Call → Option Token
  | .next t => some t
  | .failed _ | .putBack _ => none

/-- The stream behind a call. A token that cannot be put back is lost. -/
def Stream.call (s : Stream) : Call → Stream
  | .next _ | .failed _ => s.next.2
  | .putBack t =>
    match s.putBack t with
    | .ok s' => s'
    | .error _ => s

namespace Builder

variable {α β : Type}

/-- The calls of a run to its stream, in order. -/
def calls : Builder α → Session → List Call
  | done _, _ => []
  | next k, s =>
    match s.stream.next with
    | (.ok t, stream) => .next t :: (k t).calls { s with stream }
    | (.error e, _) => [.failed e]
  | back t k, s =>
    match s.stream.putBack t with
    | .ok stream => .putBack t :: k.calls { s with stream }
    | .error _ => [.putBack t]
  | report p t k, s =>
    match s.diagnostics.report (p.seenAt t) with
    | (.ok (), diagnostics) => k.calls { s with diagnostics }
    | (.error _, _) => []
  | declare c k, s => k.calls { s with consts := s.consts ++ [c] }
  | fault _, _ => []

/-- The tokens that the stream delivers to a run. -/
def delivered (b : Builder α) (s : Session) : List Token := (b.calls s).filterMap Call.delivered?

/-- The calls of a run lead to the stream at its end. -/
theorem after_calls (b : Builder α) (s : Session) :
    (b.calls s).foldl Stream.call s.stream = (b.run s).2.stream := by
  induction b generalizing s with
  | done a | fault f => rfl
  | next k ih =>
    obtain ⟨r, stream, hn⟩ : ∃ r stream, s.stream.next = (r, stream) := ⟨_, _, rfl⟩
    cases r with
    | error e => simp [calls, run, hn, Stream.call]
    | ok t => simpa [calls, run, hn, Stream.call] using ih t { s with stream }
  | back t k ih =>
    cases hb : s.stream.putBack t with
    | error o => simp [calls, run, hb, Stream.call]
    | ok stream => simpa [calls, run, hb, Stream.call] using ih { s with stream }
  | report p t k ih =>
    obtain ⟨r, diagnostics, hr⟩ : ∃ r diagnostics,
        s.diagnostics.report (p.seenAt t) = (r, diagnostics) := ⟨_, _, rfl⟩
    cases r with
    | error d => simp [calls, run, hr]
    | ok _ => simpa [calls, run, hr] using ih { s with diagnostics }
  | declare c k ih => exact ih { s with consts := s.consts ++ [c] }

/-- **The discipline of a run**: no token is put back over another one, a token that is put back was
read immediately before, and what is left of the stream is the rest of it. -/
structure Disciplined (b : Builder α) (s : Session) : Prop where
  free : ∀ o, (b.run s).1 ≠ .error (.occupied o)
  justRead : ∀ before t behind, b.calls s = before ++ .putBack t :: behind →
    ∃ earlier, before = earlier ++ [.next t]
  rest : (b.run s).2.stream.IsRest s.stream

/-! ## Careful builders -/

/-- The builder puts back only the token it has in hand, and ends in `Q` for the token it then has
in hand. -/
def Careful (Q : α → Option Token → Prop) : Builder α → Option Token → Prop
  | done a, last => Q a last
  | next k, _ => ∀ t, (k t).Careful Q (some t)
  | back t k, last => last = some t ∧ k.Careful Q none
  | report _ _ k, last => k.Careful Q last
  | declare _ k, last => k.Careful Q last
  | fault _, _ => True

variable {Q : α → Option Token → Prop} {R : β → Option Token → Prop} {b : Builder α}
  {last : Option Token} {t : Token}

theorem Careful.bind {f : α → Builder β} (h : b.Careful Q last)
    (hf : ∀ a last, Q a last → (f a).Careful R last) : (b >>= f).Careful R last := by
  show (b.bind f).Careful R last
  induction b generalizing last with
  | done a => exact hf a last h
  | next k ih => exact fun t => ih t (h t)
  | back t k ih => exact ⟨h.1, ih h.2⟩
  | report p t k ih | declare c k ih => exact ih h
  | fault f => trivial

/-- The result of a builder of which it does not matter what it has in hand. -/
abbrev Whatever (_ : α) (_ : Option Token) : Prop := True

theorem careful_read : read.Careful (fun t last => last = some t) last := fun _ => rfl

theorem careful_putBack : (putBack t).Careful Whatever (some t) := ⟨rfl, trivial⟩

/-- A report leaves in hand what is there. -/
theorem careful_note (p : Problem) (t : Token) (last : Option Token) :
    (note p t).Careful (fun _ l => l = last) last := rfl

theorem careful_addConst (c : TypedName) : (addConst c).Careful Whatever last := trivial

theorem Careful.collected {Q : α → Option Token → Prop} (h : b.Careful Q last) :
    b.collected.Careful (fun r l => Q r.1 l) last := by
  induction b generalizing last with
  | done a => exact h
  | next k ih => exact fun t => ih t (h t)
  | back t k ih => exact ⟨h.1, ih h.2⟩
  | report p t k ih => exact ih h
  | declare c k ih => exact (ih h).bind fun _ _ hr => hr
  | fault f => trivial

/-! ## Runs -/

/-- Each token that is put back is the one that was read immediately before, `last` to begin
with. -/
def JustRead : Option Token → List Call → Prop
  | _, [] => True
  | _, .next t :: cs => JustRead (some t) cs
  | _, .failed _ :: cs => JustRead none cs
  | last, .putBack t :: cs => last = some t ∧ JustRead none cs

theorem JustRead.read_before {cs before behind : List Call} (h : JustRead last cs)
    (hcs : cs = before ++ Call.putBack t :: behind) :
    (∃ earlier, before = earlier ++ [Call.next t]) ∨ before = [] ∧ last = some t := by
  induction before generalizing cs last with
  | nil =>
    subst hcs
    exact .inr ⟨rfl, h.1⟩
  | cons c before ih =>
    subst hcs
    refine .inl ?_
    cases c with
    | next u =>
      have hbehind : JustRead (some u) (before ++ .putBack t :: behind) := h
      obtain ⟨earlier, rfl⟩ | ⟨rfl, hu⟩ := ih hbehind rfl
      · exact ⟨.next u :: earlier, rfl⟩
      · cases hu
        exact ⟨[], rfl⟩
    | failed e =>
      have hbehind : JustRead none (before ++ .putBack t :: behind) := h
      obtain ⟨earlier, rfl⟩ | ⟨rfl, hu⟩ := ih hbehind rfl
      · exact ⟨.failed e :: earlier, rfl⟩
      · cases hu
    | putBack u =>
      obtain ⟨earlier, rfl⟩ | ⟨rfl, hu⟩ := ih h.2 rfl
      · exact ⟨.putBack u :: earlier, rfl⟩
      · cases hu

/-- The stream of a run that began with `base`: the rest of it, and if there is a token in hand, the
stream is the one behind the read that gave it. -/
structure Reached (base stream : Stream) (last : Option Token) : Prop where
  rest : stream.IsRest base
  behind : ∀ t, last = some t →
    ∃ origin : Stream, origin.IsRest base ∧ origin.next = (.ok t, stream)

theorem Reached.next {base stream stream' : Stream} (h : Reached base stream last)
    (hn : stream.next = (.ok t, stream')) : Reached base stream' (some t) := by
  refine ⟨?_, fun u hu => ?_⟩
  · have hrest := stream.isRest_next
    rw [hn] at hrest
    exact hrest.trans h.rest
  · cases hu
    exact ⟨stream, h.rest, hn⟩

/-- **What a careful builder does to its stream**, whatever the policy and the stream. -/
theorem careful_run {base : Stream} {s : Session} (h : b.Careful Q last)
    (hs : Reached base s.stream last) :
    (∀ o, (b.run s).1 ≠ .error (.occupied o)) ∧ JustRead last (b.calls s) ∧
      (b.run s).2.stream.IsRest base := by
  induction b generalizing s last with
  | done a => exact ⟨by simp [run], trivial, hs.rest⟩
  | next k ih =>
    obtain ⟨r, stream, hn⟩ : ∃ r stream, s.stream.next = (r, stream) := ⟨_, _, rfl⟩
    cases r with
    | error e =>
      have hrest := s.stream.isRest_next
      rw [hn] at hrest
      simp only [run, calls, hn]
      exact ⟨by simp, trivial, hrest.trans hs.rest⟩
    | ok t =>
      simp only [run, calls, hn]
      exact ih t (s := { s with stream }) (h t) (hs.next hn)
  | back t k ih =>
    obtain ⟨origin, horigin, hn⟩ := hs.behind t h.1
    simp only [run, calls, Stream.putBack_of_next hn]
    have hback : Reached base { s.stream with held := some t } none :=
      ⟨(Stream.isRest_putBack hn).trans horigin, fun u hu => by cases hu⟩
    obtain ⟨hfree, hread, hrest⟩ := ih (s := { s with stream := { s.stream with held := some t } })
      h.2 hback
    exact ⟨hfree, ⟨h.1, hread⟩, hrest⟩
  | report p t k ih =>
    obtain ⟨r, diagnostics, hr⟩ : ∃ r diagnostics,
        s.diagnostics.report (p.seenAt t) = (r, diagnostics) := ⟨_, _, rfl⟩
    cases r with
    | error d =>
      simp only [run, calls, hr]
      exact ⟨by simp, trivial, hs.rest⟩
    | ok _ =>
      simp only [run, calls, hr]
      exact ih (s := { s with diagnostics }) h hs
  | declare c k ih => exact ih (s := { s with consts := s.consts ++ [c] }) h hs
  | fault f => exact ⟨by simp [run], trivial, hs.rest⟩

/-- **A careful builder is disciplined** in every session, with nothing in hand at the beginning. -/
theorem Careful.disciplined (h : b.Careful Q none) (s : Session) : b.Disciplined s := by
  have hbase : Reached s.stream s.stream none :=
    ⟨Stream.isRest_refl s.stream, fun u hu => by cases hu⟩
  obtain ⟨hfree, hread, hrest⟩ := careful_run h hbase
  refine ⟨hfree, fun before t behind hcalls => ?_, hrest⟩
  obtain hearlier | ⟨-, hnone⟩ := hread.read_before hcalls
  · exact hearlier
  · cases hnone

end Builder

end ToyLang
