import ToyLang.Proofs.PutBack.Calls

/-!
# Where a builder stops

A builder stops at the token that was read last, or at the one that was in hand before it, if it
reads none. `Builder.StopsAt P b last`: whatever tokens the builder `b` reads, `last` before them,
it ends in a result that `P` relates to the token it stops at, if it ends. `Builder.StopsAt.run`
turns this into a statement about the tokens that are delivered to a run.
-/

set_option autoImplicit false

namespace ToyLang.Builder

variable {α β : Type}

/-- What the builder ends in, and the token that was read last. -/
def StopsAt (P : α → Token → Prop) : Builder α → Token → Prop
  | done a, last => P a last
  | next k, _ => ∀ t, (k t).StopsAt P t
  | back _ k, last => k.StopsAt P last
  | report _ _ k, last => k.StopsAt P last
  | declare _ k, last => k.StopsAt P last
  | fault _, _ => True

variable {P : α → Token → Prop} {R : β → Token → Prop} {b : Builder α} {last : Token}

theorem StopsAt.bind {f : α → Builder β} (h : b.StopsAt P last)
    (hf : ∀ a t, P a t → (f a).StopsAt R t) : (b >>= f).StopsAt R last := by
  show (b.bind f).StopsAt R last
  induction b generalizing last with
  | done a => exact hf a last h
  | next k ih => exact fun t => ih t (h t)
  | back t k ih | report p t k ih | declare c k ih => exact ih h
  | fault f => trivial

theorem stopsAt_read : read.StopsAt (fun t last => last = t) last := fun _ => rfl

/-- Every builder stops somewhere. -/
theorem stopsAt_anywhere (b : Builder α) (last : Token) : b.StopsAt (fun _ _ => True) last := by
  induction b generalizing last with
  | done a | fault f => trivial
  | next k ih => exact fun t => ih t t
  | back t k ih | report p t k ih | declare c k ih => exact ih last

/-- So it matters only where the rest stops. -/
theorem stopsAt_behind {f : α → Builder β} (hf : ∀ a t, (f a).StopsAt R t) (b : Builder α)
    (last : Token) : (b >>= f).StopsAt R last :=
  (b.stopsAt_anywhere last).bind fun a t _ => hf a t

/-- **Where a run stops**: its result goes with the token that was delivered last. -/
theorem StopsAt.run {a : α} {s s' : Session} (h : b.StopsAt P last) (hrun : b.run s = (.ok a, s')) :
    P a ((b.delivered s).getLastD last) := by
  induction b generalizing last s with
  | done a' =>
    cases hrun
    exact h
  | next k ih =>
    obtain ⟨r, stream, hn⟩ : ∃ r stream, s.stream.next = (r, stream) := ⟨_, _, rfl⟩
    simp only [Builder.run, hn] at hrun
    cases r with
    | error e => cases hrun
    | ok t =>
      have hdelivered : (next k).delivered s = t :: (k t).delivered { s with stream } := by
        simp only [delivered, calls, hn]
        rfl
      rw [hdelivered, List.getLastD_cons]
      exact ih t (h t) hrun
  | back t k ih =>
    cases hb : s.stream.putBack t with
    | error o =>
      simp only [Builder.run, hb] at hrun
      cases hrun
    | ok stream =>
      simp only [Builder.run, hb] at hrun
      have hdelivered : (back t k).delivered s = k.delivered { s with stream } := by
        simp only [delivered, calls, hb]
        rfl
      rw [hdelivered]
      exact ih h hrun
  | report p t k ih =>
    obtain ⟨r, diagnostics, hr⟩ : ∃ r diagnostics,
        s.diagnostics.report (p.seenAt t) = (r, diagnostics) := ⟨_, _, rfl⟩
    simp only [Builder.run, hr] at hrun
    cases r with
    | error d => cases hrun
    | ok _ =>
      have hdelivered : (report p t k).delivered s = k.delivered { s with diagnostics } := by
        simp only [delivered, calls, hr]
      rw [hdelivered]
      exact ih h hrun
  | declare c k ih => exact ih (s := { s with consts := s.consts ++ [c] }) h hrun
  | fault f => cases hrun

end ToyLang.Builder
