import ToyLang.Proofs.Ensures
import ToyLang.Proofs.Progress.Stop

/-!
# Rounds of a loop

The loops of the parser have a token in hand and a bound. A round is what such a loop does before it
calls itself: `Repeats loop round` says that the loop is that round again and again. If every round
leaves fewer tokens, counting the one in hand, than it found (`Round.Steps`), then a loop with a
bound above the number of tokens comes to an end without reaching the bound
(`Repeats.ensures`). The token that the last round stops at (`Round.LeavesAt`) is one of those that
end the loop (`Progresses`).
-/

set_option autoImplicit false

namespace ToyLang

open Builder

variable {σ α : Type}

/-- At most `m` tokens are left. -/
def Leaves {β : Type} (m : Nat) (_ : β) (v : View) : Prop := v.Within m

/-- At most `m` tokens are left, counting the one that ended a row and is in hand behind it. -/
def EndsAt {β : Type} (m : Nat) (r : β × Token) (v : View) : Prop := v.Taken r.2 m

/-- What one round of a loop comes to: the loop goes on from a state with a token in hand, and its
result is put together by `wrap`, or the loop ends. -/
inductive Round (σ α : Type) where
  | again (t : Token) (st : σ) (wrap : α → α)
  | last (a : α)

namespace Round

/-- Goes on with a loop after a round. -/
def goOn (loop : σ → Token → Builder α) : Round σ α → Builder α
  | again t st wrap => do return wrap (← loop st t)
  | last a => return a

/-- The loop goes on from a state and a token in hand in `Inv` with fewer tokens than the `m` it
had, counting the one in hand, and what it then ends in, `Q` for the tokens it has, is `Q` for `m`;
or it ends in that. -/
def Steps (Inv : σ → Token → Prop) (Q : Nat → α → View → Prop) (m : Nat) (r : Round σ α)
    (v : View) : Prop :=
  match r with
  | again t st wrap => Inv st t ∧ ∃ k < m, v.Taken t k ∧ ∀ a v', Q k a v' → Q m (wrap a) v'
  | last a => Q m a v

/-- If the loop ends, it is at a token of one of these kinds. -/
def LeavesAt (ends : TokenKind → Prop) (r : Round σ α) (t : Token) : Prop :=
  match r with
  | again .. => True
  | last _ => ends t.kind

variable {Inv Inv' : σ → Token → Prop} {Q : Nat → α → View → Prop} {m : Nat} {v : View}

theorem Steps.mono {r : Round σ α} (h : r.Steps Inv Q m v) (hi : ∀ st t, Inv st t → Inv' st t) :
    r.Steps Inv' Q m v := by
  cases r with
  | again t st wrap => exact ⟨hi st t h.1, h.2⟩
  | last a => exact h

theorem Steps.goOn_ensures {r : Round σ α} {loop : σ → Token → Builder α} (h : r.Steps Inv Q m v)
    (hl : ∀ st t k v, Inv st t → v.Taken t k → k < m → (loop st t).Ensures (Q k) v) :
    (r.goOn loop).Ensures (Q m) v := by
  cases r with
  | again t st wrap =>
    obtain ⟨hi, k, hk, ht, hq⟩ := h
    exact (hl st t k v hi ht hk).bind fun a v' ha => hq a v' ha
  | last a => exact h

/-- The loop goes on with the next token, and one token less. -/
theorem steps_again {st : σ} {wrap : α → α} {k : Nat} (hi : ∀ t, Inv st t) (hv : v.Within k)
    (hm : m = k + 1) (hq : ∀ a v', Q k a v' → Q m (wrap a) v') :
    (do return Round.again (← read) st wrap : Builder (Round σ α)).Ensures (Steps Inv Q m) v :=
  (ensures_take hv).bind fun t _ ht => ⟨hi t, k, by omega, ht, hq⟩

end Round

/-- The loop consists of rounds. -/
def Repeats (loop : Nat → σ → Token → Builder α)
    (round : Nat → σ → Token → Builder (Round σ α)) : Prop :=
  ∀ n st t, loop (n + 1) st t = round n st t >>= Round.goOn (loop n)

/-- Where the bound exceeds the number of tokens, the loop comes to an end. -/
def LoopEnsures (loop : σ → Token → Builder α) (Inv : σ → Token → Prop)
    (Q : Nat → α → View → Prop) (n : Nat) : Prop :=
  ∀ st t m v, Inv st t → v.Taken t m → m < n → (loop st t).Ensures (Q m) v

/-- The rounds with the bound `n` leave fewer tokens than they find. -/
def RoundEnsures (round : σ → Token → Builder (Round σ α)) (Inv : σ → Token → Prop)
    (Q : Nat → α → View → Prop) (n : Nat) : Prop :=
  ∀ st t m v, Inv st t → v.Taken t m → m ≤ n → (round st t).Ensures (Round.Steps Inv Q m) v

section
variable {loop : Nat → σ → Token → Builder α} {round : Nat → σ → Token → Builder (Round σ α)}
  {Inv : σ → Token → Prop} {Q : Nat → α → View → Prop} {n : Nat}

theorem loopEnsures_zero (loop : Nat → σ → Token → Builder α) : LoopEnsures (loop 0) Inv Q 0 := by
  intro st t m v _ _ hm
  omega

theorem Repeats.ensures_succ (h : Repeats loop round) (hr : RoundEnsures (round n) Inv Q n)
    (hl : LoopEnsures (loop n) Inv Q n) : LoopEnsures (loop (n + 1)) Inv Q (n + 1) := by
  intro st t m v hi ht hm
  rw [h n st t]
  refine (hr st t m v hi ht (by omega)).bind fun r v' hs => ?_
  exact hs.goOn_ensures fun st t k v hi ht hk => hl st t k v hi ht (by omega)

/-- **A loop of rounds that get shorter** comes to an end below its bound. The rounds with the bound
`n` may themselves run the loop with that bound. -/
theorem Repeats.ensures (h : Repeats loop round)
    (hr : ∀ n, LoopEnsures (loop n) Inv Q n → RoundEnsures (round n) Inv Q n) (n : Nat) :
    LoopEnsures (loop n) Inv Q n := by
  induction n with
  | zero => exact loopEnsures_zero loop
  | succ n ih => exact h.ensures_succ (hr n ih) ih

end

/-! ## Progress of a run -/

/-- Where the loop ends, it is at a token of the kinds in `ends`. -/
def RoundStops (round : σ → Token → Builder (Round σ α)) (Inv : σ → Token → Prop)
    (ends : σ → TokenKind → Prop) : Prop :=
  ∀ st t, Inv st t → (round st t).StopsAt (Round.LeavesAt (ends st)) t

/-- A loop that makes progress: it consists of rounds, and a round that starts from a state and with
a token `t` in hand in `Inv`, on a stream that does not break off and with a bound no less than the
number of tokens left, succeeds. Either it leaves a state and a token in hand in `Inv` and strictly
fewer tokens before the end mark, counting the one in hand. Or it is the last one: then the token at
which it leaves the loop, the last one that was delivered to it or `t` if there was none, is of one
of the kinds in `ends`. -/
structure Progresses (loop : Nat → σ → Token → Builder α)
    (round : Nat → σ → Token → Builder (Round σ α)) (Inv : σ → Token → Prop)
    (ends : σ → TokenKind → Prop) : Prop where
  repeats : Repeats loop round
  shortens : ∀ n st t (s : Session) e, Inv st t → s.diagnostics.failFast = false →
    s.stream.view.close = .ok e → s.stream.view.Taken t n →
    ∃ r s', (round n st t).run s = (.ok r, s') ∧
      (∀ t' st' wrap, r = .again t' st' wrap →
        Inv st' t' ∧ s'.stream.view.Taken t' n ∧
          (s'.stream.view.push t').left < (s.stream.view.push t).left) ∧
      ∀ a, r = .last a → ends st (((round n st t).delivered s).getLastD t).kind

theorem Repeats.progresses {loop : Nat → σ → Token → Builder α}
    {round : Nat → σ → Token → Builder (Round σ α)} {Inv : σ → Token → Prop}
    {ends : σ → TokenKind → Prop} {Q : Nat → α → View → Prop} (h : Repeats loop round)
    (hr : ∀ n, RoundEnsures (round n) Inv Q n) (hstop : ∀ n, RoundStops (round n) Inv ends) :
    Progresses loop round Inv ends := by
  refine ⟨h, fun n st t s e hi hs he ht => ?_⟩
  have hm : (s.stream.view.push t).left ≤ n := ht.within.left_le
  have hr := hr n st t _ _ hi ⟨ht.free, ht.within.sane, Nat.le_refl _⟩ hm
  rcases run_of_ensures hs hr with ⟨r, s', hrun, hsteps, _⟩ | ⟨x, s', _, hx⟩
  · refine ⟨r, s', hrun, ?_, ?_⟩
    · rintro t' st' wrap rfl
      obtain ⟨hi', k, hk, ht', _⟩ := hsteps
      exact ⟨hi', ht'.mono (by omega), Nat.lt_of_le_of_lt ht'.within.left_le hk⟩
    · rintro a rfl
      exact (hstop n st t hi).run hrun
  · rw [he] at hx
    cases hx

end ToyLang
