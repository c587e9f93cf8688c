import ToyLang.Proofs.Balance.Weight
import ToyLang.Proofs.Policy

/-!
# What builders do with the weight they read

`Builder.Weighs w declaring Q b m`: a builder `b` that has read tokens of the weight `m` and reports
nothing ends in a result and a weight in `Q`. A token that is put back takes its weight back, and a
constant that is declared, which only a builder that is `declaring` does, takes its own weight out.
`Builder.Carries w declaring i R f b` is the form that every builder of the parser is shown to have:
it starts with the weight `i` in hand and ends with the weight `f a` of its result `a`.

* `Carries.bind`, `Carries.frame`: it goes through a builder, and leaves other weight alone;
* `Builder.weighs_run`: what it says about runs of which nothing is collected.
-/

set_option autoImplicit false

namespace ToyLang

namespace Builder

variable {α β : Type}

/-- From the weight `m` the builder ends in `Q` if it reports nothing. -/
def Weighs (w : Weighing) (declaring : Prop) (Q : α → Nat → Prop) : Builder α → Nat → Prop
  | done a, m => Q a m
  | next k, m => ∀ t, (k t).Weighs w declaring Q (m + w.token t)
  | back t k, m => ∃ m', m = m' + w.token t ∧ k.Weighs w declaring Q m'
  | report _ _ _, _ => True
  | declare c k, m => declaring ∧ ∃ m', m = m' + w.constant c ∧ k.Weighs w declaring Q m'
  | fault _, _ => True

/-- From the weight `i` the builder ends in results in `R` with the weight `f`. -/
def Carries (w : Weighing) (declaring : Prop) (i : Nat) (R : α → Prop) (f : α → Nat)
    (b : Builder α) : Prop :=
  b.Weighs w declaring (fun a m => R a ∧ m = f a) i

variable {w : Weighing} {declaring : Prop} {Q : α → Nat → Prop} {b : Builder α} {i m : Nat}

theorem weighs_bind {f : α → Builder β} {Q : β → Nat → Prop} :
    (b >>= f).Weighs w declaring Q m ↔
      b.Weighs w declaring (fun a m => (f a).Weighs w declaring Q m) m := by
  show (b.bind f).Weighs w declaring Q m ↔ _
  induction b generalizing m with
  | done a => rfl
  | next k ih => exact forall_congr' fun t => ih t
  | back t k ih => exact exists_congr fun m' => and_congr_right fun _ => ih
  | report p t k ih | fault f => rfl
  | declare c k ih =>
    exact and_congr_right fun _ => exists_congr fun m' => and_congr_right fun _ => ih

theorem Weighs.mono {Q' : α → Nat → Prop} (h : b.Weighs w declaring Q m)
    (hq : ∀ a m, Q a m → Q' a m) : b.Weighs w declaring Q' m := by
  induction b generalizing m with
  | done a => exact hq a m h
  | next k ih => exact fun t => ih t (h t)
  | back t k ih =>
    obtain ⟨m', rfl, hk⟩ := h
    exact ⟨m', rfl, ih hk⟩
  | report p t k ih | fault f => trivial
  | declare c k ih =>
    obtain ⟨hd, m', rfl, hk⟩ := h
    exact ⟨hd, m', rfl, ih hk⟩

/-- More weight stays what it is. -/
theorem Weighs.frame (h : b.Weighs w declaring Q m) (j : Nat) :
    b.Weighs w declaring (fun a n => ∃ k, n = j + k ∧ Q a k) (j + m) := by
  induction b generalizing m with
  | done a => exact ⟨m, rfl, h⟩
  | next k ih =>
    intro t
    rw [Nat.add_assoc]
    exact ih t (h t)
  | back t k ih =>
    obtain ⟨m', rfl, hk⟩ := h
    exact ⟨j + m', by omega, ih hk⟩
  | report p t k ih | fault f => trivial
  | declare c k ih =>
    obtain ⟨hd, m', rfl, hk⟩ := h
    exact ⟨hd, j + m', by omega, ih hk⟩

/-! ## Carrying weight -/

section
variable {R : α → Prop} {f : α → Nat}

theorem Carries.bind {R' : β → Prop} {g : β → Nat} {k : α → Builder β}
    (h : Carries w declaring i R f b) (hk : ∀ a, R a → Carries w declaring (f a) R' g (k a)) :
    Carries w declaring i R' g (b >>= k) := by
  refine weighs_bind.2 (Weighs.mono h ?_)
  rintro a m ⟨ha, rfl⟩
  exact hk a ha

theorem Carries.frame (h : Carries w declaring i R f b) (j : Nat) :
    Carries w declaring (j + i) R (fun a => j + f a) b := by
  refine (Weighs.frame h j).mono ?_
  rintro a m ⟨k, rfl, ha, rfl⟩
  exact ⟨ha, rfl⟩

/-- Starting with nothing in hand is starting with other weight. -/
theorem Carries.after (h : Carries w declaring 0 R f b) (j : Nat) :
    Carries w declaring j R (fun a => j + f a) b := h.frame j

theorem Carries.mono {R' : α → Prop} {g : α → Nat} (h : Carries w declaring i R f b)
    (hr : ∀ a, R a → R' a ∧ f a = g a) : Carries w declaring i R' g b := by
  refine Weighs.mono h ?_
  rintro a m ⟨ha, rfl⟩
  exact hr a ha

theorem carries_pure {a : α} (ha : R a) (hi : i = f a) :
    Carries w declaring i R f (pure a) := ⟨ha, hi⟩

/-- A builder that reports something does not matter. -/
theorem carries_report (p : Problem) (t : Token) (k : Builder α) :
    Carries w declaring i R f (report p t k) := trivial

theorem carries_fault (e : Fault) : Carries w declaring i R f (fault e) := trivial

end

theorem carries_read : Carries w declaring i (fun _ => True) (fun t => i + w.token t) read :=
  fun _ => ⟨trivial, rfl⟩

theorem carries_putBack (t : Token) :
    Carries w declaring (i + w.token t) (fun _ => True) (fun _ => i) (putBack t) :=
  ⟨i, rfl, trivial, rfl⟩

theorem carries_addConst (c : TypedName) :
    Carries w True (i + w.constant c) (fun _ => True) (fun _ => i) (addConst c) :=
  ⟨trivial, i, rfl, trivial, rfl⟩

/-- Collected constants are part of the result. -/
theorem Carries.collected {R : α → Prop} {f : α → Nat} (h : Carries w True i R f b) :
    Carries w declaring i (fun r => R r.1) (fun r => f r.1 + w.constants r.2) b.collected := by
  unfold Carries at h ⊢
  induction b generalizing i with
  | done a => exact h
  | next k ih => exact fun t => ih t (h t)
  | back t k ih =>
    obtain ⟨m', rfl, hk⟩ := h
    exact ⟨m', rfl, ih hk⟩
  | report p t k ih | fault f => trivial
  | declare c k ih =>
    obtain ⟨-, m', rfl, hk⟩ := h
    show (k.collected >>= fun r => done (r.1, c :: r.2)).Weighs w declaring _ _
    rw [Nat.add_comm]
    refine weighs_bind.2 (((ih hk).frame (w.constant c)).mono ?_)
    rintro r m ⟨n, rfl, hr, rfl⟩
    have hcons := w.constants_cons c r.2
    exact ⟨hr, by dsimp only; omega⟩

/-! ## Runs -/

/-- **A run without a report** takes from the stream what its result weighs. -/
theorem weighs_run {a : α} {s s' : Session} (h : b.Weighs w False Q m)
    (hs : s.diagnostics.failFast = false)
    (hmark : ∀ e, s.stream.view.close = .ok e → e.kind = .eof)
    (hrun : b.run s = (.ok a, s')) (hquiet : s'.diagnostics.items = s.diagnostics.items) :
    ∃ m', Q a m' ∧ m + w.tokens s.stream.view.ahead = m' + w.tokens s'.stream.view.ahead := by
  induction b generalizing s m with
  | done a' =>
    cases hrun
    exact ⟨m, h, rfl⟩
  | next k ih =>
    obtain ⟨r, stream, hn⟩ : ∃ r stream, s.stream.next = (r, stream) := ⟨_, _, rfl⟩
    simp only [run, hn] at hrun
    cases r with
    | error e => cases hrun
    | ok t =>
      have hv := Stream.view_of_next hn
      have hmark' : ∀ e, stream.view.close = .ok e → e.kind = .eof := by
        rw [View.close_of_next hv]
        exact hmark
      obtain ⟨m', hm', hsum⟩ := ih t (s := { s with stream }) (h t) hs hmark' hrun hquiet
      have hsum' : m + w.token t + w.tokens stream.view.ahead =
          m' + w.tokens s'.stream.view.ahead := hsum
      refine ⟨m', hm', ?_⟩
      have htaken : w.tokens s.stream.view.ahead = w.token t + w.tokens stream.view.ahead := by
        rcases View.ahead_of_next hv with hcons | ⟨hnil, hnil', hclose⟩
        · rw [hcons, Weighing.tokens_cons]
        · have heof : w.token t = 0 := Weighing.token_of_kind (hmark t hclose) (by decide)
          rw [hnil, hnil', heof]
          rfl
      omega
  | back t k ih =>
    obtain ⟨m₀, rfl, hk⟩ := h
    cases hb : s.stream.putBack t with
    | error o =>
      simp only [run, hb] at hrun
      cases hrun
    | ok stream =>
      rw [run_back k hb] at hrun
      have hv := Stream.view_of_putBack hb
      have hmark' : ∀ e, stream.view.close = .ok e → e.kind = .eof := by
        rw [hv]
        exact hmark
      obtain ⟨m', hm', hsum⟩ := ih (s := { s with stream }) hk hs hmark' hrun hquiet
      refine ⟨m', hm', ?_⟩
      have hsum' : m₀ + w.tokens stream.view.ahead = m' + w.tokens s'.stream.view.ahead := hsum
      have hgiven : w.tokens stream.view.ahead = w.token t + w.tokens s.stream.view.ahead := by
        rw [hv]
        exact w.tokens_cons t _
      omega
  | report p t k ih =>
    have hitems := run_record_items k hs (p.seenAt t)
    rw [← run_report p t k hs, hrun] at hitems
    exact absurd hquiet hitems
  | declare c k ih => exact h.1.elim
  | fault f => cases hrun

end Builder

end ToyLang
