import ToyLang.Proofs.Ensures

/-!
# Wider bounds

`b.Widens b'`: the builder `b'` takes the same steps as `b`, to the same result, and goes on in some
way where `b` exceeds a bound. A run that exceeds no bound is then the same with the wider ones
(`Widens.run_eq`).
-/

set_option autoImplicit false

namespace ToyLang.Builder

variable {α β : Type}

/-- The second builder does what the first one does, and more where the first exceeds a bound. -/
inductive Widens : Builder α → Builder α → Prop
  | exceeded (b : Builder α) : Widens (fault .outOfFuel) b
  | done (a : α) : Widens (done a) (done a)
  | next {k k' : Token → Builder α} (h : ∀ t, Widens (k t) (k' t)) : Widens (next k) (next k')
  | back (t : Token) {k k' : Builder α} (h : Widens k k') : Widens (back t k) (back t k')
  | report (p : Problem) (t : Token) {k k' : Builder α} (h : Widens k k') :
      Widens (report p t k) (report p t k')
  | declare (c : TypedName) {k k' : Builder α} (h : Widens k k') :
      Widens (declare c k) (declare c k')
  | fault (f : Fault) : Widens (fault f) (fault f)

variable {b b' : Builder α}

theorem Widens.refl (b : Builder α) : b.Widens b := by
  induction b with
  | done a => exact .done a
  | next k ih => exact .next ih
  | back t k ih => exact .back t ih
  | report p t k ih => exact .report p t ih
  | declare c k ih => exact .declare c ih
  | fault f => exact .fault f

theorem Widens.bind {f f' : α → Builder β} (h : b.Widens b') (hf : ∀ a, (f a).Widens (f' a)) :
    (b >>= f).Widens (b' >>= f') := by
  show (b.bind f).Widens (b'.bind f')
  induction h with
  | exceeded b => exact .exceeded _
  | done a => exact hf a
  | next _ ih => exact .next ih
  | back t _ ih => exact .back t ih
  | report p t _ ih => exact .report p t ih
  | declare c _ ih => exact .declare c ih
  | fault f => exact .fault f

/-- Only what goes on with the result has bounds. -/
theorem Widens.after {f f' : α → Builder β} (b : Builder α) (hf : ∀ a, (f a).Widens (f' a)) :
    (b >>= f).Widens (b >>= f') := (Widens.refl b).bind hf

/-- Only what comes first has bounds. -/
theorem Widens.before (h : b.Widens b') (f : α → Builder β) : (b >>= f).Widens (b' >>= f) :=
  h.bind fun a => .refl (f a)

theorem Widens.collected (h : b.Widens b') : b.collected.Widens b'.collected := by
  induction h with
  | exceeded b => exact .exceeded _
  | done a => exact .done _
  | next _ ih => exact .next ih
  | back t _ ih => exact .back t ih
  | report p t _ ih => exact .report p t ih
  | declare c _ ih => exact ih.before _
  | fault f => exact .fault f

/-- **Wider bounds change no run** that exceeds none. -/
theorem Widens.run_eq (h : b.Widens b') {s : Session}
    (hrun : (b.run s).1 ≠ .error (.fault .outOfFuel)) : b'.run s = b.run s := by
  induction h generalizing s with
  | exceeded b => exact absurd rfl hrun
  | done a => rfl
  | next _ ih =>
    simp only [run] at hrun ⊢
    split
    · next hn => exact ih _ (by simpa only [hn] using hrun)
    · rfl
  | back t _ ih =>
    simp only [run] at hrun ⊢
    split
    · next hb => exact ih (by simpa only [hb] using hrun)
    · rfl
  | report p t _ ih =>
    simp only [run] at hrun ⊢
    split
    · next hr => exact ih (by simpa only [hr] using hrun)
    · rfl
  | declare c _ ih => exact ih hrun
  | fault f => rfl

end ToyLang.Builder
