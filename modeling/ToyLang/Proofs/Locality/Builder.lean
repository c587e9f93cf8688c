import ToyLang.Proofs.Accept
import ToyLang.Proofs.Idle
import ToyLang.Proofs.PutBack.Calls

/-!
# Builders that heed the end mark

An accepting run that has not met the end mark goes the same way where more tokens follow
(`Builder.Local`). `Builder.Heeds Q b seen` is what tells such runs: if the builder `b` reports
nothing, it ends in `Q`, which may ask whether the end mark has been read; `seen` says so at the
beginning. A builder that reports something at the end mark, as nearly all of them do, ends with the
mark unread (`Short`); one that hands on the token it ended at ends with a token that shows it
(`Shows`).

`Builder.Heeds.accept` turns the predicate into a statement about accepting runs: a builder that is
careful with what it puts back has met the end mark, or its run is local.
-/

set_option autoImplicit false

namespace ToyLang

namespace Builder

variable {α β : Type}

/-- Where the builder reports nothing, it ends in `Q`. Behind the end mark there is nothing but end
marks, and what is put back was read. -/
def Heeds (Q : α → Prop → Prop) : Builder α → Prop → Prop
  | done a, seen => Q a seen
  | next k, seen => ∀ t, (seen → t.kind = .eof) → (k t).Heeds Q (t.kind = .eof)
  | back t k, seen => (t.kind = .eof ↔ seen) ∧ k.Heeds Q seen
  | report _ _ _, _ => True
  | declare _ k, seen => k.Heeds Q seen
  | fault _, _ => True

/-- The end mark is unread. -/
abbrev Short (_ : α) (seen : Prop) : Prop := ¬seen

/-- The token that is handed on tells whether the end mark has been read. -/
abbrev Shows (r : α × Token) (seen : Prop) : Prop := r.2.kind = .eof ↔ seen

/-- No matter whether the end mark has been read. -/
abbrev Anyhow (_ : α) (_ : Prop) : Prop := True

variable {Q Q' : α → Prop → Prop} {R : β → Prop → Prop} {b : Builder α} {seen : Prop} {t : Token}

theorem Heeds.bind {f : α → Builder β} (h : b.Heeds Q seen)
    (hf : ∀ a seen, Q a seen → (f a).Heeds R seen) : (b >>= f).Heeds R seen := by
  show (b.bind f).Heeds R seen
  induction b generalizing seen with
  | done a => exact hf a seen h
  | next k ih => exact fun t ht => ih t (h t ht)
  | back t k ih => exact ⟨h.1, ih h.2⟩
  | declare c k ih => exact ih h
  | report p t k ih | fault f => trivial

theorem Heeds.mono (h : b.Heeds Q seen) (hq : ∀ a seen, Q a seen → Q' a seen) :
    b.Heeds Q' seen := by
  rw [← bind_pure b]
  exact h.bind hq

theorem Heeds.collected (h : b.Heeds Q seen) : b.collected.Heeds (fun r => Q r.1) seen := by
  induction b generalizing seen with
  | done a => exact h
  | next k ih => exact fun t ht => ih t (h t ht)
  | back t k ih => exact ⟨h.1, ih h.2⟩
  | declare c k ih => exact (ih h).bind fun _ _ hr => hr
  | report p t k ih | fault f => trivial

/-- A token in hand of any other kind shows that the end mark is unread. -/
theorem short_of_kind {kind : TokenKind} (ht : t.kind = .eof ↔ seen) (hk : t.kind = kind)
    (hkind : kind ≠ .eof) : ¬seen := fun hs => hkind (hk ▸ ht.2 hs)

/-! ## Steps -/

theorem heeds_read : read.Heeds (fun t seen => t.kind = .eof ↔ seen) seen := fun _ _ => Iff.rfl

theorem heeds_putBack (h : t.kind = .eof ↔ seen) :
    (putBack t).Heeds (fun _ s => s = seen) seen := ⟨h, rfl⟩

theorem Idle.heeds (h : b.Idle) : b.Heeds (fun _ s => s = seen) seen := by
  cases b with
  | done a => rfl
  | report p t k | fault f => trivial
  | next k | back t k | declare c k => exact h.elim

/-! ## Accepting runs -/

/-- The builder accepts `ts` up to `rest` with the result `a`, whatever follows the row, whatever
closes it and whatever constants are declared before. -/
def Local (b : Builder α) (ts : List Token) (a : α) (rest : List Token) : Prop :=
  ∀ mark us cs, ∃ cs', b.accept mark (ts ++ us, cs) = some (a, rest ++ us, cs')

variable {mark : Token} {ts : List Token} {cs : List TypedName} {a : α}
  {st : List Token × List TypedName}

/-- Once the end mark has been read there is nothing else. -/
theorem Heeds.accept_behind (hmark : mark.kind = .eof) (h : b.Heeds Q True)
    (hts : ∀ t ∈ ts, t.kind = .eof) (hacc : b.accept mark (ts, cs) = some (a, st)) : Q a True := by
  induction b generalizing ts cs with
  | done a' =>
    cases hacc
    exact h
  | next k ih =>
    cases ts with
    | nil =>
      have hk := h mark fun _ => hmark
      rw [eq_true hmark] at hk
      exact ih mark hk hts hacc
    | cons t ts =>
      obtain ⟨ht, hts⟩ := List.forall_mem_cons.1 hts
      have hk := h t fun _ => ht
      rw [eq_true ht] at hk
      exact ih t hk hts hacc
  | back t k ih => exact ih h.2 (List.forall_mem_cons.2 ⟨h.1.2 trivial, hts⟩) hacc
  | declare c k ih => exact ih h hts hacc
  | report p t k ih | fault f => cases hacc

/-- **An accepting run has met the end mark, or it is local** and leaves the rest of what it was
given, `base` to begin with. -/
theorem Heeds.accept {C : α → Option Token → Prop} {base : List Token} {last : Option Token}
    (hmark : mark.kind = .eof) (h : b.Heeds Q False) (hcareful : b.Careful C last)
    (hbase : ∀ t ∈ base, t.kind ≠ .eof) (hts : ts <:+ base)
    (hlast : ∀ t, last = some t → t :: ts <:+ base)
    (hacc : b.accept mark (ts, cs) = some (a, st)) :
    Q a True ∨ Q a False ∧ st.1 <:+ base ∧ b.Local ts a st.1 := by
  induction b generalizing ts cs last with
  | done a' =>
    cases hacc
    exact .inr ⟨h, hts, fun mark us cs => ⟨cs, rfl⟩⟩
  | next k ih =>
    cases ts with
    | nil =>
      have hk := h mark False.elim
      rw [eq_true hmark] at hk
      exact .inl (hk.accept_behind hmark (fun _ ht => absurd ht List.not_mem_nil) hacc)
    | cons t ts =>
      have ht : t.kind ≠ .eof := hbase t (hts.subset List.mem_cons_self)
      have hk := h t False.elim
      rw [eq_false ht] at hk
      have hbehind : ts <:+ base := (List.suffix_cons t ts).trans hts
      exact ih t hk (hcareful t) hbehind (fun u hu => Option.some.inj hu ▸ hts) hacc
  | back t k ih => exact ih h.2 hcareful.2 (hlast t hcareful.1) (fun u hu => by cases hu) hacc
  | declare c k ih =>
    obtain hmet | ⟨hq, hsuffix, hlocal⟩ := ih h hcareful hts hlast hacc
    · exact .inl hmet
    · exact .inr ⟨hq, hsuffix, fun mark us cs => hlocal mark us (cs ++ [c])⟩
  | report p t k ih | fault f => cases hacc

end Builder

end ToyLang
