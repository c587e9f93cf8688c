import ToyLang.Proofs.Ensures
import ToyLang.Proofs.Origin.Tree
import ToyLang.Proofs.PutBack.Calls

/-!
# What builders make of the tokens they read

`Builder.Makes C Q b`: as long as the tokens that the builder `b` reads are among those in the terms
`C`, so are those that it puts back and reports, every problem that it reports and every constant
that it declares is as `C` says, and it ends in a result in `Q` if it ends. It says so of any run,
whatever a report leads to: `Builder.Makes.run` for the tokens that are delivered to the run
(`Builder.delivered`), and `Builder.Makes.delivered` for where these come from.

The terms of the parser are `Terms.ofTokens T`: constants are from the tokens in `T`, and a message
quotes the token that its problem is seen at, which then is none of free text, or a spelling.
-/

set_option autoImplicit false

namespace ToyLang

/-! ## Terms -/

/-- What a builder keeps to: the tokens that it reads, puts back and reports, the problems that it
reports, each with the token it is seen at, and the constants that it declares. -/
structure Terms where
  token : Token → Prop
  problem : Problem → Token → Prop
  const : TypedName → Prop

/-- The diagnostic is one that the terms allow. -/
def Diagnostic.Within (C : Terms) (d : Diagnostic) : Prop :=
  ∃ p t, C.token t ∧ C.problem p t ∧ d = p.seenAt t

/-- What is noticed is a problem that the terms allow. -/
def Notice.Allowed (C : Terms) (n : Notice) : Prop := C.token n.token ∧ C.problem n.problem n.token

/-- The kinds whose tokens carry text of any characters. -/
def TokenKind.free : List TokenKind := [.string, .char, .error]

/-- What the message of the problem quotes is the token, which is none of free text, or it is a
spelling. -/
def Problem.Quotes (p : Problem) (t : Token) : Prop :=
  match p with
  | strayClause word | clauseAfterElse word | elementAssignment word | initializer word
  | missingOperand word => word = t.value.display ∧ t.kind ∉ TokenKind.free
  | expressionEnd stop => stop.spelling?.isSome
  | _ => True

/-- What the parser keeps to on tokens in `T`. -/
def Terms.ofTokens (T : Token → Prop) : Terms where
  token := T
  problem := Problem.Quotes
  const := TypedName.From T

/-- The diagnostic was seen at one of the tokens in `T`: it carries it and stands where it does. -/
def Diagnostic.SeenIn (T : Token → Prop) (d : Diagnostic) : Prop :=
  ∃ t, T t ∧ d.token = some t ∧ d.pos = t.pos

theorem Diagnostic.Within.seenIn {C : Terms} {d : Diagnostic} (h : d.Within C) :
    d.SeenIn C.token := by
  obtain ⟨p, t, ht, -, rfl⟩ := h
  exact ⟨t, ht, rfl, rfl⟩

namespace Builder

variable {α β : Type} {C : Terms}

/-! ## Builders -/

/-- What the builder ends in, and what it reports and declares, on tokens as in `C`. -/
def Makes (C : Terms) (Q : α → Prop) : Builder α → Prop
  | done a => Q a
  | next k => ∀ t, C.token t → (k t).Makes C Q
  | back t k => C.token t ∧ k.Makes C Q
  | report p t k => (C.token t ∧ C.problem p t) ∧ k.Makes C Q
  | declare c k => C.const c ∧ k.Makes C Q
  | fault _ => True

/-- The property of every result. -/
abbrev Anything (_ : α) : Prop := True

variable {Q : α → Prop} {R : β → Prop} {b : Builder α} {t : Token} {p : Problem}

theorem Makes.bind {f : α → Builder β} (h : b.Makes C Q) (hf : ∀ a, Q a → (f a).Makes C R) :
    (b >>= f).Makes C R := by
  show (b.bind f).Makes C R
  induction b with
  | done a => exact hf a h
  | next k ih => exact fun t ht => ih t (h t ht)
  | back t k ih | report p t k ih | declare c k ih => exact ⟨h.1, ih h.2⟩
  | fault f => trivial

theorem Makes.mono {Q' : α → Prop} (h : b.Makes C Q) (hq : ∀ a, Q a → Q' a) : b.Makes C Q' := by
  rw [← bind_pure b]
  exact h.bind hq

theorem makes_read : read.Makes C C.token := fun _ ht => ht

theorem makes_putBack (ht : C.token t) : (putBack t).Makes C Anything := ⟨ht, trivial⟩

theorem makes_note (ht : C.token t) (hp : C.problem p t) : (note p t).Makes C Anything :=
  ⟨⟨ht, hp⟩, trivial⟩

theorem makes_addConst {c : TypedName} (h : C.const c) : (addConst c).Makes C Anything :=
  ⟨h, trivial⟩

theorem Makes.collected (h : b.Makes C Q) :
    b.collected.Makes C fun r => Q r.1 ∧ ∀ c ∈ r.2, C.const c := by
  induction b with
  | done a => exact ⟨h, fun _ hc => absurd hc List.not_mem_nil⟩
  | next k ih => exact fun t ht => ih t (h t ht)
  | back t k ih | report p t k ih => exact ⟨h.1, ih h.2⟩
  | declare c k ih =>
    exact (ih h.2).bind fun r hr => ⟨hr.1, List.forall_mem_cons.2 ⟨h.1, hr.2⟩⟩
  | fault f => trivial

/-! ## Runs -/

variable {s : Session}

/-- What a stream delivers to a run are tokens it was going to deliver. -/
theorem Makes.delivered (h : b.Makes C Q) (hv : s.stream.view.Delivers C.token) :
    ∀ t ∈ b.delivered s, C.token t := by
  induction b generalizing s with
  | done a | fault f => exact fun t ht => absurd ht List.not_mem_nil
  | next k ih =>
    obtain ⟨r, stream, hn⟩ : ∃ r stream, s.stream.next = (r, stream) := ⟨_, _, rfl⟩
    simp only [Builder.delivered, calls, hn]
    cases r with
    | error e => exact fun t ht => absurd ht List.not_mem_nil
    | ok t =>
      obtain ⟨ht, hv'⟩ := hv.next (Stream.view_of_next hn)
      exact List.forall_mem_cons.2 ⟨ht, ih t (s := { s with stream }) (h t ht) hv'⟩
  | back t k ih =>
    simp only [Builder.delivered, calls]
    split
    · next stream hb =>
      have hv' : stream.view.Delivers C.token := Stream.view_of_putBack hb ▸ hv.push h.1
      exact ih (s := { s with stream }) h.2 hv'
    · exact fun t ht => absurd ht List.not_mem_nil
  | report p t k ih =>
    simp only [Builder.delivered, calls]
    split
    · next diagnostics _ => exact ih (s := { s with diagnostics }) h.2 hv
    · exact fun t ht => absurd ht List.not_mem_nil
  | declare c k ih => exact ih (s := { s with consts := s.consts ++ [c] }) h.2 hv

/-- What comes of a run within the terms, whether it ends or halts. -/
structure Made (C : Terms) (Q : α → Prop) (r : Except Halt α × Session) : Prop where
  result : ∀ a, r.1 = .ok a → Q a
  rejection : ∀ d, r.1 = .error (.rejected d) → d.Within C
  reports : ∀ d ∈ r.2.diagnostics.items, d.Within C

/-- A run that halts otherwise than at a report. -/
theorem made_halt (halt : Halt) (h : ∀ d, halt ≠ .rejected d)
    (hs : ∀ d ∈ s.diagnostics.items, d.Within C) : Made C Q (.error halt, s) :=
  ⟨fun a ha => (by cases ha), fun d hd => absurd (Except.error.inj hd) (h d), hs⟩

/-- **What a builder makes** of the tokens that are delivered to it, whatever the policy. -/
theorem Makes.run (h : b.Makes C Q) (ht : ∀ t ∈ b.delivered s, C.token t)
    (hs : ∀ d ∈ s.diagnostics.items, d.Within C) : Made C Q (b.run s) := by
  induction b generalizing s with
  | done a => exact ⟨fun _ ha => Except.ok.inj ha ▸ h, fun d hd => (by cases hd), hs⟩
  | next k ih =>
    obtain ⟨r, stream, hn⟩ : ∃ r stream, s.stream.next = (r, stream) := ⟨_, _, rfl⟩
    simp only [Builder.delivered, calls, hn] at ht
    simp only [Builder.run, hn]
    cases r with
    | error e => exact made_halt (.lexical e) (by simp) hs
    | ok t =>
      obtain ⟨hhead, htail⟩ := List.forall_mem_cons.1 ht
      exact ih t (s := { s with stream }) (h t hhead) htail hs
  | back t k ih =>
    simp only [Builder.delivered, calls] at ht
    simp only [Builder.run]
    cases hb : s.stream.putBack t with
    | error o => exact made_halt (.occupied o) (by simp) hs
    | ok stream =>
      rw [hb] at ht
      exact ih (s := { s with stream }) h.2 ht hs
  | report p t k ih =>
    have hseen : (p.seenAt t).Within C := ⟨p, t, h.1.1, h.1.2, rfl⟩
    have hrecord : ∀ d ∈ (s.diagnostics.record (p.seenAt t)).items, d.Within C := by
      intro d hd
      rcases Array.mem_push.1 hd with hd | rfl
      · exact hs d hd
      · exact hseen
    simp only [Builder.delivered, calls, Diagnostics.report] at ht
    simp only [Builder.run, Diagnostics.report]
    cases hfast : s.diagnostics.failFast with
    | true =>
      refine ⟨fun a ha => (by cases ha), fun d hd => ?_, hrecord⟩
      obtain rfl := Halt.rejected.inj (Except.error.inj hd)
      exact hseen
    | false =>
      simp only [hfast] at ht
      exact ih (s := { s with diagnostics := s.diagnostics.record (p.seenAt t) }) h.2 ht hrecord
  | declare c k ih => exact ih (s := { s with consts := s.consts ++ [c] }) h.2 ht hs
  | fault f => exact made_halt (.fault f) (by simp) hs

/-- In a fresh session nothing is reported yet. -/
theorem Makes.run_over {stream : Stream} {strict : Bool} (h : b.Makes C Q)
    (ht : ∀ t ∈ b.delivered (.over stream strict), C.token t) :
    Made C Q (b.run (.over stream strict)) :=
  h.run ht (by simp [Session.over])

/-- What comes of a run with the tokens in `T`, whether it ends or halts: its result is in `Q`, and
every diagnostic was seen at one of these tokens. -/
structure MadeFrom (T : Token → Prop) (Q : α → Prop) (r : Except Halt α × Session) : Prop where
  result : ∀ a, r.1 = .ok a → Q a
  rejection : ∀ d, r.1 = .error (.rejected d) → d.SeenIn T
  reports : ∀ d ∈ r.2.diagnostics.items, d.SeenIn T

theorem Made.madeFrom {r : Except Halt α × Session} (h : Made C Q r) : MadeFrom C.token Q r :=
  ⟨h.result, fun d hd => (h.rejection d hd).seenIn, fun d hd => (h.reports d hd).seenIn⟩

end Builder

end ToyLang
