import ToyLang.Parser.Problem
import ToyLang.Text.Quoted
import ToyLang.Token.Stream
import ToyLang.Tree.File

/-!
# Builders

A builder describes how a part of a tree is built from tokens: what it reads and puts back, which
problems it reports, which constants it declares, and its result. It does not say what a report
leads to; that is up to the session it runs in, whose collector may fail fast. `Builder.run` runs a
builder in a session and is sequential (`run_bind`): the session behind an interrupted builder is
the one it had reached.
-/

set_option autoImplicit false

namespace ToyLang

/-- Why a builder cannot go on, whatever the session. Neither arises from tokens: the first comes
from operators handed in by a caller, the second from a bound that was chosen too small. -/
inductive Fault where
  | notOperator (t : Token)
  | outOfFuel
deriving DecidableEq

/-- A description of how something is built from tokens. -/
inductive Builder (α : Type) where
  | done (a : α)
  | next (k : Token → Builder α)
  | back (t : Token) (k : Builder α)
  | report (p : Problem) (t : Token) (k : Builder α)
  | declare (c : TypedName) (k : Builder α)
  | fault (f : Fault)

namespace Builder

variable {α β γ : Type}

/-! ## Composition -/

/-- Goes on with the result. -/
def bind : Builder α → (α → Builder β) → Builder β
  | done a, f => f a
  | next k, f => next fun t => (k t).bind f
  | back t k, f => back t (k.bind f)
  | report p t k, f => report p t (k.bind f)
  | declare c k, f => declare c (k.bind f)
  | fault e, _ => fault e

instance : Monad Builder where
  pure := done
  bind := bind

theorem bind_done (b : Builder α) : b.bind done = b := by
  induction b with
  | done a => rfl
  | next k ih => simp only [bind, ih]
  | back t k ih | report p t k ih | declare c k ih => simp only [bind, ih]
  | fault e => rfl

theorem bind_assoc (b : Builder α) (f : α → Builder β) (g : β → Builder γ) :
    (b.bind f).bind g = b.bind fun a => (f a).bind g := by
  induction b with
  | done a => rfl
  | next k ih => simp only [bind, ih]
  | back t k ih | report p t k ih | declare c k ih => simp only [bind, ih]
  | fault e => rfl

instance : LawfulMonad Builder :=
  LawfulMonad.mk' Builder bind_done (fun _ _ => rfl) bind_assoc

/-! ## Steps -/

/-- Reads a token. -/
def read : Builder Token := next done

/-- Puts a token back. -/
def putBack (t : Token) : Builder Unit := back t (done ())

/-- Reports a problem seen at a token. -/
def note (p : Problem) (t : Token) : Builder Unit := report p t (done ())

/-- Declares a constant of the function that is being built. -/
def addConst (c : TypedName) : Builder Unit := declare c (done ())

/-- The same builder with its constants kept apart from those of its surroundings. -/
def collected : Builder α → Builder (α × List TypedName)
  | done a => done (a, [])
  | next k => next fun t => (k t).collected
  | back t k => back t k.collected
  | report p t k => report p t k.collected
  | declare c k => k.collected.bind fun r => done (r.1, c :: r.2)
  | fault e => fault e

end Builder

/-! ## Sessions -/

/-- What builders work on: the tokens to come, the problems seen, the constants declared. -/
structure Session where
  stream : Stream
  diagnostics : Diagnostics := {}
  consts : List TypedName := []

/-- What interrupts a builder. -/
inductive Halt where
  | lexical (e : LexicalError)
  | rejected (d : Diagnostic)
  | occupied (o : Occupied)
  | fault (f : Fault)
deriving DecidableEq

/-- The interruption in words. -/
def Halt.message : Halt → String
  | lexical e => e.message
  | rejected d => d.text
  | occupied o => o.message
  | fault (.notOperator t) => Text.quoted t.kind.name
  | fault .outOfFuel => "more tokens than the bound allows"

namespace Builder

variable {α β : Type}

/-- Runs a builder in a session. -/
def run : Builder α → Session → Except Halt α × Session
  | done a, s => (.ok a, s)
  | next k, s =>
    match s.stream.next with
    | (.ok t, stream) => (k t).run { s with stream }
    | (.error e, stream) => (.error (.lexical e), { s with stream })
  | back t k, s =>
    match s.stream.putBack t with
    | .ok stream => k.run { s with stream }
    | .error o => (.error (.occupied o), s)
  | report p t k, s =>
    match s.diagnostics.report (p.seenAt t) with
    | (.ok (), diagnostics) => k.run { s with diagnostics }
    | (.error d, diagnostics) => (.error (.rejected d), { s with diagnostics })
  | declare c k, s => k.run { s with consts := s.consts ++ [c] }
  | fault f, s => (.error (.fault f), s)

/-- A builder that goes on with the result of another runs behind it. -/
theorem run_bind (b : Builder α) (f : α → Builder β) (s : Session) :
    (b >>= f).run s =
      match b.run s with
      | (.ok a, s) => (f a).run s
      | (.error h, s) => (.error h, s) := by
  show (b.bind f).run s = _
  induction b generalizing s with
  | done a => rfl
  | next k ih =>
    simp only [bind, run]
    split
    · exact ih _ _
    · rfl
  | back t k ih =>
    simp only [bind, run]
    split
    · exact ih _
    · rfl
  | report p t k ih =>
    simp only [bind, run]
    split
    · exact ih _
    · rfl
  | declare c k ih => exact ih _
  | fault e => rfl

end Builder

/-- Runs a builder whose loops are bounded. A bound above the size of the stream is never reached,
since every round of a loop takes a token. -/
def Session.build {α : Type} (s : Session) (b : Nat → Builder α) : Except Halt α × Session :=
  (b (s.stream.size + 1)).run s

end ToyLang
