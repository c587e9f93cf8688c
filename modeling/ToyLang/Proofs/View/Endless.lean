import Mathlib.Data.Stream.Init
import ToyLang.Proofs.View.Run

/-!
# Streams of a list are endless rows

A stream of a list of tokens has three parts that matter: the list, the token that was put back and
the end mark once it is known. Behind them is one endless row: a read takes its first token, and
what is put back comes in front of it, where the place for it is free.

* `Endless`: such a row with that place, and how it serves a demand (`Endless.serve`).
* `Stream.Represents`: the stream stands for an endless row. One demand, and with it any number of
  them, has the same reply from both, and behind it the stream stands for what is left of the row
  (`Stream.Represents.serve`, `Stream.Represents.serveAll`).
* `stream_refines_endless`: so it is from the stream of a list on; the place is taken exactly when
  the last demand that was granted put a token back.
-/

set_option autoImplicit false

namespace ToyLang

/-! ## Demands -/

/-- What a stream is asked for: a token, or to take one back. -/
inductive Demand where
  | next
  | putBack (t : Token)

/-- Whether it is asked to take a token back. -/
def Demand.isPutBack : Demand → Bool
  | putBack _ => true
  | next => false

/-- What it replies: a token or a failure of lexing, that it has taken the token back, or that the
place is taken. -/
inductive Reply where
  | token (r : Except LexicalError Token)
  | done
  | occupied (o : Occupied)

/-- Whether the demand was granted. -/
def Reply.isGranted : Reply → Bool
  | occupied _ => false
  | token _ | done => true

/-- The demands that were granted. -/
def granted (demands : List Demand) (replies : List Reply) : List Demand :=
  ((demands.zip replies).filter fun r => r.2.isGranted).map Prod.fst

theorem granted_cons (d : Demand) (ds : List Demand) (r : Reply) (rs : List Reply) :
    granted (d :: ds) (r :: rs) = if r.isGranted then d :: granted ds rs else granted ds rs := by
  unfold granted
  rw [List.zip_cons_cons, List.filter_cons]
  split <;> rfl

/-- The replies to demands one after the other, and the state behind them. -/
def serveAll {σ : Type} (serve : σ → Demand → Reply × σ) : List Demand → σ → List Reply × σ
  | [], s => ([], s)
  | d :: ds, s => (serveAll serve ds (serve s d).2).map ((serve s d).1 :: ·) id

/-- A stream serves a demand. A token that it cannot take back leaves it as it is. -/
def Stream.serve (s : Stream) : Demand → Reply × Stream
  | .next => (.token s.next.1, s.next.2)
  | .putBack t =>
    match s.putBack t with
    | .ok s' => (.done, s')
    | .error o => (.occupied o, s)

/-! ## Endless rows -/

/-- An endless row of tokens, and whether the place for a token that is put back is taken: then that
token is the first of the row. -/
structure Endless where
  row : Stream' Token
  taken : Bool

namespace Endless

/-- The tokens of a list up to its first end mark, and that mark ever after; in a list without one,
the end mark at no position. -/
def ofList (ts : List Token) : Endless :=
  ⟨ts.takeWhile (·.kind ≠ .eof) ++ₛ Stream'.const (endMarkOf ts), false⟩

/-- An endless row serves a demand: the first token is read, and a token is put back in front where
the place is free. -/
def serve (r : Endless) : Demand → Reply × Endless
  | .next => (.token (.ok r.row.head), ⟨r.row.tail, false⟩)
  | .putBack t =>
    if r.taken then (.occupied ⟨r.row.head, t⟩, r) else (.done, ⟨Stream'.cons t r.row, true⟩)

/-- A demand that is granted takes the place or frees it; another one leaves it taken. -/
theorem taken_serve (r : Endless) (demand : Demand) :
    (r.serve demand).2.taken =
      if (r.serve demand).1.isGranted then demand.isPutBack else r.taken := by
  cases demand with
  | next => rfl
  | putBack t =>
    cases htaken : r.taken with
    | false => simp only [serve, htaken]; rfl
    | true => simp only [serve, htaken]; exact htaken

/-- The last demand that was granted decides whether the place is taken. -/
theorem taken_serveAll (demands : List Demand) (r : Endless) :
    (serveAll serve demands r).2.taken =
      ((granted demands (serveAll serve demands r).1).getLast?.map Demand.isPutBack).getD
        r.taken := by
  induction demands generalizing r with
  | nil => rfl
  | cons demand demands ih =>
    have hcons : granted (demand :: demands) (serveAll serve (demand :: demands) r).1 =
        if (r.serve demand).1.isGranted then
          demand :: granted demands (serveAll serve demands (r.serve demand).2).1
        else granted demands (serveAll serve demands (r.serve demand).2).1 := granted_cons _ _ _ _
    show (serveAll serve demands (r.serve demand).2).2.taken = _
    rw [ih, hcons, taken_serve]
    -- the first demand decides only where none of the others is granted
    split
    · rw [List.getLast?_cons]
      cases (granted demands (serveAll serve demands (r.serve demand).2).1).getLast? <;> rfl
    · rfl

end Endless

/-! ## Representation -/

/-- The stream stands for an endless row: the tokens it has yet to deliver and its end mark ever
after. -/
def Stream.Represents (s : Stream) (r : Endless) : Prop :=
  ∃ mark, s.view.close = .ok mark ∧ r = ⟨s.view.ahead ++ₛ Stream'.const mark, s.view.held⟩

namespace Stream

variable {s : Stream} {r : Endless}

theorem represents_ofList (ts : List Token) : (ofList ts).Represents (.ofList ts) := by
  have hview : (ofList ts).view = .upToMark (.ok (.endMark ⟨0, 0⟩)) ts := rfl
  refine ⟨endMarkOf ts, close_view_ofList ts, ?_⟩
  rw [hview, View.ahead_upToMark, View.upToMark_held]
  rfl

theorem Represents.taken (h : s.Represents r) : r.taken = s.held.isSome := by
  obtain ⟨mark, -, rfl⟩ := h
  exact s.view_held

/-- **A read** takes the first token of the row, and frees the place. -/
theorem Represents.next (h : s.Represents r) :
    s.next.1 = .ok r.row.head ∧ s.next.2.Represents ⟨r.row.tail, false⟩ := by
  obtain ⟨mark, hclose, rfl⟩ := h
  obtain ⟨hresult, hview⟩ := s.next_view
  rw [hresult, Represents, hview, View.next]
  cases hahead : s.view.ahead with
  | nil =>
    rw [hclose]
    exact ⟨rfl, mark, rfl, rfl⟩
  | cons t ts => exact ⟨rfl, mark, hclose, rfl⟩

/-- **A token that is put back** comes in front of the row, where the place is free; otherwise it is
refused. -/
theorem Represents.putBack (h : s.Represents r) (t : Token) :
    (r.taken = false → ∃ s', s.putBack t = .ok s' ∧ s'.Represents ⟨Stream'.cons t r.row, true⟩) ∧
      (r.taken = true → s.putBack t = .error ⟨r.row.head, t⟩) := by
  obtain ⟨mark, hclose, rfl⟩ := h
  refine ⟨fun hfree => ?_, fun htaken => ?_⟩
  · obtain ⟨s', hput, hview⟩ := (s.putBack_view t).1 hfree
    refine ⟨s', hput, mark, ?_, ?_⟩
    · rw [hview]
      exact hclose
    · rw [hview]
      rfl
  · obtain ⟨first, ts, hahead, hput⟩ := putBack_of_held htaken t
    rw [hput, hahead]
    rfl

/-- **A stream and the row it stands for serve demands alike.** -/
theorem Represents.serve (h : s.Represents r) (demand : Demand) :
    (s.serve demand).1 = (r.serve demand).1 ∧
      (s.serve demand).2.Represents (r.serve demand).2 := by
  cases demand with
  | next =>
    obtain ⟨hresult, hbehind⟩ := h.next
    exact ⟨congrArg Reply.token hresult, hbehind⟩
  | putBack t =>
    cases htaken : r.taken with
    | false =>
      obtain ⟨s', hput, hbehind⟩ := (h.putBack t).1 htaken
      simp only [Stream.serve, Endless.serve, hput, htaken]
      exact ⟨rfl, hbehind⟩
    | true =>
      have hput := (h.putBack t).2 htaken
      simp only [Stream.serve, Endless.serve, hput, htaken]
      exact ⟨rfl, h⟩

theorem Represents.serveAll (h : s.Represents r) (demands : List Demand) :
    (ToyLang.serveAll Stream.serve demands s).1 = (ToyLang.serveAll Endless.serve demands r).1 ∧
      (ToyLang.serveAll Stream.serve demands s).2.Represents
        (ToyLang.serveAll Endless.serve demands r).2 := by
  induction demands generalizing s r with
  | nil => exact ⟨rfl, h⟩
  | cons demand demands ih =>
    obtain ⟨hreply, hbehind⟩ := h.serve demand
    obtain ⟨hreplies, hend⟩ := ih hbehind
    exact ⟨congrArg₂ List.cons hreply hreplies, hend⟩

end Stream

/-- **The stream of a list is an endless row**: the tokens of the list up to the first end mark and
that mark ever after. Whatever is asked of the stream, reads and tokens put back in any order, it
replies as the row does and stands for what is left of it. A token is put back in front, and refused
where the place for it is taken; and that is so exactly when the last demand that was granted put a
token back. -/
theorem stream_refines_endless (ts : List Token) (demands : List Demand) :
    let run := serveAll Stream.serve demands (.ofList ts)
    let endless := serveAll Endless.serve demands (.ofList ts)
    run.1 = endless.1 ∧ run.2.Represents endless.2 ∧
      (run.2.held.isSome ↔ ∃ t, (granted demands run.1).getLast? = some (.putBack t)) := by
  intro run endless
  obtain ⟨hreplies, hend⟩ := (Stream.represents_ofList ts).serveAll demands
  have hheld : run.2.held.isSome =
      ((granted demands run.1).getLast?.map Demand.isPutBack).getD false := by
    rw [show run.1 = endless.1 from hreplies, ← hend.taken]
    exact Endless.taken_serveAll demands (.ofList ts)
  refine ⟨hreplies, hend, ?_⟩
  rw [hheld]
  rcases (granted demands run.1).getLast? with _ | _ | t <;> simp [Demand.isPutBack]

end ToyLang
