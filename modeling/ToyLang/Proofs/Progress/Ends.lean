import ToyLang.Proofs.Idle
import ToyLang.Proofs.Progress.Statement

/-!
# Where loops end

Each loop is left at a token of a few kinds: the one that closes what it reads, the end mark, and
where recovery gives up, the token that what follows begins with. All loops look at the token in
hand first, but for that of the parameters, whose last round may read a parameter and skip what
follows it (`paramsRound_stops`).
-/

set_option autoImplicit false

namespace ToyLang

open Builder

/-- A builder that leaves the stream alone stops where it starts. -/
theorem Builder.Idle.stopsAt {α : Type} {b : Builder α} (h : b.Idle) (last : Token) :
    b.StopsAt (fun _ t => t = last) last := by
  induction b with
  | done a => rfl
  | report p t k ih => exact ih h
  | fault f => trivial
  | next k | back t k | declare c k => exact h.elim

namespace Parser

variable {n : Nat}

/-! ## Declarations -/

/-- The kinds of tokens that end a row of parameters. -/
def paramsEnds : List TokenKind := [.punct .rparen, .eof, .keyword .is_]

theorem skipParamsRound_stops :
    RoundStops (skipParamsRound n) (fun _ _ => True) fun _ => (· ∈ paramsEnds) := by
  intro st t _
  unfold skipParamsRound
  split
  · next ht => exact show t.kind ∈ paramsEnds by rcases ht with ht | ht <;> simp [paramsEnds, ht]
  split
  · next ht => exact show t.kind ∈ paramsEnds by simp [paramsEnds, ht]
  · exact fun _ => trivial

/-- What is skipped ends where a round of skipping does. -/
theorem skipParams_stops (n : Nat) (t : Token) :
    (skipParams n t).StopsAt (fun _ u => u.kind ∈ paramsEnds) t := by
  induction n generalizing t with
  | zero => trivial
  | succ n ih =>
    have hround := skipParamsRound_stops (n := n) () t trivial
    unfold skipParamsRound at hround
    rw [skipParams]
    split
    · next h => rwa [if_pos h] at hround
    next h =>
    rw [if_neg h] at hround
    split
    · next h => rwa [if_pos h] at hround
    · refine stopsAt_read.bind fun u last hu => ?_
      cases hu
      exact ih u

theorem paramsRound_stops :
    RoundStops (paramsRound n) (fun _ _ => True) fun _ => (· ∈ paramsEnds) := by
  have abandon (p : Problem) (t : Token) (args : List TypedName) :
      (abandonParams (n + 1) p t >>= fun _ =>
        pure (Round.last args : Round Unit (List TypedName))).StopsAt
        (Round.LeavesAt (· ∈ paramsEnds)) t := (skipParams_stops (n + 1) t).bind fun _ _ hu => hu
  intro st name _
  unfold paramsRound
  split
  · exact abandon _ _ _
  refine stopsAt_read.bind fun colon last hlast => ?_
  cases hlast
  dsimp only
  split
  · exact abandon _ _ _
  refine stopsAt_behind (fun dataType last => stopsAt_read.bind fun t last hlast => ?_) _ _
  cases hlast
  dsimp only
  split
  · next ht => exact show t.kind ∈ paramsEnds by simp [paramsEnds, ht]
  · exact fun _ => trivial
  · exact abandon _ _ _

theorem structItemsRound_stops :
    RoundStops (structItemsRound n) (fun _ _ => True) fun _ => (· ∈ [.keyword .end_, .eof]) := by
  intro st t _
  unfold structItemsRound
  split
  · next ht => exact show t.kind ∈ _ by simp [ht]
  · next ht => exact show t.kind ∈ _ by simp [ht]
  · refine stopsAt_behind (fun _ _ => ?_) _ _
    exact fun _ => trivial
  · exact fun _ => trivial

theorem importRound_stops :
    RoundStops (importRound n) (fun _ _ => True) fun _ => (· ∈ [.punct .semicolon, .eof]) := by
  intro st t _
  unfold importRound
  split
  · next ht => exact show t.kind ∈ _ by simp [ht]
  · next ht => exact show t.kind ∈ _ by simp [ht]
  · exact fun _ => trivial
  · exact fun _ => trivial
  · exact fun _ => trivial

/-! ## Statements -/

theorem skipStatementRound_stops :
    RoundStops (skipStatementRound n) (fun _ _ => True)
      fun _ => (· ∈ [.punct .semicolon, .keyword .end_, .eof]) := by
  intro st t _
  unfold skipStatementRound
  split
  · next ht => exact show t.kind ∈ _ by simp [ht]
  · next ht => exact show t.kind ∈ _ by simp [ht]
  · next ht => exact show t.kind ∈ _ by simp [ht]
  · exact fun _ => trivial

theorem blockRound_stops :
    RoundStops (blockRound n) (fun _ _ => True) fun chained => (· ∈ rowEnds chained) := by
  intro chained t _
  unfold blockRound
  split
  · next ht => exact show t.kind ∈ rowEnds chained by rcases ht with ht | ht <;> simp [rowEnds, ht]
  split
  · next ht =>
    split
    · next hchained =>
      exact show t.kind ∈ rowEnds chained by rcases ht with ht | ht <;> simp [rowEnds, ht, hchained]
    · exact fun _ => trivial
  · refine stopsAt_behind (fun _ _ => ?_) _ _
    exact fun _ => trivial

/-- A chain of clauses ends at a token that begins no clause. -/
theorem clausesRound_stops {Inv : Bool → Token → Prop} {ends : Bool → TokenKind → Prop}
    (h : ∀ closed t, Inv closed t → t.kind ≠ .keyword .elif_ → t.kind ≠ .keyword .else_ →
      ends closed t.kind) : RoundStops (clausesRound n) Inv ends := by
  intro closed t ht
  have body (next : Bool) (f : Stmt → List Stmt → List Stmt) (u : Token) :
      (block n true >>= fun r => pure (.again r.2 next (f r.1)) :
        Builder (Round Bool (List Stmt))).StopsAt (Round.LeavesAt (ends closed)) u := by
    refine stopsAt_behind (fun _ _ => ?_) _ _
    trivial
  have chain (u : Token) :
      (plainExpression n (.keyword .then_) >>= fun condition => block n true >>= fun r =>
        pure (.again r.2 closed (clause .elif_ condition r.1 t.pos :: ·)) :
          Builder (Round Bool (List Stmt))).StopsAt (Round.LeavesAt (ends closed)) u :=
    stopsAt_behind (fun condition u => body closed (clause .elif_ condition · t.pos :: ·) u) _ _
  unfold clausesRound
  split
  · split
    · exact stopsAt_behind (fun _ => chain) _ _
    · exact chain t
  split
  · have other := body true (clause .else_ .none · t.pos :: ·)
    split
    · exact stopsAt_behind (fun _ => other) _ _
    · exact other t
  · next helif helse => exact h closed t ht helif helse

theorem clausesRound_stops_at_no_clause :
    RoundStops (clausesRound n) (fun _ _ => True)
      fun _ => (· ∉ [.keyword .elif_, .keyword .else_]) :=
  clausesRound_stops fun _ _ _ helif helse => by simp [helif, helse]

/-- So it ends where a row of statements ends, if it goes on from the token that ended one. -/
theorem clausesRound_stops_at_row_end :
    RoundStops (clausesRound n) (fun _ t => t.kind ∈ rowEnds true)
      fun _ => (· ∈ rowEnds false) :=
  clausesRound_stops fun _ _ ht helif helse => by simpa [rowEnds, helif, helse] using ht

/-! ## Expressions -/

theorem expressionRound_stops :
    RoundStops (expressionRound n) (fun st _ => st.2.2.Operated) fun st => (· ∈ [st.1, .eof]) := by
  intro st t _
  unfold expressionRound
  split
  · next ht =>
    refine ((idle_exprEnd st.1 st.2.1 t st.2.2).stopsAt t).bind fun a u hu => ?_
    exact show u.kind ∈ _ by rcases ht with ht | ht <;> simp [hu, ht]
  · refine stopsAt_behind (fun _ _ => ?_) _ _
    exact fun _ => trivial

end Parser

end ToyLang
