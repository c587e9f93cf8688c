import ToyLang.Proofs.Lexing.Text
import ToyLang.Proofs.Roundtrip.Regular

/-!
# What the lexer makes

The payloads of names, numbers and literals are what their kinds promise (`Token.Lexed`), for every
token that a text is read as (`Cursor.lexed_tokens`).
-/

set_option autoImplicit false

namespace ToyLang

/-- What a kind promises of the payload. -/
def TokenKind.Carries : TokenKind → Payload → Prop
  | ident, v => ∃ s, v = .text s ∧ IsName s
  | number, v => ∃ n : Nat, v = .int n ∧ n ≤ maxNumber
  | string, v => ∃ s, v = .text s ∧ '\x22' ∉ s.toList
  | char, v => ∃ c, v = .text (String.ofList [c]) ∧ c ≠ '\x27'
  | _, _ => True

/-- The payload is what the kind promises. -/
def Token.Lexed (t : Token) : Prop := t.kind.Carries t.value

theorem lexed_endMark (pos : Pos) : (Token.endMark pos).Lexed := trivial

/-! ## Lexemes -/

theorem carries_word {w : List Char} (h : IsWord w) :
    (TokenKind.ofWord (String.ofList w)).Carries (.text (String.ofList w)) := by
  have hname := isName_iff (s := String.ofList w) (by rwa [String.toList_ofList])
  cases hk : TokenKind.ofWord (String.ofList w) with
  | ident => exact ⟨_, rfl, hname.2 hk⟩
  | keyword k | type s => trivial
  | _ => unfold TokenKind.ofWord at hk; split at hk <;> cases hk

theorem IsLexeme.carries {k : TokenKind} {v : Payload} {text rest : List Char}
    (h : IsLexeme k v text rest) : k.Carries v := by
  cases h with
  | @word _ c cs _ hk start tail =>
    obtain rfl := TokenKind.isWordKind_iff.1 hk
    refine carries_word ⟨⟨c, cs, rfl, isWordStart_iff.2 start⟩, List.forall_mem_cons.2 ⟨?_, ?_⟩⟩
    · exact isWordChar_of_start (isWordStart_iff.2 start)
    · exact fun d hd => isWordChar_iff.2 (tail d hd)
  | number _ _ _ _ fits => exact ⟨_, rfl, decimal_le_maxNumber_iff.2 fits⟩
  | string hbody => exact ⟨_, rfl, by rwa [String.toList_ofList]⟩
  | char hc => exact ⟨_, rfl, hc⟩
  | symbol hk => rcases hk with ⟨p, rfl, -⟩ | ⟨o, rfl, -⟩ <;> trivial
  | _ => trivial

/-! ## Tokens -/

/-- **Every token of a text is what its kind promises.** -/
theorem Cursor.lexed_tokens (c : Cursor) : ∀ t ∈ c.tokens.1, t.Lexed :=
  c.forall_tokens (fun _ _ _ _ _ h => h.carries) lexed_endMark

end ToyLang
