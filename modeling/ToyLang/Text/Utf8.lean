import ToyLang.Text.Hex

/-!
# Decoding UTF-8

A machine over bytes: between characters, or inside one with some continuation bytes still owed and
bounds for the next of them. The bounds rule out overlong forms, surrogates and everything above
U+10FFFF. Decoding is strict: at the first byte that cannot follow it gives the stretch of bytes that
is no character, and why.
-/

set_option autoImplicit false

namespace ToyLang.Text

/-- Why bytes are no text. -/
inductive DecodeReason where
  | invalidStart | invalidContinuation | unexpectedEnd
deriving DecidableEq

/-- The reason in words. -/
def DecodeReason.message : DecodeReason → String
  | invalidStart => "invalid start byte"
  | invalidContinuation => "invalid continuation byte"
  | unexpectedEnd => "unexpected end of data"

/-- A stretch of bytes that is no character: its first byte, the places of its first and last byte,
and the reason. -/
structure DecodeError where
  byte : UInt8
  first : Nat
  last : Nat
  reason : DecodeReason
deriving DecidableEq

/-- The error in words. -/
def DecodeError.message (e : DecodeError) : String :=
  let stretch :=
    if e.first = e.last then s!"byte 0x{hex 2 e.byte.toNat} in position {e.first}"
    else s!"bytes in position {e.first}-{e.last}"
  s!"'utf-8' codec can't decode {stretch}: {e.reason.message}"

/-- A character that is not complete: its first byte and the place of it, the number of bytes that
are owed, the bounds of the next one, and the bits so far. -/
structure Pending where
  byte : UInt8
  first : Nat
  owed : Nat
  least : Nat
  greatest : Nat
  bits : Nat

/-- The error of a character that ends at the place before `next`. -/
def Pending.error (p : Pending) (next : Nat) (reason : DecodeReason) : DecodeError :=
  ⟨p.byte, p.first, next - 1, reason⟩

/-- What the byte at a place starts, if it is more than one byte. -/
def Pending.start? (b : UInt8) (place : Nat) : Option Pending :=
  let n := b.toNat
  if 0xc2 ≤ n ∧ n ≤ 0xdf then some ⟨b, place, 1, 0x80, 0xbf, n % 0x20⟩
  else if 0xe0 ≤ n ∧ n ≤ 0xef then
    let least := if n = 0xe0 then 0xa0 else 0x80
    let greatest := if n = 0xed then 0x9f else 0xbf
    some ⟨b, place, 2, least, greatest, n % 0x10⟩
  else if 0xf0 ≤ n ∧ n ≤ 0xf4 then
    let least := if n = 0xf0 then 0x90 else 0x80
    let greatest := if n = 0xf4 then 0x8f else 0xbf
    some ⟨b, place, 3, least, greatest, n % 0x08⟩
  else none

/-- The characters of the bytes from a place on, perhaps inside a character. -/
def decodeFrom : Nat → Option Pending → List UInt8 → Except DecodeError (List Char)
  | _, none, [] => .ok []
  | place, some p, [] => .error (p.error place .unexpectedEnd)
  | place, none, b :: bs =>
    if b.toNat < 0x80 then (decodeFrom (place + 1) none bs).map (Char.ofNat b.toNat :: ·)
    else
      match Pending.start? b place with
      | some p => decodeFrom (place + 1) (some p) bs
      | none => .error ⟨b, place, place, .invalidStart⟩
  | place, some p, b :: bs =>
    if p.least ≤ b.toNat ∧ b.toNat ≤ p.greatest then
      let bits := 0x40 * p.bits + b.toNat % 0x40
      if p.owed ≤ 1 then (decodeFrom (place + 1) none bs).map (Char.ofNat bits :: ·)
      else
        decodeFrom (place + 1)
          (some { p with owed := p.owed - 1, least := 0x80, greatest := 0xbf, bits }) bs
    else .error (p.error place .invalidContinuation)

/-- The characters of a row of bytes. -/
def decode (bytes : List UInt8) : Except DecodeError (List Char) := decodeFrom 0 none bytes

end ToyLang.Text
