import Mathlib.Algebra.Group.Nat.Defs
import ToyLang.Text.Utf8

/-!
# Decoding is the inverse of encoding

Bytes are decoded as characters if and only if they are the UTF-8 of these characters
(`decode_eq_ok_iff`), so that whatever is not the UTF-8 of a text is refused.

A code point is written as a first byte and the bytes that continue it, six bits each
(`continuation`). Inside a character the machine stands for the code points that begin with the bits
it has read: `Pending.Read` says that it stands for none but these, `Pending.Expects` that a code
point is among them.
-/

set_option autoImplicit false

namespace ToyLang.Text

/-! ## Encoding -/

/-- The last `n` bytes of a code point. -/
def continuation (v : Nat) : Nat → List UInt8
  | 0 => []
  | n + 1 => UInt8.ofNat (0x80 + v / 0x40 ^ n % 0x40) :: continuation v n

theorem toNat_continuation (v n : Nat) :
    (UInt8.ofNat (0x80 + v / 0x40 ^ n % 0x40)).toNat = 0x80 + v / 0x40 ^ n % 0x40 := by
  rw [UInt8.toNat_ofNat']
  omega

/-- A continuing byte is determined by its six bits. -/
theorem ofNat_continuation {b : UInt8} {x : Nat} (hleast : 0x80 ≤ b.toNat)
    (hgreatest : b.toNat ≤ 0xbf) (hx : x = b.toNat % 0x40) : UInt8.ofNat (0x80 + x) = b := by
  rw [← UInt8.toNat_inj, UInt8.toNat_ofNat']
  omega

section
variable {c : Char} {v : Nat} (hc : c.val.toNat = v)
include hc

theorem encode_one (h : v ≤ 0x7f) : String.utf8EncodeChar c = [UInt8.ofNat v] := by
  subst hc
  rw [String.utf8EncodeChar]
  simp only [if_pos h]

theorem encode_two (h : 0x7f < v) (h' : v ≤ 0x7ff) :
    String.utf8EncodeChar c = UInt8.ofNat (v / 64 % 0x20 + 0xc0) :: continuation v 1 := by
  subst hc
  rw [String.utf8EncodeChar]
  simp only [if_neg (Nat.not_le.2 h), if_pos h']
  simp [continuation, Nat.add_comm]

theorem encode_three (h : 0x7ff < v) (h' : v ≤ 0xffff) :
    String.utf8EncodeChar c = UInt8.ofNat (v / 4096 % 0x10 + 0xe0) :: continuation v 2 := by
  subst hc
  have hone : ¬c.val.toNat ≤ 0x7f := by omega
  rw [String.utf8EncodeChar]
  simp only [if_neg hone, if_neg (Nat.not_le.2 h), if_pos h']
  simp [continuation, Nat.add_comm]

theorem encode_four (h : 0xffff < v) :
    String.utf8EncodeChar c = UInt8.ofNat (v / 262144 % 0x08 + 0xf0) :: continuation v 3 := by
  subst hc
  have hone : ¬c.val.toNat ≤ 0x7f := by omega
  have htwo : ¬c.val.toNat ≤ 0x7ff := by omega
  rw [String.utf8EncodeChar]
  simp only [if_neg hone, if_neg htwo, if_neg (Nat.not_le.2 h)]
  simp [continuation, Nat.add_comm]

end

theorem toNat_ofNat {v : Nat} (hv : v.isValidChar) : (Char.ofNat v).val.toNat = v := by
  rw [Char.ofNat, dif_pos hv]
  rfl

/-! ## Inside a character -/

namespace Pending

/-- The code point begins with the bits so far, and its next byte is within the bounds. -/
structure Expects (p : Pending) (v : Nat) : Prop where
  bits : v / 0x40 ^ p.owed = p.bits
  least : p.least ≤ 0x80 + v / 0x40 ^ (p.owed - 1) % 0x40
  greatest : 0x80 + v / 0x40 ^ (p.owed - 1) % 0x40 ≤ p.greatest

/-- The bytes so far are the first ones of every character that is expected. -/
structure Read (p : Pending) (read : List UInt8) : Prop where
  owes : 0 < p.owed
  least : 0x80 ≤ p.least
  greatest : p.greatest ≤ 0xbf
  encodes : ∀ v, p.Expects v →
    String.utf8EncodeChar (Char.ofNat v) = read ++ continuation v p.owed

/-- The state behind one more byte. -/
def step (p : Pending) (b : UInt8) : Pending :=
  { p with owed := p.owed - 1, least := 0x80, greatest := 0xbf
           bits := 0x40 * p.bits + b.toNat % 0x40 }

variable {p : Pending} {read : List UInt8} {b : UInt8} {v : Nat}

theorem Read.last (h : p.Read read) (hb : p.least ≤ b.toNat) (hb' : b.toNat ≤ p.greatest)
    (howed : p.owed = 1) :
    String.utf8EncodeChar (Char.ofNat (p.step b).bits) = read ++ [b] := by
  have hleast := h.least
  have hgreatest := h.greatest
  have hbits : (p.step b).bits / 0x40 = p.bits := by simp only [step]; omega
  have hlow : (p.step b).bits % 0x40 = b.toNat % 0x40 := by simp only [step]; omega
  have hexpects : p.Expects (p.step b).bits := by
    refine ⟨?_, ?_, ?_⟩ <;>
      simp only [howed, Nat.sub_self, Nat.pow_zero, Nat.pow_one, Nat.div_one] <;> omega
  have hbyte : UInt8.ofNat (0x80 + (p.step b).bits % 0x40) = b :=
    ofNat_continuation (by omega) (by omega) hlow
  simpa [howed, continuation, hbyte] using h.encodes _ hexpects

theorem Read.step (h : p.Read read) (hb : p.least ≤ b.toNat) (hb' : b.toNat ≤ p.greatest)
    (howed : 1 < p.owed) : (p.step b).Read (read ++ [b]) := by
  have hleast := h.least
  have hgreatest := h.greatest
  refine ⟨Nat.sub_pos_of_lt howed, Nat.le_refl _, Nat.le_refl _, fun v hv => ?_⟩
  obtain ⟨n, hn⟩ : ∃ n, p.owed = n + 2 := ⟨p.owed - 2, by omega⟩
  have hbits : v / 0x40 ^ (n + 1) = 0x40 * p.bits + b.toNat % 0x40 := by
    simpa [Pending.step, hn] using hv.bits
  have hhigh : v / 0x40 ^ (n + 2) = p.bits := by
    rw [Nat.pow_succ, ← Nat.div_div_eq_div_mul, hbits]
    omega
  have hlow : v / 0x40 ^ (n + 1) % 0x40 = b.toNat % 0x40 := by omega
  have hexpects : p.Expects v := by
    refine ⟨by rw [hn, hhigh], ?_, ?_⟩ <;> simp only [hn, Nat.add_one_sub_one] <;> omega
  have hbyte : UInt8.ofNat (0x80 + v / 0x40 ^ (n + 1) % 0x40) = b :=
    ofNat_continuation (by omega) (by omega) hlow
  rw [h.encodes v hexpects, hn, continuation, hbyte]
  simp [Pending.step, hn]

theorem Expects.step (h : p.Expects v) (howed : 1 < p.owed) :
    (p.step (UInt8.ofNat (0x80 + v / 0x40 ^ (p.owed - 1) % 0x40))).Expects v := by
  obtain ⟨n, hn⟩ : ∃ n, p.owed = n + 2 := ⟨p.owed - 2, by omega⟩
  have hhigh : v / 0x40 ^ (n + 2) = p.bits := hn ▸ h.bits
  rw [Nat.pow_succ, ← Nat.div_div_eq_div_mul] at hhigh
  refine ⟨?_, ?_, ?_⟩ <;>
    simp only [Pending.step, hn, toNat_continuation, Nat.add_one_sub_one] <;> omega

/-- What a first byte begins is what is encoded with it. -/
theorem read_of_start {place : Nat} (h : Pending.start? b place = some p) : p.Read [b] := by
  have hbyte {x : Nat} (hx : x = b.toNat) : UInt8.ofNat x = b := by rw [hx, UInt8.ofNat_toNat]
  unfold start? at h
  simp only at h
  split at h
  · cases h
    refine ⟨Nat.one_pos, Nat.le_refl _, Nat.le_refl _, fun v ⟨hbits, hleast, hgreatest⟩ => ?_⟩
    simp only [Nat.sub_self, Nat.pow_zero, Nat.pow_one, Nat.div_one] at hbits hleast hgreatest
    have hv : v.isValidChar := .inl (by omega)
    rw [encode_two (toNat_ofNat hv) (by omega) (by omega), hbyte (by omega)]
    rfl
  split at h
  · cases h
    refine ⟨Nat.two_pos, ?_, ?_, fun v ⟨hbits, hleast, hgreatest⟩ => ?_⟩
    · dsimp only
      split <;> decide
    · dsimp only
      split <;> decide
    simp only [Nat.add_one_sub_one, Nat.pow_one] at hbits hleast hgreatest
    have hv : v.isValidChar ∧ 0x7ff < v := by
      unfold Nat.isValidChar
      split at hleast <;> split at hgreatest <;> omega
    rw [encode_three (toNat_ofNat hv.1) hv.2 (by omega), hbyte (by omega)]
    rfl
  split at h
  · cases h
    refine ⟨Nat.succ_pos 2, ?_, ?_, fun v ⟨hbits, hleast, hgreatest⟩ => ?_⟩
    · dsimp only
      split <;> decide
    · dsimp only
      split <;> decide
    simp only [Nat.add_one_sub_one] at hbits hleast hgreatest
    have hv : v.isValidChar ∧ 0xffff < v := by
      unfold Nat.isValidChar
      split at hleast <;> split at hgreatest <;> omega
    rw [encode_four (toNat_ofNat hv.1) hv.2, hbyte (by omega)]
    rfl
  · cases h

section
variable (place : Nat)

theorem start_two (h : 0xc2 ≤ b.toNat) (h' : b.toNat ≤ 0xdf) :
    Pending.start? b place = some ⟨b, place, 1, 0x80, 0xbf, b.toNat % 0x20⟩ := by
  rw [start?]
  exact if_pos ⟨h, h'⟩

theorem start_three (h : 0xe0 ≤ b.toNat) (h' : b.toNat ≤ 0xef) :
    Pending.start? b place = some ⟨b, place, 2, if b.toNat = 0xe0 then 0xa0 else 0x80,
      if b.toNat = 0xed then 0x9f else 0xbf, b.toNat % 0x10⟩ := by
  rw [start?]
  simp only
  rw [if_neg (by omega), if_pos ⟨h, h'⟩]

theorem start_four (h : 0xf0 ≤ b.toNat) (h' : b.toNat ≤ 0xf4) :
    Pending.start? b place = some ⟨b, place, 3, if b.toNat = 0xf0 then 0x90 else 0x80,
      if b.toNat = 0xf4 then 0x8f else 0xbf, b.toNat % 0x08⟩ := by
  rw [start?]
  simp only
  rw [if_neg (by omega), if_neg (by omega), if_pos ⟨h, h'⟩]

/-- A character of several bytes is begun by its first byte. -/
theorem exists_start (c : Char) (h : 0x80 ≤ c.val.toNat) :
    ∃ b p, 0x80 ≤ b.toNat ∧ Pending.start? b place = some p ∧ 0 < p.owed ∧
      p.Expects c.val.toNat ∧
      String.utf8EncodeChar c = b :: continuation c.val.toNat p.owed := by
  have hvalid : c.val.toNat < 0xd800 ∨ 0xdfff < c.val.toNat ∧ c.val.toNat < 0x110000 := c.valid
  have htwo := @encode_two c _ rfl
  have hthree := @encode_three c _ rfl
  have hfour := @encode_four c _ rfl
  generalize c.val.toNat = v at *
  by_cases hv : v ≤ 0x7ff
  · have hb : (UInt8.ofNat (v / 64 % 0x20 + 0xc0)).toNat = v / 64 + 0xc0 := by
      rw [UInt8.toNat_ofNat']
      omega
    refine ⟨_, _, by omega, start_two place (by omega) (by omega), Nat.one_pos, ⟨?_, ?_, ?_⟩,
      htwo (by omega) hv⟩
    · simp only [Nat.pow_one]
      omega
    · simp
    · simp only [Nat.sub_self, Nat.pow_zero, Nat.div_one]
      omega
  by_cases hv' : v ≤ 0xffff
  · have hb : (UInt8.ofNat (v / 4096 % 0x10 + 0xe0)).toNat = v / 4096 + 0xe0 := by
      rw [UInt8.toNat_ofNat']
      omega
    refine ⟨_, _, by omega, start_three place (by omega) (by omega), Nat.two_pos, ⟨?_, ?_, ?_⟩,
      hthree (by omega) hv'⟩
    · simp only
      omega
    · simp only [Nat.add_one_sub_one, Nat.pow_one]
      split <;> omega
    · simp only [Nat.add_one_sub_one, Nat.pow_one]
      split <;> omega
  · have hb : (UInt8.ofNat (v / 262144 % 0x08 + 0xf0)).toNat = v / 262144 + 0xf0 := by
      rw [UInt8.toNat_ofNat']
      omega
    refine ⟨_, _, by omega, start_four place (by omega) (by omega), Nat.succ_pos 2, ⟨?_, ?_, ?_⟩,
      hfour (by omega)⟩
    · simp only
      omega
    · simp only [Nat.add_one_sub_one]
      split <;> omega
    · simp only [Nat.add_one_sub_one]
      split <;> omega

end

end Pending

/-! ## Decoding -/

section
variable {p : Pending} {b : UInt8} (place : Nat) (bs : List UInt8)

theorem decodeFrom_last (hb : p.least ≤ b.toNat) (hb' : b.toNat ≤ p.greatest)
    (howed : p.owed ≤ 1) :
    decodeFrom place (some p) (b :: bs) =
      (decodeFrom (place + 1) none bs).map (Char.ofNat (p.step b).bits :: ·) := by
  rw [decodeFrom, if_pos ⟨hb, hb'⟩]
  exact if_pos howed

theorem decodeFrom_step (hb : p.least ≤ b.toNat) (hb' : b.toNat ≤ p.greatest)
    (howed : ¬ p.owed ≤ 1) :
    decodeFrom place (some p) (b :: bs) = decodeFrom (place + 1) (some (p.step b)) bs := by
  rw [decodeFrom, if_pos ⟨hb, hb'⟩]
  exact if_neg howed

end

theorem exists_of_map_cons {x : Except DecodeError (List Char)} {c : Char} {cs : List Char}
    (h : x.map (c :: ·) = .ok cs) : ∃ cs', x = .ok cs' ∧ cs = c :: cs' := by
  cases x with
  | ok cs' => exact ⟨cs', rfl, (Except.ok.inj h).symm⟩
  | error e => cases h

theorem encode_ascii {b : UInt8} (h : b.toNat < 0x80) :
    String.utf8EncodeChar (Char.ofNat b.toNat) = [b] := by
  rw [encode_one (toNat_ofNat (.inl (by omega))) (by omega), UInt8.ofNat_toNat]

/-- **What is decoded is the encoding of what it is decoded as**, also from inside a character. -/
theorem encodes_of_decodeFrom {place : Nat} {state : Option Pending} {bs : List UInt8}
    {cs : List Char} (h : decodeFrom place state bs = .ok cs) {read : List UInt8}
    (hstate : state.elim (read = []) fun p => p.Read read) :
    read ++ bs = cs.flatMap String.utf8EncodeChar := by
  fun_induction decodeFrom place state bs generalizing cs read with
  | case1 place =>
    cases h
    simpa using hstate
  | case2 | case5 | case8 => cases h
  | case3 place b bs hb ih =>
    obtain rfl : read = [] := hstate
    obtain ⟨cs', hcs', rfl⟩ := exists_of_map_cons h
    rw [List.flatMap_cons, encode_ascii hb, ← ih hcs' rfl]
    rfl
  | case4 place b bs hb p hp ih =>
    obtain rfl : read = [] := hstate
    exact ih h (Pending.read_of_start hp)
  | case6 place p b bs hb =>
    rename_i howed ih
    obtain ⟨cs', hcs', rfl⟩ := exists_of_map_cons h
    have howes := hstate.owes
    have hchar : String.utf8EncodeChar (Char.ofNat (p.step b).bits) = read ++ [b] :=
      hstate.last hb.1 hb.2 (by omega)
    show read ++ b :: bs = (Char.ofNat (p.step b).bits :: cs').flatMap String.utf8EncodeChar
    rw [List.flatMap_cons, hchar, ← ih hcs' rfl]
    simp
  | case7 place p b bs hb =>
    rename_i howed ih
    rw [← ih h (hstate.step hb.1 hb.2 (by omega))]
    simp

/-- The rest of an expected character is decoded as it. -/
theorem decodeFrom_continuation {place : Nat} {p : Pending} {v : Nat} (bs : List UInt8)
    (h : p.Expects v) (howes : 0 < p.owed) :
    decodeFrom place (some p) (continuation v p.owed ++ bs) =
      (decodeFrom (place + p.owed) none bs).map (Char.ofNat v :: ·) := by
  obtain ⟨n, hn⟩ : ∃ n, p.owed = n + 1 := ⟨p.owed - 1, by omega⟩
  induction n generalizing place p with
  | zero =>
    have hleast := h.least
    have hgreatest := h.greatest
    have hbits : (p.step (UInt8.ofNat (0x80 + v / 0x40 ^ 0 % 0x40))).bits = v := by
      have hhigh := h.bits
      rw [hn, Nat.pow_one] at hhigh
      rw [Pending.step, toNat_continuation, Nat.pow_zero, Nat.div_one]
      show 0x40 * p.bits + (0x80 + v % 0x40) % 0x40 = v
      omega
    rw [hn] at hleast hgreatest ⊢
    rw [continuation, List.cons_append, decodeFrom_last, hbits]
    · rfl
    · rwa [toNat_continuation]
    · rwa [toNat_continuation]
    · omega
  | succ n ih =>
    have hleast := h.least
    have hgreatest := h.greatest
    have hstep := h.step (by omega)
    rw [hn, Nat.add_one_sub_one] at hleast hgreatest hstep
    rw [hn, continuation, List.cons_append, decodeFrom_step]
    · have howed : (p.step (UInt8.ofNat (0x80 + v / 0x40 ^ (n + 1) % 0x40))).owed = n + 1 := by
        rw [Pending.step, hn, Nat.add_one_sub_one]
      have hrest := @ih (place + 1) _ hstep (by omega) howed
      rw [howed] at hrest
      rw [hrest]
      congr 2
      omega
    · rwa [toNat_continuation]
    · rwa [toNat_continuation]
    · omega

/-- **A text is decoded from its encoding.** -/
theorem decodeFrom_encode (place : Nat) (cs : List Char) :
    decodeFrom place none (cs.flatMap String.utf8EncodeChar) = .ok cs := by
  induction cs generalizing place with
  | nil => rfl
  | cons c cs ih =>
    rw [List.flatMap_cons]
    by_cases hc : 0x80 ≤ c.val.toNat
    · obtain ⟨b, p, hb, hstart, howes, hexpects, hencode⟩ := Pending.exists_start place c hc
      rw [hencode, List.cons_append, decodeFrom, if_neg (by omega), hstart]
      simp only
      rw [decodeFrom_continuation _ hexpects howes, ih]
      exact congrArg (fun c => Except.ok (c :: cs)) c.ofNat_toNat
    · have hb : (UInt8.ofNat c.val.toNat).toNat = c.val.toNat := by
        rw [UInt8.toNat_ofNat']
        omega
      rw [encode_one rfl (by omega), List.singleton_append, decodeFrom, if_pos (by omega), ih, hb]
      exact congrArg (fun c => Except.ok (c :: cs)) c.ofNat_toNat

theorem toUTF8_toList (text : String) :
    text.toUTF8.data.toList = text.toList.flatMap String.utf8EncodeChar := by
  have h := congrArg (fun bytes : ByteArray => bytes.data.toList)
    (String.utf8Encode_toList (b := text))
  simpa [List.utf8Encode] using h.symm

/-- **Bytes are decoded as a text if and only if they are its encoding.** -/
theorem decode_eq_ok_iff {bs : List UInt8} {text : String} :
    decode bs = .ok text.toList ↔ bs = text.toUTF8.data.toList := by
  rw [toUTF8_toList]
  exact ⟨fun h => encodes_of_decodeFrom h rfl, fun h => h ▸ decodeFrom_encode 0 text.toList⟩

end ToyLang.Text
