import Mathlib.Logic.Basic
import Mathlib.Tactic.Common

/-! # Unicode Encodings

    A sequence of scalar values (`Char` is exactly that: a code point that is no
    surrogate) in the three encoding forms, and the decoders of the two wide ones.

    * `utf8`, `utf16`, `utf32`: the encoding forms.
    * `decode16`, `decode32`: what a sequence of units denotes, if anything.
    * `decode16_utf16`, `decode32_utf32`: an encoded sequence denotes itself.
-/

namespace Unicode

/-! ## Encoding -/

/-- The number of a scalar value. -/
def scalar (c : Char) : Nat := c.val.toNat

/-- UTF-8. -/
def utf8 (cs : List Char) : List UInt8 := cs.flatMap String.utf8EncodeChar

/-- One unit below 0x10000, a surrogate pair above. -/
def utf16Char (c : Char) : List Nat :=
  if scalar c < 0x10000 then [scalar c]
  else [0xD800 + (scalar c - 0x10000) / 0x400, 0xDC00 + (scalar c - 0x10000) % 0x400]

/-- UTF-16. -/
def utf16 (cs : List Char) : List Nat := cs.flatMap utf16Char

/-- UTF-32. -/
def utf32 (cs : List Char) : List Nat := cs.map scalar

/-- A scalar value is no surrogate and at most 0x10FFFF. -/
theorem scalar_valid (c : Char) : scalar c < 0xD800 ∨ (0xDFFF < scalar c ∧ scalar c < 0x110000) :=
  c.valid

theorem scalar_inj {c d : Char} (h : scalar c = scalar d) : c = d :=
  Char.ext (UInt32.toNat_inj.mp h)

/-! ## The shortest form

    The bytes of a scalar value, by the six-bit groups of its number. -/

section shortest
variable {c : Char} {k a b d : Nat}

theorem utf8EncodeChar_eq (c : Char) : String.utf8EncodeChar c =
    if scalar c ≤ 127 then [UInt8.ofNat (scalar c)]
    else if scalar c ≤ 2047 then
      [UInt8.ofNat (scalar c / 64 % 32 + 192), UInt8.ofNat (scalar c % 64 + 128)]
    else if scalar c ≤ 65535 then
      [UInt8.ofNat (scalar c / 4096 % 16 + 224), UInt8.ofNat (scalar c / 64 % 64 + 128),
        UInt8.ofNat (scalar c % 64 + 128)]
    else
      [UInt8.ofNat (scalar c / 262144 % 8 + 240), UInt8.ofNat (scalar c / 4096 % 64 + 128),
        UInt8.ofNat (scalar c / 64 % 64 + 128), UInt8.ofNat (scalar c % 64 + 128)] := rfl

theorem utf8_one (h : scalar c < 128) : String.utf8EncodeChar c = [UInt8.ofNat (scalar c)] := by
  rw [utf8EncodeChar_eq, if_pos (by omega)]

theorem utf8_two (hv : scalar c = k * 64 + a) (hlow : 2 ≤ k) (hk : k < 32) (ha : a < 64) :
    String.utf8EncodeChar c = [UInt8.ofNat (k + 192), UInt8.ofNat (a + 128)] := by
  have hk' : scalar c / 64 % 32 = k := by omega
  have ha' : scalar c % 64 = a := by omega
  rw [utf8EncodeChar_eq, if_neg (by omega), if_pos (by omega), hk', ha']

theorem utf8_three (hv : scalar c = (k * 64 + a) * 64 + b) (hlow : 0x800 ≤ scalar c) (hk : k < 16)
    (ha : a < 64) (hb : b < 64) :
    String.utf8EncodeChar c =
      [UInt8.ofNat (k + 224), UInt8.ofNat (a + 128), UInt8.ofNat (b + 128)] := by
  have hk' : scalar c / 4096 % 16 = k := by omega
  have ha' : scalar c / 64 % 64 = a := by omega
  have hb' : scalar c % 64 = b := by omega
  rw [utf8EncodeChar_eq, if_neg (by omega), if_neg (by omega), if_pos (by omega), hk', ha', hb']

theorem utf8_four (hv : scalar c = ((k * 64 + a) * 64 + b) * 64 + d) (hlow : 0x10000 ≤ scalar c)
    (hk : k < 8) (ha : a < 64) (hb : b < 64) (hd : d < 64) :
    String.utf8EncodeChar c =
      [UInt8.ofNat (k + 240), UInt8.ofNat (a + 128), UInt8.ofNat (b + 128),
        UInt8.ofNat (d + 128)] := by
  have hk' : scalar c / 262144 % 8 = k := by omega
  have ha' : scalar c / 4096 % 64 = a := by omega
  have hb' : scalar c / 64 % 64 = b := by omega
  have hd' : scalar c % 64 = d := by omega
  rw [utf8EncodeChar_eq, if_neg (by omega), if_neg (by omega), if_neg (by omega), hk', ha', hb', hd']

end shortest

/-! ## Decoding -/

/-- The scalar value with a number, if there is one. -/
def ofScalar (n : Nat) : Option Char :=
  if h : n.isValidChar then some (Char.ofNatAux n h) else none

theorem ofScalar_of_valid {n : Nat} (h : n < 0xD800 ∨ (0xDFFF < n ∧ n < 0x110000)) :
    ∃ c, ofScalar n = some c ∧ scalar c = n :=
  ⟨Char.ofNatAux n h, dif_pos h, rfl⟩

theorem ofScalar_scalar (c : Char) : ofScalar (scalar c) = some c := by
  obtain ⟨d, hd, hdc⟩ := ofScalar_of_valid (scalar_valid c)
  rw [hd, scalar_inj hdc]

/-- UTF-32, read back. -/
def decode32 : List Nat → Option (List Char)
  | [] => some []
  | u :: us => do
    let c ← ofScalar u
    let cs ← decode32 us
    return c :: cs

/-- UTF-16, read back. A surrogate that is not one of a pair denotes nothing. -/
def decode16 : List Nat → Option (List Char)
  | [] => some []
  | [u] => (ofScalar u).map fun c => [c]
  | u :: l :: us =>
    if 0xD800 ≤ u ∧ u < 0xDC00 ∧ 0xDC00 ≤ l ∧ l < 0xE000 then do
      let c ← ofScalar (0x10000 + (u - 0xD800) * 0x400 + (l - 0xDC00))
      let cs ← decode16 us
      return c :: cs
    else do
      let c ← ofScalar u
      let cs ← decode16 (l :: us)
      return c :: cs

theorem decode32_utf32 (cs : List Char) : decode32 (utf32 cs) = some cs := by
  induction cs with
  | nil => rfl
  | cons c cs ih =>
    unfold utf32 at ih ⊢
    rw [List.map_cons]
    unfold decode32
    rw [ofScalar_scalar, ih]
    rfl

/-- A unit that is no surrogate stands for itself. -/
theorem decode16_single (c : Char) (us : List Nat) (h : scalar c < 0x10000) :
    decode16 (scalar c :: us) = (decode16 us).map (c :: ·) := by
  have hno := scalar_valid c
  cases us with
  | nil =>
    unfold decode16
    rw [ofScalar_scalar]
    rfl
  | cons l us =>
    rw [decode16, if_neg (by omega), ofScalar_scalar]
    cases decode16 (l :: us) <;> rfl

/-- A surrogate pair stands for one scalar value. -/
theorem decode16_pair (c : Char) (us : List Nat) (h : 0x10000 ≤ scalar c) :
    decode16 ((0xD800 + (scalar c - 0x10000) / 0x400) ::
      (0xDC00 + (scalar c - 0x10000) % 0x400) :: us) = (decode16 us).map (c :: ·) := by
  have hmax := scalar_valid c
  have hback : 0x10000 + (0xD800 + (scalar c - 0x10000) / 0x400 - 0xD800) * 0x400
      + (0xDC00 + (scalar c - 0x10000) % 0x400 - 0xDC00) = scalar c := by
    omega
  rw [decode16, if_pos (by omega), hback, ofScalar_scalar]
  cases decode16 us <;> rfl

theorem decode16_utf16 (cs : List Char) : decode16 (utf16 cs) = some cs := by
  induction cs with
  | nil => rfl
  | cons c cs ih =>
    unfold utf16 at ih ⊢
    rw [List.flatMap_cons]
    by_cases h : scalar c < 0x10000
    · rw [utf16Char, if_pos h, List.singleton_append, decode16_single c _ h, ih]
      rfl
    · rw [utf16Char, if_neg h, List.cons_append, List.singleton_append,
        decode16_pair c _ (by omega), ih]
      rfl

end Unicode
