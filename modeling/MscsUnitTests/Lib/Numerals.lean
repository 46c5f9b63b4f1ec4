import MscsUnitTests.Lib.Files
import Mathlib.Data.Nat.Digits.Lemmas

/-! # Numbers as Text

    What `printf` writes for a number, and what the C library reads back.

    * `numeral`, `decimal`, `hex8`: the digits in a base, `%d` and `%08X`.
    * `strtol`, `strtoul`: white space, a sign, the base by the prefix, and what becomes of a
      value that does not fit.
    * `strtol_decimal`, `strtoul_hex8`: what was written is read back.
-/

open CFiles

namespace CNumerals

/-! ## Section 1: Writing -/

/-- A digit, in the way of `%X`. -/
def digitByte (d : Nat) : UInt8 := UInt8.ofNat (if d < 10 then 48 + d else 55 + d)

/-- The digits of a number, the first one not a zero. -/
def numeral (b n : Nat) : CStr :=
  if n = 0 then [48] else ((Nat.digits b n).map digitByte).reverse

/-- `%d`. -/
def decimal (i : Int) : CStr :=
  if i < 0 then 45 :: numeral 10 i.natAbs else numeral 10 i.natAbs

/-- `%08X`. -/
def hex8 (n : Nat) : CStr :=
  List.replicate (8 - (numeral 16 n).length) 48 ++ numeral 16 n

/-! ## Section 2: Reading -/

/-- What a character is worth as a digit. -/
def digitValue (c : UInt8) : Option Nat :=
  if 48 ≤ c ∧ c ≤ 57 then some (c.toNat - 48)
  else if 65 ≤ c ∧ c ≤ 90 then some (c.toNat - 55)
  else if 97 ≤ c ∧ c ≤ 122 then some (c.toNat - 87)
  else none

/-- The same where it is a digit of the base. -/
def digitOf (b : Nat) (c : UInt8) : Option Nat := (digitValue c).filter (· < b)

/-- The digits that a text starts with, after those that make `acc`. -/
def valueFrom (b : Nat) : Nat → CStr → Nat
  | acc, [] => acc
  | acc, c :: s =>
    match digitOf b c with
    | some d => valueFrom b (acc * b + d) s
    | none => acc

def value (b : Nat) (s : CStr) : Nat := valueFrom b 0 s

def isSpace (c : UInt8) : Bool := c = 32 ∨ (9 ≤ c ∧ c ≤ 13)

/-- A sign, and what stands behind it. -/
def signed : CStr → Bool × CStr
  | 45 :: s => (true, s)
  | 43 :: s => (false, s)
  | s => (false, s)

/-- The base is told by the prefix: `0x` with a digit behind it, `0`, or neither. -/
def prefixed : CStr → Nat
  | 48 :: x :: c :: s =>
    if (x = 120 ∨ x = 88) ∧ (digitOf 16 c).isSome then value 16 (c :: s)
    else value 8 (x :: c :: s)
  | 48 :: s => value 8 s
  | s => value 10 s

/-- `strtol(s, 0, base)` where `long` has `w` bits; `read` is what the base makes of the
    digits. -/
def strtol (w : Nat) (read : CStr → Nat) (s : CStr) : Int :=
  let (neg, digits) := signed (s.dropWhile isSpace)
  if neg then max (-(2 ^ (w - 1))) (-(read digits : Int)) else min (2 ^ (w - 1) - 1) (read digits)

/-- `strtoul(s, 0, base)`: a minus sign negates the value. -/
def strtoul (w : Nat) (read : CStr → Nat) (s : CStr) : Nat :=
  let (neg, digits) := signed (s.dropWhile isSpace)
  let n := read digits
  if 2 ^ w ≤ n then 2 ^ w - 1 else if neg then (2 ^ w - n) % 2 ^ w else n

/-- A cast to `int`. -/
def toInt (v : Int) : Int := v.bmod (2 ^ 32)

/-- `atoi`. -/
def atoi (w : Nat) (s : CStr) : Int := toInt (strtol w (value 10) s)

/-! ## Section 3: What was written is read back -/

section round_trip
variable {b : Nat}

theorem digitOf_digitByte (hb : b ≤ 36) {d : Nat} (hd : d < b) :
    digitOf b (digitByte d) = some d := by
  have hvalue : ∀ d < 36, digitValue (digitByte d) = some d := by decide
  unfold digitOf
  rw [hvalue d (by omega)]
  simp [hd]

theorem valueFrom_digits (hb : b ≤ 36) (ds : List Nat) (hds : ∀ d ∈ ds, d < b) (acc : Nat)
    (rest : CStr) : valueFrom b acc (ds.map digitByte ++ rest) =
      valueFrom b (ds.foldl (fun a d => a * b + d) acc) rest := by
  induction ds generalizing acc with
  | nil => rfl
  | cons d ds ih =>
    rw [List.forall_mem_cons] at hds
    rw [List.map_cons, List.cons_append, valueFrom, digitOf_digitByte hb hds.1]
    exact ih hds.2 _

/-- **A number is read back**, up to what is not a digit. -/
theorem value_numeral (hb : 1 < b) (hb' : b ≤ 36) (n : Nat) (rest : CStr)
    (hrest : ∀ c ∈ rest.head?, digitOf b c = none) : value b (numeral b n ++ rest) = n := by
  have hstop : ∀ acc, valueFrom b acc rest = acc := by
    intro acc
    cases rest with
    | nil => rfl
    | cons c s =>
      rw [valueFrom, hrest c rfl]
  unfold value numeral
  split
  · next hzero =>
    have hdigit : digitOf b 48 = some 0 := digitOf_digitByte hb' (show 0 < b by omega)
    rw [List.singleton_append, valueFrom, hdigit]
    exact (hstop _).trans (by omega)
  · rw [← List.map_reverse, valueFrom_digits hb' _ ?_, hstop, List.foldl_reverse]
    · have hvalue := Nat.ofDigits_digits b n
      rw [Nat.ofDigits_eq_foldr] at hvalue
      simpa [Nat.add_comm, Nat.mul_comm] using hvalue
    · intro d hd
      exact Nat.digits_lt_base hb (List.mem_reverse.mp hd)

/-- A number that is not zero does not begin with a zero. -/
theorem numeral_head (hb : 1 < b) {n : Nat} (hn : n ≠ 0) :
    ∃ d s, numeral b n = digitByte d :: s ∧ d ≠ 0 ∧ d < b := by
  have hne : Nat.digits b n ≠ [] := Nat.digits_ne_nil_iff_ne_zero.mpr hn
  refine ⟨(Nat.digits b n).getLast hne, ((Nat.digits b n).dropLast.map digitByte).reverse, ?_,
    Nat.getLast_digit_ne_zero b hn, Nat.digits_lt_base hb (List.getLast_mem hne)⟩
  unfold numeral
  rw [if_neg hn]
  conv_lhs => rw [← List.dropLast_concat_getLast hne]
  simp

end round_trip

/-- Where a decimal number begins. -/
theorem numeral_start (n : Nat) :
    ∃ c s, numeral 10 n = c :: s ∧ isSpace c = false ∧ c ≠ 45 ∧ c ≠ 43 := by
  by_cases hn : n = 0
  · subst hn
    exact ⟨48, [], rfl, by decide, by decide, by decide⟩
  · obtain ⟨d, s, hs, _, hd⟩ := numeral_head (show 1 < 10 by omega) hn
    have hall : ∀ d < 10, isSpace (digitByte d) = false ∧ digitByte d ≠ 45 ∧ digitByte d ≠ 43 := by
      decide
    exact ⟨digitByte d, s, hs, hall d hd⟩

theorem signed_numeral (n : Nat) :
    signed ((numeral 10 n).dropWhile isSpace) = (false, numeral 10 n) := by
  obtain ⟨c, s, hs, hspace, hminus, hplus⟩ := numeral_start n
  rw [hs, List.dropWhile_cons_of_neg (by simp [hspace])]
  unfold signed
  split
  · next h =>
    cases h
    exact absurd rfl hminus
  · next h =>
    cases h
    exact absurd rfl hplus
  · rfl

theorem signed_decimal (i : Int) :
    signed ((decimal i).dropWhile isSpace) = (decide (i < 0), numeral 10 i.natAbs) := by
  unfold decimal
  split
  · next hneg =>
    have hspace : isSpace 45 = false := by decide
    rw [List.dropWhile_cons_of_neg (by simp [hspace])]
    simp [signed, hneg]
  · next hpos =>
    rw [signed_numeral]
    simp [hpos]

/-- **`%d` is read back** by `strtol`, whatever base is asked for, as long as it reads the
    digits of a decimal number. -/
theorem strtol_decimal {w : Nat} (hw : 32 ≤ w) {read : CStr → Nat}
    (hread : ∀ n, read (numeral 10 n) = n) {i : Int} (hlow : -2 ^ 31 ≤ i) (hhigh : i < 2 ^ 31) :
    toInt (strtol w read (decimal i)) = i := by
  have hpow : (2 : Int) ^ 31 ≤ 2 ^ (w - 1) := by
    exact_mod_cast Nat.pow_le_pow_right (by omega : 0 < 2) (by omega : 31 ≤ w - 1)
  have hvalue : strtol w read (decimal i) = i := by
    unfold strtol
    rw [signed_decimal]
    dsimp only
    rw [hread]
    split
    · next hneg =>
      have hi : i < 0 := of_decide_eq_true hneg
      omega
    · next hpos =>
      have hi : ¬ i < 0 := fun h => hpos (decide_eq_true h)
      omega
  rw [hvalue]
  exact Int.bmod_eq_of_le (by omega) (by omega)

theorem value_decimal (n : Nat) : value 10 (numeral 10 n) = n := by
  have hvalue := value_numeral (b := 10) (by omega) (by omega) n [] (by simp)
  rwa [List.append_nil] at hvalue

/-- A decimal number is not taken for one of another base. -/
theorem prefixed_decimal (n : Nat) : prefixed (numeral 10 n) = n := by
  by_cases hn : n = 0
  · subst hn
    rfl
  · have hvalue := value_decimal n
    obtain ⟨d, s, hs, hd, hlt⟩ := numeral_head (show 1 < 10 by omega) hn
    have hhead : digitByte d ≠ 48 := by
      have hall : ∀ d < 10, d ≠ 0 → digitByte d ≠ 48 := by decide
      exact hall d hlt hd
    rw [hs] at hvalue ⊢
    unfold prefixed
    split
    · next h => exact absurd (List.cons.inj h).1 hhead
    · next h => exact absurd (List.cons.inj h).1 hhead
    · exact hvalue

theorem atoi_decimal {w : Nat} (hw : 32 ≤ w) {i : Int} (hlow : -2 ^ 31 ≤ i) (hhigh : i < 2 ^ 31) :
    atoi w (decimal i) = i := strtol_decimal hw value_decimal hlow hhigh

theorem value_hex8 (n : Nat) : value 16 (hex8 n) = n := by
  have hvalue := value_numeral (b := 16) (by omega) (by omega) n [] (by simp)
  rw [List.append_nil] at hvalue
  have hzeros := valueFrom_digits (b := 16) (by omega)
    (List.replicate (8 - (numeral 16 n).length) 0)
    (fun d hd => by rw [List.eq_of_mem_replicate hd]; omega) 0 (numeral 16 n)
  have hfold : ∀ k : Nat, (List.replicate k 0).foldl (fun a d => a * 16 + d) 0 = 0 := by
    intro k
    induction k with
    | zero => rfl
    | succ k ih => exact ih
  rw [hfold, List.map_replicate] at hzeros
  exact hzeros.trans hvalue

theorem hex8_head (n : Nat) : ∃ c s, hex8 n = c :: s ∧ (digitOf 16 c).isSome = true := by
  have hdigit : ∀ c ∈ hex8 n, (digitOf 16 c).isSome = true := by
    intro c hc
    rcases List.mem_append.mp hc with hzero | hnumeral
    · rw [List.eq_of_mem_replicate hzero]
      decide
    · unfold numeral at hnumeral
      split at hnumeral
      · rw [List.mem_singleton.mp hnumeral]
        decide
      · obtain ⟨d, hd, rfl⟩ := List.mem_map.mp (List.mem_reverse.mp hnumeral)
        rw [digitOf_digitByte (by omega) (Nat.digits_lt_base (by omega) hd)]
        rfl
  have hne : hex8 n ≠ [] := by
    intro hnil
    have hnumeral : numeral 16 n = [] := (List.append_eq_nil_iff.mp hnil).2
    rw [hex8, hnumeral] at hnil
    simp at hnil
  obtain ⟨c, s, hs⟩ := List.exists_cons_of_ne_nil hne
  exact ⟨c, s, hs, hdigit c (hs ▸ List.mem_cons_self)⟩

/-- **`0x%08X` is read back** by `strtoul` with the base told by the prefix. -/
theorem strtoul_hex8 {w n : Nat} (hn : n < 2 ^ w) :
    strtoul w prefixed (cstr "0x" ++ hex8 n) = n := by
  have hread : prefixed (cstr "0x" ++ hex8 n) = n := by
    have hvalue := value_hex8 n
    obtain ⟨c, s, hs, hdigit⟩ := hex8_head n
    rw [hs] at hvalue ⊢
    show prefixed (48 :: 120 :: c :: s) = n
    rw [prefixed, if_pos ⟨Or.inl rfl, hdigit⟩]
    exact hvalue
  have hsigned : signed ((cstr "0x" ++ hex8 n).dropWhile isSpace)
      = (false, cstr "0x" ++ hex8 n) := rfl
  unfold strtoul
  rw [hsigned]
  dsimp only
  rw [hread, if_neg (by omega)]
  rfl

/-! ## Section 4: Numbers as words -/

/-- A number is written in digits. -/
theorem not_mem_numeral {b : Nat} (hb : 1 < b) (hb' : b ≤ 36) (n : Nat) {c : UInt8}
    (hc : ∀ d < 36, digitByte d ≠ c) : c ∉ numeral b n := by
  intro h
  unfold numeral at h
  split at h
  · exact hc 0 (by omega) (List.mem_singleton.mp h).symm
  · obtain ⟨d, hd, heq⟩ := List.mem_map.mp (List.mem_reverse.mp h)
    have hlt := Nat.digits_lt_base hb hd
    exact hc d (by omega) heq

theorem space_not_mem_numeral {b : Nat} (hb : 1 < b) (hb' : b ≤ 36) (n : Nat) :
    (32 : UInt8) ∉ numeral b n :=
  not_mem_numeral hb hb' n (by decide)

theorem space_not_mem_decimal (i : Int) : (32 : UInt8) ∉ decimal i := by
  have hnumeral := space_not_mem_numeral (b := 10) (by omega) (by omega) i.natAbs
  unfold decimal
  split
  · intro h
    rcases List.mem_cons.mp h with heq | hmem
    · exact absurd heq (by decide)
    · exact hnumeral hmem
  · exact hnumeral

theorem space_not_mem_hex8 (n : Nat) : (32 : UInt8) ∉ hex8 n := by
  intro h
  rcases List.mem_append.mp h with hzero | hmem
  · exact absurd (List.eq_of_mem_replicate hzero) (by decide)
  · exact space_not_mem_numeral (b := 16) (by omega) (by omega) n hmem

theorem decimal_ne_nil (i : Int) : decimal i ≠ [] := by
  obtain ⟨c, s, hs, _⟩ := numeral_start i.natAbs
  unfold decimal
  split
  · simp
  · simp [hs]

end CNumerals
