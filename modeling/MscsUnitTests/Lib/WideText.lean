import Mathlib.Algebra.GroupWithZero.Nat
import Mathlib.Data.Nat.Basic

/-! # Text in Units of Several Bytes

    A character of a wide text is a unit of `k` bytes, and the text ends at a unit that is
    zero. Such a text is copied as bytes, and bytes that need not be a text are read as one.

    * `units_bytes`: bytes made of units are read as these units, whatever follows.
    * `textOf_eq_some_iff`: a loop to the terminator stays inside exactly when there is one.
-/

namespace WideText

/-! ## Section 1: Units and bytes -/

section units
variable {k : Nat}

/-- A unit of `k` bytes. -/
abbrev WideUnit (k : Nat) : Type := BitVec (8 * k)

/-- The bytes of a unit, the low one first. -/
def unitBytes (u : WideUnit k) : List UInt8 :=
  (List.range k).map fun i => UInt8.ofNat (u.toNat / 256 ^ i)

def bytesOf (l : List (WideUnit k)) : List UInt8 := l.flatMap unitBytes

/-- The number that some bytes make, the low one first. -/
def valueOf : List UInt8 → Nat
  | [] => 0
  | b :: l => b.toNat + 256 * valueOf l

/-- The unit that some bytes begin with. -/
def firstUnit (k : Nat) (data : List UInt8) : WideUnit k :=
  BitVec.ofNat (8 * k) (valueOf (data.take k))

/-- The first `n` units of some bytes. -/
def units (k : Nat) : Nat → List UInt8 → List (WideUnit k)
  | 0, _ => []
  | n + 1, data => firstUnit k data :: units k n (data.drop k)

@[simp] theorem length_unitBytes (u : WideUnit k) : (unitBytes u).length = k := by
  simp [unitBytes]

theorem length_bytesOf (l : List (WideUnit k)) : (bytesOf l).length = l.length * k := by
  induction l with
  | nil => simp [bytesOf]
  | cons u l ih =>
    rw [bytesOf, List.flatMap_cons, List.length_append, length_unitBytes, ← bytesOf, ih,
      List.length_cons, Nat.succ_mul, Nat.add_comm]

@[simp] theorem length_units (n : Nat) (data : List UInt8) : (units k n data).length = n := by
  induction n generalizing data with
  | zero => rfl
  | succ n ih => rw [units, List.length_cons, ih]

theorem valueOf_digits (n m : Nat) :
    valueOf ((List.range m).map fun i => UInt8.ofNat (n / 256 ^ i)) = n % 256 ^ m := by
  induction m generalizing n with
  | zero => simp [valueOf, Nat.mod_one]
  | succ m ih =>
    have hshift : ∀ i, n / 256 ^ (i + 1) = n / 256 / 256 ^ i := by
      intro i
      rw [Nat.pow_succ', Nat.div_div_eq_div_mul]
    rw [List.range_succ_eq_map, List.map_cons, List.map_map]
    have htail := ih (n / 256)
    simp only [Function.comp_def, Nat.succ_eq_add_one, hshift, valueOf, htail]
    rw [Nat.pow_succ', Nat.mod_mul]
    simp

theorem firstUnit_append (u : WideUnit k) (rest : List UInt8) :
    firstUnit k (unitBytes u ++ rest) = u := by
  unfold firstUnit
  rw [List.take_left' (length_unitBytes u), unitBytes, valueOf_digits]
  apply BitVec.eq_of_toNat_eq
  have hlt : u.toNat < 256 ^ k := by
    have h := u.isLt
    rwa [Nat.pow_mul] at h
  rw [BitVec.toNat_ofNat, Nat.mod_eq_of_lt hlt, Nat.mod_eq_of_lt u.isLt]

/-- **Bytes made of units** are read as these units, whatever follows. -/
theorem units_bytes (l : List (WideUnit k)) (n : Nat) (rest : List UInt8) :
    units k (l.length + n) (bytesOf l ++ rest) = l ++ units k n rest := by
  induction l with
  | nil => rw [List.length_nil, Nat.zero_add, bytesOf, List.flatMap_nil, List.nil_append,
      List.nil_append]
  | cons u l ih =>
    rw [List.length_cons, Nat.add_right_comm, bytesOf, List.flatMap_cons, List.append_assoc, units,
      firstUnit_append, List.drop_left' (length_unitBytes u), ← bytesOf, ih, List.cons_append]

end units

/-! ## Section 2: The terminator -/

section text
variable {k : Nat}

/-- What a loop to the terminator reads; nothing when it leaves the buffer. -/
def textOf : List (WideUnit k) → Option (List (WideUnit k))
  | [] => none
  | u :: l => if u = 0 then some [] else (textOf l).map (u :: ·)

theorem textOf_append {l : List (WideUnit k)} (h : ∀ u ∈ l, u ≠ 0) (rest : List (WideUnit k)) :
    textOf (l ++ 0 :: rest) = some l := by
  induction l with
  | nil => rw [List.nil_append, textOf, if_pos rfl]
  | cons u l ih =>
    rw [List.forall_mem_cons] at h
    rw [List.cons_append, textOf, if_neg h.1, ih h.2, Option.map_some]

/-- **The loop stays inside** exactly when there is a terminator. -/
theorem textOf_eq_some_iff {mem l : List (WideUnit k)} :
    textOf mem = some l ↔ (∀ u ∈ l, u ≠ 0) ∧ ∃ rest, mem = l ++ 0 :: rest := by
  constructor
  · intro h
    induction mem generalizing l with
    | nil => cases h
    | cons u mem ih =>
      rw [textOf] at h
      by_cases hu : u = 0
      · rw [if_pos hu] at h
        cases h
        exact ⟨by simp, mem, by rw [hu, List.nil_append]⟩
      · rw [if_neg hu] at h
        obtain ⟨l', hl', rfl⟩ := Option.map_eq_some_iff.mp h
        obtain ⟨hne, rest, rfl⟩ := ih hl'
        rw [List.forall_mem_cons]
        exact ⟨⟨hu, hne⟩, rest, rfl⟩
  · rintro ⟨hne, rest, rfl⟩
    exact textOf_append hne rest

/-- With a terminator of its own behind it, what is read of a text is what stands before its
    first zero. -/
theorem textOf_terminated (l : List (WideUnit k)) (rest : List (WideUnit k)) :
    textOf (l ++ 0 :: rest) = some (l.takeWhile (· ≠ 0)) := by
  induction l with
  | nil => rw [List.nil_append, textOf, if_pos rfl, List.takeWhile_nil]
  | cons u l ih =>
    rw [List.cons_append, textOf, List.takeWhile_cons]
    by_cases hu : u = 0
    · rw [if_pos hu, if_neg (by simp [hu])]
    · rw [if_neg hu, ih, if_pos (by simpa using hu), Option.map_some]

/-- Up to the first zero, what stands behind the terminator is not read. -/
theorem takeWhile_text {l : List (WideUnit k)} (h : ∀ u ∈ l, u ≠ 0) (rest : List (WideUnit k)) :
    (l ++ 0 :: rest).takeWhile (· ≠ 0) = l := by
  have hall : ∀ u ∈ l, decide (u ≠ 0) = true := by simpa using h
  rw [List.takeWhile_append_of_pos hall]
  simp

end text

end WideText
