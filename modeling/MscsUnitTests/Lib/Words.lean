import Mathlib.Data.BitVec
import Mathlib.Data.Fintype.EquivFin
import Mathlib.Data.Nat.ModEq
import Mathlib.Data.Nat.Bitwise
import Mathlib.Tactic.Ring

/-! # Words Modulo a Power of Two

    Hashes and generators are put together from a few maps of a machine word: exclusive
    or with something, with a shifted copy of itself, and multiplication by an odd
    constant.

    * `xorShift_injective`, `mul_injective` and the like: these maps lose nothing, and
      so they reach every word.
    * `SameLow k`: two words that agree in their low `k` bits. Multiplication and
      exclusive or respect it, and an odd word raised to a power of two comes close
      to 1.
-/

namespace MachineWords

variable {w k : Nat} {x x' y y' a b : BitVec w}

/-! ## Maps that lose nothing -/

theorem xor_injective (a : BitVec w) : Function.Injective fun x => x ^^^ a := by
  intro x y h
  exact (BitVec.xor_left_inj a).mp h

theorem add_injective (a : BitVec w) : Function.Injective fun x => x + a := by
  intro x y h
  exact (BitVec.add_left_inj a).mp h

/-- Multiplication by a word that has an inverse. -/
theorem mul_injective (h : a * b = 1) : Function.Injective fun x : BitVec w => x * a := by
  intro x y hxy
  have hcancel : ∀ z : BitVec w, z * a * b = z := by
    intro z
    rw [BitVec.mul_assoc, h]
    exact BitVec.mul_one z
  rw [← hcancel x, ← hcancel y]
  exact congrArg (· * b) hxy

/-- Exclusive or with the word itself, shifted down. -/
theorem xorShift_injective (hk : 0 < k) :
    Function.Injective fun x : BitVec w => x ^^^ (x >>> k) := by
  intro x y h
  -- from the top bit down: the shifted bit is known by the time it is needed
  have hbits : ∀ m i, w ≤ i + m → x.getLsbD i = y.getLsbD i := by
    intro m
    induction m with
    | zero =>
      intro i hi
      rw [BitVec.getLsbD_of_ge x i (by omega), BitVec.getLsbD_of_ge y i (by omega)]
    | succ m ih =>
      intro i hi
      have hhigh := ih (k + i) (by omega)
      have hbit := congrArg (fun z => BitVec.getLsbD z i) h
      simp only [BitVec.getLsbD_xor, BitVec.getLsbD_ushiftRight, hhigh] at hbit
      exact Bool.xor_left_inj.mp hbit
  apply BitVec.eq_of_getLsbD_eq
  intro i _
  exact hbits w i (by omega)

/-- Exclusive or with the word itself, shifted up. -/
theorem xorShiftLeft_injective (hk : 0 < k) :
    Function.Injective fun x : BitVec w => x ^^^ (x <<< k) := by
  intro x y h
  -- from the bottom bit up: the shifted bit is known by the time it is needed
  have hbits : ∀ i, x.getLsbD i = y.getLsbD i := by
    intro i
    induction i using Nat.strong_induction_on with
    | _ i ih =>
      have hshifted : (x <<< k).getLsbD i = (y <<< k).getLsbD i := by
        rw [BitVec.getLsbD_shiftLeft, BitVec.getLsbD_shiftLeft]
        by_cases hi : i < k
        · simp [hi]
        · rw [ih (i - k) (by omega)]
      have hbit := congrArg (fun z => BitVec.getLsbD z i) h
      simp only [BitVec.getLsbD_xor, hshifted] at hbit
      exact Bool.xor_left_inj.mp hbit
  apply BitVec.eq_of_getLsbD_eq
  intro i _
  exact hbits i

/-- A map that loses nothing reaches every word. -/
theorem bijective_of_injective {f : BitVec w → BitVec w} (h : Function.Injective f) :
    Function.Bijective f := by
  have hfinite : Finite (BitVec w) :=
    Finite.of_injective BitVec.toFin fun _ _ heq => BitVec.toFin_inj.mp heq
  exact Finite.injective_iff_bijective.mp h

/-! ## Low bits -/

/-- The words agree in their low `k` bits. -/
def SameLow (k : Nat) (x y : BitVec w) : Prop :=
  x.toNat ≡ y.toNat [MOD 2 ^ k]

theorem SameLow.refl (k : Nat) (x : BitVec w) : SameLow k x x := Nat.ModEq.refl _

theorem SameLow.symm (h : SameLow k x y) : SameLow k y x := Nat.ModEq.symm h

theorem SameLow.trans (h : SameLow k x y) (h' : SameLow k y a) : SameLow k x a :=
  Nat.ModEq.trans h h'

/-- The low bits of what is reduced to a word. -/
theorem mod_word_modEq (hk : k ≤ w) (n : Nat) : n % 2 ^ w ≡ n [MOD 2 ^ k] :=
  Nat.mod_mod_of_dvd n (Nat.pow_dvd_pow 2 hk)

theorem SameLow.mul (hk : k ≤ w) (h : SameLow k x y) (h' : SameLow k x' y') :
    SameLow k (x * x') (y * y') := by
  unfold SameLow
  rw [BitVec.toNat_mul, BitVec.toNat_mul]
  calc x.toNat * x'.toNat % 2 ^ w ≡ x.toNat * x'.toNat [MOD 2 ^ k] := mod_word_modEq hk _
    _ ≡ y.toNat * y'.toNat [MOD 2 ^ k] := Nat.ModEq.mul h h'
    _ ≡ y.toNat * y'.toNat % 2 ^ w [MOD 2 ^ k] := (mod_word_modEq hk _).symm

/-- What agrees on one side of an exclusive or can be taken off. -/
theorem SameLow.xor_cancel (h : SameLow k (x ^^^ a) (y ^^^ b)) (hxy : SameLow k x y) :
    SameLow k a b := by
  unfold SameLow Nat.ModEq at *
  rw [BitVec.toNat_xor, BitVec.toNat_xor, Nat.xor_mod_two_pow, Nat.xor_mod_two_pow, hxy] at h
  exact Nat.xor_right_inj.mp h

/-- A factor that has an inverse can be taken off. -/
theorem SameLow.mul_cancel (hk : k ≤ w) (hab : a * b = 1) (h : SameLow k (x * a) (y * a)) :
    SameLow k x y := by
  have hmul := h.mul hk (SameLow.refl k b)
  rw [BitVec.mul_assoc, BitVec.mul_assoc, hab] at hmul
  simpa using hmul

theorem sameLow_ofNat (hk : k ≤ w) (n : Nat) :
    (BitVec.ofNat w n).toNat ≡ n [MOD 2 ^ k] := by
  rw [BitVec.toNat_ofNat]
  exact mod_word_modEq hk n

theorem sameLow_shiftLeft (x : BitVec w) (k : Nat) (hk : k ≤ w) : SameLow k (x <<< k) 0 := by
  unfold SameLow
  rw [BitVec.toNat_shiftLeft, Nat.shiftLeft_eq]
  refine (mod_word_modEq hk _).trans ?_
  have hzero : (0 : BitVec w).toNat = 0 := by simp
  rw [hzero]
  exact (Nat.modEq_zero_iff_dvd).mpr (Nat.dvd_mul_left _ _)

/-- An odd number, squared often enough, leaves 1. -/
theorem odd_pow_modEq_one {p : Nat} (hp : p % 2 = 1) (v m : Nat) :
    p ^ (2 ^ v * m) ≡ 1 [MOD 2 ^ (v + 1)] := by
  have hsquares : ∀ v, p ^ 2 ^ v ≡ 1 [MOD 2 ^ (v + 1)] := by
    intro v
    induction v with
    | zero => simpa [Nat.ModEq] using hp
    | succ v ih =>
      -- a square of `1 + 2 ^ (v + 1) * c` is 1 and a multiple of twice that
      have hge : 1 ≤ p ^ 2 ^ v := Nat.one_le_pow _ _ (by omega)
      obtain ⟨c, hc⟩ := (Nat.modEq_iff_dvd' hge).mp ih.symm
      have hform : p ^ 2 ^ v = 2 ^ (v + 1) * c + 1 := by omega
      have hsquare : p ^ 2 ^ (v + 1) = 2 ^ (v + 2) * (2 ^ v * c * c + c) + 1 := by
        rw [Nat.pow_succ 2 v, Nat.pow_mul, hform]
        ring
      rw [hsquare]
      exact (Nat.modEq_iff_dvd' (by omega)).mpr ⟨_, rfl⟩ |>.symm
  rw [Nat.pow_mul]
  have hpow := (hsquares v).pow m
  rwa [Nat.one_pow] at hpow

end MachineWords
