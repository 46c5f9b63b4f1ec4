import Mathlib.Data.Nat.Factorization.Basic
import MscsUnitTests.Lib.Words
import MscsUnitTests.Corpus
import MscsUnitTests.Frame.Wire
import MscsUnitTests.Block.Blocks

/-! # The Corpus: Content Names

    `FuzzContentHash` names a saved input. It is no checksum, and different inputs may
    share a name. What the mutators do most often cannot make them: change one byte, or
    cut off a tail of zeros.
-/

open CFiles ByteMem FuzzRng MachineWords

namespace FuzzCorpus

/-! ## Section 1: The hash, a byte at a time -/

/-- One pass of the loop of `FuzzContentHash`. -/
def hashStep (h : BitVec 64) (b : UInt8) : BitVec 64 :=
  (h ^^^ b.toBitVec.setWidth 64) * 0x100000001B3

/-- The loop, from any state on. -/
def hashFrom (h : BitVec 64) (p : List UInt8) : BitVec 64 :=
  p.foldl hashStep h

theorem fuzzContentHash_eq (p : List UInt8) :
    fuzzContentHash p = hashFrom 0xCBF29CE484222325 p
      ^^^ BitVec.ofNat 64 p.length * 0x9E3779B97F4A7C15 := rfl

theorem hashFrom_append (h : BitVec 64) (p q : List UInt8) :
    hashFrom h (p ++ q) = hashFrom (hashFrom h p) q :=
  List.foldl_append

/-- The prime of the hash has an inverse, and so has the constant of the length. -/
theorem prime_inverse : (0x100000001B3 : BitVec 64) * 0xCE965057AFF6957B = 1 := by decide

theorem golden_inverse : (0x9E3779B97F4A7C15 : BitVec 64) * 0xF1DE83E19937733D = 1 := by decide

theorem hashStep_injective (b : UInt8) : Function.Injective fun h => hashStep h b :=
  (mul_injective prime_inverse).comp (xor_injective _)

/-- What differs before some bytes differs behind them. -/
theorem hashFrom_injective (p : List UInt8) : Function.Injective fun h => hashFrom h p := by
  induction p with
  | nil => exact fun _ _ heq => heq
  | cons b p ih => exact ih.comp (hashStep_injective b)

/-- From one state, different bytes lead to different states. -/
theorem hashStep_byte_injective (h : BitVec 64) : Function.Injective (hashStep h) := by
  intro x y heq
  have hxor := mul_injective prime_inverse heq
  have hwide := (BitVec.xor_right_inj h).mp hxor
  have hto := congrArg BitVec.toNat hwide
  rw [BitVec.toNat_setWidth, BitVec.toNat_setWidth] at hto
  have hx := x.toBitVec.isLt
  have hy := y.toBitVec.isLt
  apply UInt8.toBitVec_inj.mp
  apply BitVec.eq_of_toNat_eq
  omega

/-! ## Section 2: A tail of zeros -/

/-- A zero byte only multiplies. -/
theorem hashFrom_zeros (h : BitVec 64) (k : Nat) :
    (hashFrom h (List.replicate k 0)).toNat ≡ h.toNat * 0x100000001B3 ^ k [MOD 2 ^ 64] := by
  induction k generalizing h with
  | zero => simpa [hashFrom] using Nat.ModEq.refl h.toNat
  | succ k ih =>
    have hstep : (hashStep h 0).toNat ≡ h.toNat * 0x100000001B3 [MOD 2 ^ 64] := by
      have hzero : hashStep h 0 = h * 0x100000001B3 := by
        unfold hashStep
        simp
      rw [hzero, BitVec.toNat_mul]
      exact Nat.mod_modEq _ _
    rw [List.replicate_succ]
    show (hashFrom (hashStep h 0) (List.replicate k 0)).toNat ≡ _ [MOD 2 ^ 64]
    calc (hashFrom (hashStep h 0) (List.replicate k 0)).toNat
        ≡ (hashStep h 0).toNat * 0x100000001B3 ^ k [MOD 2 ^ 64] := ih _
      _ ≡ h.toNat * 0x100000001B3 * 0x100000001B3 ^ k [MOD 2 ^ 64] := hstep.mul_right _
      _ = h.toNat * 0x100000001B3 ^ (k + 1) := by ring

/-- **A tail of zeros is seen**: cut off or put on, it changes the content name. The
    states agree in one bit more than the number of zeros is divisible by; the lengths
    that are folded in do not. -/
theorem zero_tail_changes_name (p : List UInt8) (k : Nat) (hk : 1 ≤ k)
    (hlen : p.length + k < 2 ^ 32) :
    fuzzContentHash p ≠ fuzzContentHash (p ++ List.replicate k 0) := by
  intro heq
  obtain ⟨v, m, hodd, hkv⟩ := Nat.exists_eq_two_pow_mul_odd (n := k) (by omega)
  have hv : v + 1 ≤ 64 := by
    have hpow : 2 ^ v ≤ k := by
      rw [hkv]
      exact Nat.le_mul_of_pos_right _ hodd.pos
    have hlt : v < 32 := (Nat.pow_lt_pow_iff_right (by decide)).mp (by omega : 2 ^ v < 2 ^ 32)
    omega
  let h := hashFrom 0xCBF29CE484222325 p
  have hstates : SameLow (v + 1) h (hashFrom h (List.replicate k 0)) := by
    have hprime : 0x100000001B3 ^ k ≡ 1 [MOD 2 ^ (v + 1)] := by
      rw [hkv]
      exact odd_pow_modEq_one (by decide) v m
    have hzeros : (hashFrom h (List.replicate k 0)).toNat ≡ h.toNat * 0x100000001B3 ^ k
        [MOD 2 ^ (v + 1)] := (hashFrom_zeros h k).of_dvd (Nat.pow_dvd_pow 2 hv)
    have hone := hzeros.trans (hprime.mul_left h.toNat)
    rw [Nat.mul_one] at hone
    exact hone.symm
  rw [fuzzContentHash_eq, fuzzContentHash_eq, hashFrom_append] at heq
  have hhash : SameLow (v + 1) (h ^^^ BitVec.ofNat 64 p.length * 0x9E3779B97F4A7C15)
      (hashFrom h (List.replicate k 0)
        ^^^ BitVec.ofNat 64 (p ++ List.replicate k 0).length * 0x9E3779B97F4A7C15) := by
    rw [heq]
    exact SameLow.refl _ _
  have hlens := (hhash.xor_cancel hstates).mul_cancel hv golden_inverse
  rw [List.length_append, List.length_replicate] at hlens
  have hmod : p.length + 0 ≡ p.length + k [MOD 2 ^ (v + 1)] :=
    calc p.length ≡ (BitVec.ofNat 64 p.length).toNat [MOD 2 ^ (v + 1)] :=
        (sameLow_ofNat hv _).symm
      _ ≡ (BitVec.ofNat 64 (p.length + k)).toNat [MOD 2 ^ (v + 1)] := hlens
      _ ≡ p.length + k [MOD 2 ^ (v + 1)] := sameLow_ofNat hv _
  have hdvd : 2 ^ (v + 1) ∣ k :=
    (Nat.modEq_zero_iff_dvd).mp (Nat.ModEq.add_left_cancel' _ hmod).symm
  -- but `k` is `2 ^ v` times an odd number
  rw [hkv, Nat.pow_succ] at hdvd
  have hm := Nat.dvd_of_mul_dvd_mul_left (Nat.two_pow_pos v) hdvd
  exact (Nat.not_even_iff_odd.mpr hodd) (even_iff_two_dvd.mpr hm)

theorem zero_tail_changes_name_twelve :
    fuzzContentHash [1, 2, 0] ≠ fuzzContentHash ([1, 2, 0] ++ List.replicate 12 0) :=
  zero_tail_changes_name [1, 2, 0] 12 (by decide) (by decide)

/-! ## Section 3: One byte -/

/-- Inputs of one length that differ in exactly one position. -/
structure OneByteApart (p q : List UInt8) : Prop where
  length : p.length = q.length
  one : ∃! i : Nat, p[i]? ≠ q[i]?

/-- Around the position, the two are the same. -/
theorem OneByteApart.split {p q : List UInt8} (h : OneByteApart p q) :
    ∃ pre x y post, x ≠ y ∧ p = pre ++ x :: post ∧ q = pre ++ y :: post := by
  obtain ⟨i, hi, hothers⟩ := h.one
  have hsame : ∀ j, j ≠ i → p[j]? = q[j]? := by
    intro j hj
    by_contra hdiff
    exact hj (hothers j hdiff)
  have hlen := h.length
  have hip : i < p.length := by
    by_contra hout
    apply hi
    rw [List.getElem?_eq_none (by omega), List.getElem?_eq_none (by omega)]
  have hiq : i < q.length := by omega
  refine ⟨p.take i, p[i], q[i], p.drop (i + 1), ?_, ?_, ?_⟩
  · intro heq
    apply hi
    rw [List.getElem?_eq_getElem hip, List.getElem?_eq_getElem hiq, heq]
  · rw [← List.drop_eq_getElem_cons, List.take_append_drop]
  · have hpre : p.take i = q.take i := by
      apply List.ext_getElem?
      intro j
      rw [List.getElem?_take, List.getElem?_take]
      split
      · exact hsame j (by omega)
      · rfl
    have hpost : p.drop (i + 1) = q.drop (i + 1) := by
      apply List.ext_getElem?
      intro j
      rw [List.getElem?_drop, List.getElem?_drop]
      exact hsame _ (by omega)
    rw [hpre, hpost, ← List.drop_eq_getElem_cons, List.take_append_drop]

theorem OneByteApart.hash_ne {p q : List UInt8} (h : OneByteApart p q) :
    fuzzContentHash p ≠ fuzzContentHash q := by
  obtain ⟨pre, x, y, post, hne, hp, hq⟩ := h.split
  intro heq
  rw [fuzzContentHash_eq, fuzzContentHash_eq, h.length, BitVec.xor_left_inj, hp, hq,
    hashFrom_append, hashFrom_append] at heq
  exact hne (hashStep_byte_injective _ (hashFrom_injective post heq))

/-- A file name ends in the content hash and a suffix of fixed length, so it tells the
    hash, whatever the tag. -/
theorem fuzzContentHash_of_reproName {tag tag' : CStr} {p q : List UInt8}
    (h : reproName tag p = reproName tag' q) : fuzzContentHash p = fuzzContentHash q := by
  have hbound : ∀ v : BitVec 64, v.toNat < 16 ^ 16 := by
    intro v
    have hlt := v.isLt
    omega
  unfold reproName at h
  have hdigits := (List.append_inj' (List.append_cancel_right h)
    ((hexPadded_length _ _).trans (hexPadded_length _ _).symm)).2
  exact BitVec.eq_of_toNat_eq (hexPadded_inj (hbound _) (hbound _) hdigits)

/-- The two inputs never share a reproducer: their hashes differ, and so do the names
    and, as long as none is cut to its buffer, the paths that the writer opens. -/
structure NamesApart (p q : List UInt8) : Prop where
  hash : fuzzContentHash p ≠ fuzzContentHash q
  name : ∀ tag tag', reproName tag p ≠ reproName tag' q
  path : ∀ pszDir tag tag', (joinPath pszDir (reproName tag p)).length < 1024 →
    (joinPath pszDir (reproName tag' q)).length < 1024 →
    reproPath pszDir tag p ≠ reproPath pszDir tag' q

theorem OneByteApart.names {p q : List UInt8} (h : OneByteApart p q) : NamesApart p q where
  hash := h.hash_ne
  name := by
    intro tag tag' heq
    exact h.hash_ne (fuzzContentHash_of_reproName heq)
  path := by
    intro pszDir tag tag' hp hq heq
    unfold reproPath at heq
    rw [fit_of_lt hp, fit_of_lt hq] at heq
    have hname := (List.cons.inj (List.append_cancel_left heq)).2
    exact h.hash_ne (fuzzContentHash_of_reproName hname)

/-! ## Section 4: The mutators -/

/-- Another value in one byte of a buffer. -/
theorem oneByteApart_update (b : Mem) {n off : Nat} (hoff : off < n) {v : UInt8} (hv : v ≠ b off) :
    OneByteApart (firstBytes b n) (firstBytes (Function.update b off v) n) where
  length := by simp
  one := by
    refine ⟨off, ?_, ?_⟩
    · dsimp only
      rw [getElem?_firstBytes, getElem?_firstBytes, if_pos hoff, if_pos hoff, Function.update_self]
      intro heq
      exact hv (Option.some.inj heq).symm
    · intro j hj
      by_contra hne
      apply hj
      rw [getElem?_firstBytes, getElem?_firstBytes, Function.update_of_ne hne]

/-- Flipping a bit changes the byte. -/
theorem flip_ne (x : UInt8) {bit : Nat} (hbit : bit < 8) : x ^^^ UInt8.ofNat (1 <<< bit) ≠ x := by
  have hmask : ∀ bit < 8, UInt8.ofNat (1 <<< bit) ≠ 0 := by decide
  intro heq
  apply hmask bit hbit
  have hxor : x ^^^ UInt8.ofNat (1 <<< bit) = x ^^^ 0 := by rw [heq, UInt8.xor_zero]
  exact (UInt8.xor_right_inj x).mp hxor

/-- A byte of a buffer is flipped, or replaced by an interesting one. -/
theorem oneByte_cases (b : Mem) {n off : Nat} (hoff : off < n) (v : UInt8) :
    firstBytes (Function.update b off v) n = firstBytes b n ∨
      OneByteApart (firstBytes b n) (firstBytes (Function.update b off v) n) := by
  by_cases hv : v = b off
  · left
    rw [hv, Function.update_eq_self]
  · exact Or.inr (oneByteApart_update b hoff hv)

theorem frame_flip_apart (w : FuzzFrame.Wire) {off : Nat} (hoff : off < w.n) (oRng : Rng) :
    OneByteApart w.bytes (FuzzFrame.applyOp w off oRng 0).1.bytes :=
  oneByteApart_update w.b hoff (flip_ne _ (oRng.below_lt (by decide)))

theorem frame_interesting_apart (w : FuzzFrame.Wire) {off : Nat} (hoff : off < w.n) (oRng : Rng) :
    (FuzzFrame.applyOp w off oRng 1).1.bytes = w.bytes ∨
      OneByteApart w.bytes (FuzzFrame.applyOp w off oRng 1).1.bytes :=
  oneByte_cases w.b hoff _

theorem block_flip_apart (w : FuzzBlock.Block) {off : Nat} (hoff : off < w.n) (oRng : Rng) :
    OneByteApart w.bytes (FuzzBlock.applyOp w off oRng 0).1.bytes :=
  oneByteApart_update w.b hoff (flip_ne _ (oRng.below_lt (by decide)))

theorem block_interesting_apart (w : FuzzBlock.Block) {off : Nat} (hoff : off < w.n) (oRng : Rng) :
    (FuzzBlock.applyOp w off oRng 1).1.bytes = w.bytes ∨
      OneByteApart w.bytes (FuzzBlock.applyOp w off oRng 1).1.bytes :=
  oneByte_cases w.b hoff _

/-- A mutant by one operation of either mutator and its original: a bit flip, and an
    interesting byte unless it was there already. -/
structure MutantsApart : Prop where
  frame_flip : ∀ (w : FuzzFrame.Wire) off oRng, off < w.n →
    NamesApart w.bytes (FuzzFrame.applyOp w off oRng 0).1.bytes
  frame_interesting : ∀ (w : FuzzFrame.Wire) off oRng, off < w.n →
    (FuzzFrame.applyOp w off oRng 1).1.bytes = w.bytes ∨
      NamesApart w.bytes (FuzzFrame.applyOp w off oRng 1).1.bytes
  block_flip : ∀ (w : FuzzBlock.Block) off oRng, off < w.n →
    NamesApart w.bytes (FuzzBlock.applyOp w off oRng 0).1.bytes
  block_interesting : ∀ (w : FuzzBlock.Block) off oRng, off < w.n →
    (FuzzBlock.applyOp w off oRng 1).1.bytes = w.bytes ∨
      NamesApart w.bytes (FuzzBlock.applyOp w off oRng 1).1.bytes

/-- **One byte is seen**: inputs that differ in one byte have different content names,
    and so have a one-byte mutant and its original. -/
theorem one_byte_changes_name :
    (∀ p q, OneByteApart p q → NamesApart p q) ∧ MutantsApart := by
  refine ⟨fun p q h => h.names, ?_, ?_, ?_, ?_⟩
  · intro w off oRng hoff
    exact (frame_flip_apart w hoff oRng).names
  · intro w off oRng hoff
    exact (frame_interesting_apart w hoff oRng).imp id OneByteApart.names
  · intro w off oRng hoff
    exact (block_flip_apart w hoff oRng).names
  · intro w off oRng hoff
    exact (block_interesting_apart w hoff oRng).imp id OneByteApart.names

end FuzzCorpus
