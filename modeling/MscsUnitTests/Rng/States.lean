import Mathlib.Tactic.Positivity
import MscsUnitTests.Lib.Words
import MscsUnitTests.Rng

/-! # The Harness Random Numbers: The States of a Campaign

    `IterState` packs a seed, a case and an iteration into one word, where they
    overlap, and finishes it with `SplitMix`. For a fixed case nothing is lost: the
    low half of the word tells the iteration, the rest then the seed, and each stage
    of the finaliser can be undone.
-/

open MachineWords

namespace FuzzRng

/-! ## Section 1: The finaliser -/

theorem splitMix_injective : Function.Injective splitMix := by
  have hstages : splitMix = (fun x : BitVec 64 => x ^^^ (x >>> 31)) ∘
      (fun x : BitVec 64 => x * 0x94D049BB133111EB) ∘ (fun x : BitVec 64 => x ^^^ (x >>> 27)) ∘
      (fun x : BitVec 64 => x * 0xBF58476D1CE4E5B9) ∘ (fun x : BitVec 64 => x ^^^ (x >>> 30)) ∘
      (fun x : BitVec 64 => x + 0x9E3779B97F4A7C15) := rfl
  have hmul₁ : (0xBF58476D1CE4E5B9 : BitVec 64) * 0x96DE1B173F119089 = 1 := by decide
  have hmul₂ : (0x94D049BB133111EB : BitVec 64) * 0x319642B2D24D8EC3 = 1 := by decide
  rw [hstages]
  exact (xorShift_injective (by decide)).comp <| (mul_injective hmul₂).comp <|
    (xorShift_injective (by decide)).comp <| (mul_injective hmul₁).comp <|
    (xorShift_injective (by decide)).comp (add_injective _)

/-! ## Section 2: What is packed -/

/-- The word that `IterState` hands to `SplitMix`. -/
def iterKey (nSeed : BitVec 32) (nCase nIter : Int) : BitVec 64 :=
  (nSeed.setWidth 64 <<< 32)
    ^^^ ((BitVec.ofInt 32 nCase).setWidth 64 * 0x100000001B3)
    ^^^ ((BitVec.ofInt 32 (nIter + 1)).setWidth 64 * 0x9E3779B1)

theorem iterState_eq (nSeed : BitVec 32) (nCase nIter : Int) :
    iterState nSeed nCase nIter = splitMix (iterKey nSeed nCase nIter) := rfl

/-- The iterations that are told apart: from the seed vector's -1 on, as long as the
    `int` that is one more does not overflow. -/
def Iteration (nIter : Int) : Prop :=
  -1 ≤ nIter ∧ nIter ≤ 2 ^ 31 - 2

instance (nIter : Int) : Decidable (Iteration nIter) :=
  inferInstanceAs (Decidable (_ ∧ _))

/-- An iteration is known by the word it is packed as. -/
theorem Iteration.eq_of_toNat {nIter nIter' : Int} (h : Iteration nIter) (h' : Iteration nIter')
    (heq : (BitVec.ofInt 32 (nIter + 1)).toNat = (BitVec.ofInt 32 (nIter' + 1)).toNat) :
    nIter = nIter' := by
  have hto : ∀ n : Int, Iteration n → ((BitVec.ofInt 32 (n + 1)).toNat : Int) = n + 1 := by
    intro n hn
    obtain ⟨hlow, hhigh⟩ := hn
    rw [BitVec.toNat_ofInt]
    omega
  have hint := congrArg (Nat.cast (R := Int)) heq
  rw [hto nIter h, hto nIter' h'] at hint
  omega

/-- The low half of what is packed tells the iteration, and the rest the seed. -/
theorem iterKey_injective {nSeed nSeed' : BitVec 32} {nCase nIter nIter' : Int}
    (h : Iteration nIter) (h' : Iteration nIter')
    (heq : iterKey nSeed nCase nIter = iterKey nSeed' nCase nIter') :
    nSeed = nSeed' ∧ nIter = nIter' := by
  have hodd : (0x9E3779B1 : BitVec 64) * 0xCFA4A56B0E8B2F51 = 1 := by decide
  have hlow : SameLow 32 (iterKey nSeed nCase nIter) (iterKey nSeed' nCase nIter') := by
    rw [heq]
    exact SameLow.refl _ _
  -- seed and case agree in the low half, the one because it has nothing there
  have hseeds : SameLow 32 (nSeed.setWidth 64 <<< 32) (nSeed'.setWidth 64 <<< 32) :=
    (sameLow_shiftLeft _ 32 (by decide)).trans (sameLow_shiftLeft _ 32 (by decide)).symm
  unfold iterKey at hlow
  rw [BitVec.xor_assoc, BitVec.xor_assoc] at hlow
  have hiters := ((hlow.xor_cancel hseeds).xor_cancel (SameLow.refl _ _)).mul_cancel
    (by decide) hodd
  have hword : (BitVec.ofInt 32 (nIter + 1)).toNat = (BitVec.ofInt 32 (nIter' + 1)).toNat := by
    unfold SameLow Nat.ModEq at hiters
    rw [BitVec.toNat_setWidth, BitVec.toNat_setWidth] at hiters
    have hlt := (BitVec.ofInt 32 (nIter + 1)).isLt
    have hlt' := (BitVec.ofInt 32 (nIter' + 1)).isLt
    omega
  have hiter := h.eq_of_toNat h' hword
  refine ⟨?_, hiter⟩
  unfold iterKey at heq
  rw [hiter, BitVec.xor_left_inj, BitVec.xor_left_inj] at heq
  have hto := congrArg BitVec.toNat heq
  rw [BitVec.toNat_shiftLeft, BitVec.toNat_shiftLeft, BitVec.toNat_setWidth,
    BitVec.toNat_setWidth, Nat.shiftLeft_eq, Nat.shiftLeft_eq] at hto
  have hlt := nSeed.isLt
  have hlt' := nSeed'.isLt
  apply BitVec.eq_of_toNat_eq
  omega

theorem iterState_injective {nSeed nSeed' : BitVec 32} {nCase nIter nIter' : Int}
    (h : Iteration nIter) (h' : Iteration nIter')
    (heq : iterState nSeed nCase nIter = iterState nSeed' nCase nIter') :
    nSeed = nSeed' ∧ nIter = nIter' := by
  rw [iterState_eq, iterState_eq] at heq
  exact iterKey_injective h h' (splitMix_injective heq)

/-! ## Section 3: A campaign -/

/-- The iteration number of a mutant: in round `nRound`, of `nIters` each. -/
def roundIter (nIters nRound i : Nat) : Int :=
  nRound * nIters + i

/-- The mutants whose number is still an iteration. -/
theorem roundIter_iteration {nIters nRound i : Nat} (h : nRound * nIters + i < 2 ^ 31 - 1) :
    Iteration (roundIter nIters nRound i) := by
  have hcast : roundIter nIters nRound i = ((nRound * nIters + i : Nat) : Int) := by
    unfold roundIter
    push_cast
    rfl
  unfold Iteration
  omega

/-- A number tells the round and the place in it. -/
theorem roundIter_inj {nIters nRound nRound' i i' : Nat} (hi : i < nIters) (hi' : i' < nIters)
    (heq : roundIter nIters nRound i = roundIter nIters nRound' i') :
    nRound = nRound' ∧ i = i' := by
  have hnat : nRound * nIters + i = nRound' * nIters + i' := by
    unfold roundIter at heq
    exact_mod_cast heq
  have hpos : 0 < nIters := by omega
  have hround : nRound = nRound' := by
    have hdiv := congrArg (· / nIters) hnat
    simpa [Nat.mul_comm _ nIters, Nat.mul_add_div hpos, Nat.div_eq_of_lt hi,
      Nat.div_eq_of_lt hi'] using hdiv
  subst hround
  exact ⟨rfl, by omega⟩

/-- What the states of one case or target are, over all seeds and rounds. -/
structure CampaignStates (nCase : Int) : Prop where
  injective : ∀ {nSeed nSeed' nIter nIter'}, Iteration nIter → Iteration nIter' →
    iterState nSeed nCase nIter = iterState nSeed' nCase nIter' → nSeed = nSeed' ∧ nIter = nIter'
  /-- The mutants of all rounds start from states of their own. -/
  rounds : ∀ nSeed {nIters nRound nRound' i i'}, i < nIters → i' < nIters →
    nRound * nIters + i < 2 ^ 31 - 1 → nRound' * nIters + i' < 2 ^ 31 - 1 →
    iterState nSeed nCase (roundIter nIters nRound i) =
      iterState nSeed nCase (roundIter nIters nRound' i') → nRound = nRound' ∧ i = i'
  /-- None of them from the state of the unmutated vector, which is iteration -1. -/
  seedVector : ∀ nSeed {nIters nRound i}, nRound * nIters + i < 2 ^ 31 - 1 →
    iterState nSeed nCase (roundIter nIters nRound i) ≠ iterState nSeed nCase (-1)
  /-- And none from a state that another seed comes to. -/
  otherSeeds : ∀ {nSeed nSeed'} {nIters nRound i nIter'}, nSeed ≠ nSeed' →
    nRound * nIters + i < 2 ^ 31 - 1 → Iteration nIter' →
    iterState nSeed nCase (roundIter nIters nRound i) ≠ iterState nSeed' nCase nIter'

/-- **A campaign never repeats a state**. -/
theorem campaign_never_repeats (nCase : Int) : CampaignStates nCase where
  injective := iterState_injective
  rounds := by
    intro nSeed nIters nRound nRound' i i' hi hi' h h' heq
    have hiter := (iterState_injective (roundIter_iteration h) (roundIter_iteration h') heq).2
    exact roundIter_inj hi hi' hiter
  seedVector := by
    intro nSeed nIters nRound i h heq
    have hvector : Iteration (-1) := by decide
    have hiter := (iterState_injective (roundIter_iteration h) hvector heq).2
    have hnonneg : 0 ≤ roundIter nIters nRound i := by
      unfold roundIter
      positivity
    omega
  otherSeeds := by
    intro nSeed nSeed' nIters nRound i nIter' hne h h' heq
    exact hne (iterState_injective (roundIter_iteration h) h' heq).1

end FuzzRng
