import Mathlib.Data.BitVec

/-! # The Harness Random Numbers

    `Rng`, `SplitMix` and `IterState` of `p2p_fuzzframe.cpp` and
    `p2p_fuzzblock.cpp`. The two files carry the same text, so there is one
    model of it. A draw is written with the generator passed through: the value
    first, the generator after the draw second.
-/

namespace FuzzRng

/-- xorshift64*: the whole state is one 64-bit word. -/
structure Rng where
  s : BitVec 64
  deriving DecidableEq

/-- `Seed`: zero is replaced, the generator would stay there for ever. -/
def Rng.seed (x : BitVec 64) : Rng :=
  ⟨if x ≠ 0 then x else 0x9E3779B97F4A7C15⟩

/-- The three shift-xor steps of `Next`. -/
def Rng.step (s : BitVec 64) : BitVec 64 :=
  let s₁ := s ^^^ (s >>> 12)
  let s₂ := s₁ ^^^ (s₁ <<< 25)
  s₂ ^^^ (s₂ >>> 27)

/-- `Next`: step, then multiply out. -/
def Rng.next (r : Rng) : BitVec 64 × Rng :=
  (Rng.step r.s * 2685821657736338717, ⟨Rng.step r.s⟩)

/-- `U32`: the high half of a draw. -/
def Rng.u32 (r : Rng) : Nat × Rng :=
  ((r.next.1 >>> 32).toNat, r.next.2)

/-- `Below`: nothing is drawn for an empty range. -/
def Rng.below (r : Rng) (n : Nat) : Nat × Rng :=
  if n ≠ 0 then (r.u32.1 % n, r.u32.2) else (0, r)

/-- `SplitMix`: the splitmix64 finaliser. -/
def splitMix (x : BitVec 64) : BitVec 64 :=
  let x₀ := x + 0x9E3779B97F4A7C15
  let x₁ := (x₀ ^^^ (x₀ >>> 30)) * 0xBF58476D1CE4E5B9
  let x₂ := (x₁ ^^^ (x₁ >>> 27)) * 0x94D049BB133111EB
  x₂ ^^^ (x₂ >>> 31)

/-- `IterState`: (seed, case or target, iteration) to a generator state. The
    two `int` arguments are converted to `unsigned` before they are widened. -/
def iterState (nSeed : BitVec 32) (nCase nIter : Int) : BitVec 64 :=
  splitMix ((nSeed.setWidth 64 <<< 32)
    ^^^ ((BitVec.ofInt 32 nCase).setWidth 64 * 0x100000001B3)
    ^^^ ((BitVec.ofInt 32 (nIter + 1)).setWidth 64 * 0x9E3779B1))

theorem Rng.below_lt (r : Rng) {n : Nat} (h : 0 < n) : (r.below n).1 < n := by
  have hn : n ≠ 0 := by omega
  simp only [Rng.below, if_pos hn]
  exact Nat.mod_lt _ h

/-- A place that is drawn with a bias to the first `first` of `n` is one of the `n`. -/
theorem Rng.biased_lt (r : Rng) {n first : Nat} (hn : 0 < n) (hfirst : 0 < first) :
    (if (r.below 10).1 < 7 then (r.below 10).2.below (if n < first then n else first)
      else (r.below 10).2.below n).1 < n := by
  have hspan : 0 < (if n < first then n else first) ∧ (if n < first then n else first) ≤ n := by
    split <;> omega
  generalize r.below 10 = bias
  by_cases hbias : bias.1 < 7
  · rw [if_pos hbias]
    exact Nat.lt_of_lt_of_le (bias.2.below_lt hspan.1) hspan.2
  · rw [if_neg hbias]
    exact bias.2.below_lt hn

end FuzzRng
