import Mathlib.Logic.Function.Iterate
import MscsUnitTests.Lib.Words
import MscsUnitTests.Rng

/-! # The Harness Random Numbers: The Stream of a Generator

    `Seed` keeps the generator away from zero, where `Next` would stay. That it never
    comes there later, and that two generators never come together, is due to the three
    shift-xor steps: each of them can be undone.

    * `step_bijective`: the transition of `Next`.
    * `after_s`: whatever is drawn, the state is that transition, iterated.
    * `stream_never_dies`: both, and the range of `Below`.
-/

open MachineWords

namespace FuzzRng

/-! ## Section 1: The transition -/

theorem step_injective : Function.Injective Rng.step := by
  -- each shift-xor can be undone, and so can the three of them
  have hsteps : Rng.step = (fun s : BitVec 64 => s ^^^ (s >>> 27)) ∘
      (fun s : BitVec 64 => s ^^^ (s <<< 25)) ∘ (fun s : BitVec 64 => s ^^^ (s >>> 12)) := rfl
  rw [hsteps]
  exact (xorShift_injective (by decide)).comp <| (xorShiftLeft_injective (by decide)).comp <|
    xorShift_injective (by decide)

/-- **The transition is a bijection** on the states. -/
theorem step_bijective : Function.Bijective Rng.step :=
  bijective_of_injective step_injective

/-- Zero stays zero, however often it is stepped. -/
theorem iterate_step_zero (k : Nat) : Rng.step^[k] 0 = 0 :=
  Function.iterate_fixed (by decide) k

/-- And nothing else comes there. -/
theorem iterate_step_ne_zero {s : BitVec 64} (hs : s ≠ 0) (k : Nat) : Rng.step^[k] s ≠ 0 := by
  intro hzero
  -- zero comes from zero alone
  rw [← iterate_step_zero k] at hzero
  exact hs (step_injective.iterate k hzero)

theorem seed_ne_zero (x : BitVec 64) : (Rng.seed x).s ≠ 0 := by
  unfold Rng.seed
  by_cases hx : x ≠ 0
  · rw [if_pos hx]
    exact hx
  · rw [if_neg hx]
    decide

/-! ## Section 2: Draws -/

/-- What a harness asks of a generator. -/
inductive Draw where
  | next
  | u32
  | below (n : Nat)
  deriving DecidableEq

/-- The generator behind a draw. -/
def Draw.rng (d : Draw) (r : Rng) : Rng :=
  match d with
  | .next => r.next.2
  | .u32 => r.u32.2
  | .below n => (r.below n).2

/-- Whether `Next` is called for it: `Below(0)` does without. -/
def Draw.steps : Draw → Bool
  | .next => true
  | .u32 => true
  | .below n => n ≠ 0

/-- The generator behind a sequence of draws. -/
def Rng.after (r : Rng) (ds : List Draw) : Rng :=
  ds.foldl (fun r d => d.rng r) r

/-- **Step lemma**: a draw steps the state, or leaves it. -/
theorem Draw.rng_s (d : Draw) (r : Rng) :
    (d.rng r).s = if d.steps = true then Rng.step r.s else r.s := by
  cases d with
  | next => rfl
  | u32 => rfl
  | below n =>
    show (r.below n).2.s = if decide (n ≠ 0) = true then Rng.step r.s else r.s
    unfold Rng.below
    by_cases hn : n ≠ 0
    · rw [if_pos hn, if_pos (decide_eq_true hn)]
      rfl
    · rw [if_neg hn, if_neg (by simpa using hn)]

/-- **Run lemma**: whatever is drawn, the state is stepped once for each call of `Next`. -/
theorem after_s (r : Rng) (ds : List Draw) :
    (r.after ds).s = Rng.step^[ds.countP Draw.steps] r.s := by
  induction ds generalizing r with
  | nil => rfl
  | cons d ds ih =>
    show ((d.rng r).after ds).s = _
    rw [ih, d.rng_s, List.countP_cons]
    by_cases hsteps : d.steps = true
    · rw [if_pos hsteps, if_pos hsteps, Function.iterate_succ_apply]
    · rw [if_neg hsteps, if_neg hsteps, Nat.add_zero]

/-! ## Section 3: The stream -/

/-- What the generator keeps to. -/
structure NeverDies : Prop where
  /-- From every seed, whatever is drawn, the state is not zero. -/
  alive : ∀ (x : BitVec 64) (ds : List Draw), ((Rng.seed x).after ds).s ≠ 0
  bijective : Function.Bijective fun s : BitVec 64 => (Rng.next ⟨s⟩).2.s
  /-- Two generators in different states are in different states after as many calls of
      `Next`. -/
  apart : ∀ (r r' : Rng) (ds ds' : List Draw), r.s ≠ r'.s →
    ds.countP Draw.steps = ds'.countP Draw.steps → (r.after ds).s ≠ (r'.after ds').s
  below_lt : ∀ (r : Rng) (n : Nat), 0 < n → (r.below n).1 < n
  below_zero : ∀ r : Rng, (r.below 0).1 = 0

/-- **The stream never dies** and never merges with another one. -/
theorem stream_never_dies : NeverDies where
  alive := by
    intro x ds
    rw [after_s]
    exact iterate_step_ne_zero (seed_ne_zero x) _
  bijective := step_bijective
  apart := by
    intro r r' ds ds' hne hcount heq
    rw [after_s, after_s, hcount] at heq
    exact hne (step_injective.iterate _ heq)
  below_lt := fun r _ hn => r.below_lt hn
  below_zero := fun _ => rfl

end FuzzRng
