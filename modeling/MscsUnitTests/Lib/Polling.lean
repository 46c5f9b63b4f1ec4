import Mathlib.Data.Int.GCD
import Mathlib.Data.Nat.Find
import MscsUnitTests.Lib.Loop

/-! # Asking Again for a While

    The shape `for (waited = 0; ; waited += step) { if (answered) return it; if (waited >=
    budget) return false; sleep(step); }`, where `waited` is a machine word.

    * `returns_iff`: what the loop returns is the first thing that a turn gives.
    * `returns_in_time`: where the word does not overflow, that is an answer to one of the
      first `⌈budget / step⌉ + 1` questions, or `false`.
    * `ends_iff`: without an answer the loop ends exactly for the budgets that a multiple of the
      step reaches modulo the word.
-/

open BoundedLoop

namespace Polling

variable {w : Nat}

/-! ## Section 1: The loop -/

/-- A wait, and what is answered at each turn. -/
structure Wait (w : Nat) where
  step : BitVec w
  budget : BitVec w
  ask : Nat → Option Bool

/-- A turn, from the number of the turn and `waited`. -/
def Wait.turn (p : Wait w) (s : Nat × BitVec w) : Pass Bool (Nat × BitVec w) :=
  match p.ask s.1 with
  | some b => .stop b
  | none => if p.budget ≤ s.2 then .stop false else .again (s.1 + 1, s.2 + p.step)

/-- The loop ends with this. -/
def Wait.Returns (p : Wait w) (b : Bool) : Prop := ∃ k, LeavesAt p.turn (0, 0) k b

/-- What `waited` is at a turn. -/
def Wait.waited (p : Wait w) (k : Nat) : Nat := k * p.step.toNat % 2 ^ w

/-- What a turn gives. -/
def Wait.gives (p : Wait w) (k : Nat) : Option Bool :=
  match p.ask k with
  | some b => some b
  | none => if p.budget.toNat ≤ p.waited k then some false else none

/-- The state at a turn. -/
def Wait.stateAt (p : Wait w) (k : Nat) : Nat × BitVec w := (k, BitVec.ofNat w (k * p.step.toNat))

theorem turn_stateAt (p : Wait w) (k : Nat) : p.turn (p.stateAt k) =
    match p.gives k with
    | some b => .stop b
    | none => .again (p.stateAt (k + 1)) := by
  have hnext : BitVec.ofNat w (k * p.step.toNat) + p.step =
      BitVec.ofNat w ((k + 1) * p.step.toNat) := by
    rw [Nat.succ_mul, BitVec.ofNat_add, BitVec.ofNat_toNat, BitVec.setWidth_eq]
  have hword : p.budget ≤ BitVec.ofNat w (k * p.step.toNat) ↔ p.budget.toNat ≤ p.waited k := by
    rw [BitVec.le_def, BitVec.toNat_ofNat, Wait.waited]
  unfold Wait.turn Wait.gives Wait.stateAt
  dsimp only
  rcases p.ask k with _ | b
  · by_cases hover : p.budget.toNat ≤ p.waited k
    · simp [hword, hover]
    · simp [hword, hover, hnext]
  · rfl

/-- It ends with the first thing that a turn gives. -/
theorem returns_iff (p : Wait w) (b : Bool) :
    p.Returns b ↔ ∃ k, p.gives k = some b ∧ ∀ j < k, p.gives j = none := by
  have hstart : ((0, 0) : Nat × BitVec w) = p.stateAt 0 := by simp [Wait.stateAt]
  unfold Wait.Returns
  rw [hstart]
  constructor
  · rintro ⟨n, hleaves⟩
    suffices h : ∀ (s : Nat × BitVec w) (n : Nat) (b : Bool), LeavesAt p.turn s n b →
        ∀ i, s = p.stateAt i → ∃ k, p.gives (i + k) = some b ∧ ∀ j < k, p.gives (i + j) = none by
      simpa using h _ n b hleaves 0 rfl
    intro s n b hleaves
    induction hleaves with
    | stop hstop =>
      rintro i rfl
      rw [turn_stateAt] at hstop
      rcases hgives : p.gives i with _ | b'
      · simp [hgives] at hstop
      · simp only [hgives, Pass.stop.injEq] at hstop
        subst hstop
        exact ⟨0, hgives, by simp⟩
    | again hagain _ ih =>
      rintro i rfl
      rw [turn_stateAt] at hagain
      rcases hgives : p.gives i with _ | b'
      · simp only [hgives, Pass.again.injEq] at hagain
        obtain ⟨k, hk, hbefore⟩ := ih (i + 1) hagain.symm
        refine ⟨k + 1, by rwa [show i + (k + 1) = i + 1 + k by omega], ?_⟩
        intro j hj
        rcases j with _ | j
        · exact hgives
        · have hprev := hbefore j (by omega)
          rwa [show i + (j + 1) = i + 1 + j by omega]
      · simp [hgives] at hagain
  · rintro ⟨k, hk, hbefore⟩
    suffices h : ∀ d i, i + d = k → LeavesAt p.turn (p.stateAt i) (d + 1) b from
      ⟨k + 1, h k 0 (by omega)⟩
    intro d
    induction d with
    | zero =>
      intro i hi
      refine .stop ?_
      rw [turn_stateAt, show i = k by omega, hk]
    | succ d ih =>
      intro i hi
      refine .again ?_ (ih (i + 1) (by omega))
      rw [turn_stateAt, hbefore i (by omega)]

/-! ## Section 2: In time -/

/-- How many times it sleeps at most. -/
def Wait.sleeps (p : Wait w) : Nat := (p.budget.toNat + p.step.toNat - 1) / p.step.toNat

/-- Up to then the word does not overflow, and it is the first turn that gives up. -/
theorem waited_ge_iff {p : Wait w} (hstep : 0 < p.step.toNat)
    (hfits : p.budget.toNat + p.step.toNat ≤ 2 ^ w) {k : Nat} (hk : k ≤ p.sleeps) :
    p.budget.toNat ≤ p.waited k ↔ k = p.sleeps := by
  have hdiv := Nat.div_add_mod (p.budget.toNat + p.step.toNat - 1) p.step.toNat
  have hmod := Nat.mod_lt (p.budget.toNat + p.step.toNat - 1) hstep
  have hmul : k * p.step.toNat ≤ p.sleeps * p.step.toNat := Nat.mul_le_mul_right _ hk
  have hcomm : p.step.toNat * p.sleeps = p.sleeps * p.step.toNat := Nat.mul_comm _ _
  unfold Wait.sleeps at hcomm hmul hk ⊢
  unfold Wait.waited
  rw [Nat.mod_eq_of_lt (by omega)]
  constructor
  · intro hle
    by_contra hne
    have hlt : k + 1 ≤ (p.budget.toNat + p.step.toNat - 1) / p.step.toNat := by omega
    have hsucc := Nat.mul_le_mul_right p.step.toNat hlt
    rw [Nat.succ_mul] at hsucc
    omega
  · rintro rfl
    omega

/-- Before that turn, only an answer ends it. -/
theorem gives_before {p : Wait w} (hstep : 0 < p.step.toNat)
    (hfits : p.budget.toNat + p.step.toNat ≤ 2 ^ w) {k : Nat} (hk : k < p.sleeps) :
    p.gives k = p.ask k := by
  have hnot : ¬ p.budget.toNat ≤ p.waited k := by
    rw [waited_ge_iff hstep hfits (by omega)]
    omega
  unfold Wait.gives
  rcases p.ask k with _ | b
  · simp [hnot]
  · rfl

/-- That turn ends it. -/
theorem gives_last {p : Wait w} (hstep : 0 < p.step.toNat)
    (hfits : p.budget.toNat + p.step.toNat ≤ 2 ^ w) :
    p.gives p.sleeps = some ((p.ask p.sleeps).getD false) := by
  have hover : p.budget.toNat ≤ p.waited p.sleeps :=
    (waited_ge_iff hstep hfits (Nat.le_refl _)).mpr rfl
  unfold Wait.gives
  rcases p.ask p.sleeps with _ | b
  · simp [hover]
  · rfl

/-- **In time**: an answer to one of the first questions, or `false`. -/
theorem returns_in_time {p : Wait w} (hstep : 0 < p.step.toNat)
    (hfits : p.budget.toNat + p.step.toNat ≤ 2 ^ w) (b : Bool) : p.Returns b ↔
      (∃ k ≤ p.sleeps, p.ask k = some b ∧ ∀ j < k, p.ask j = none) ∨
        (b = false ∧ ∀ k ≤ p.sleeps, p.ask k = none) := by
  have hearly : ∀ k < p.sleeps, p.gives k = p.ask k := fun k => gives_before hstep hfits
  have hlast := gives_last hstep hfits
  rw [returns_iff]
  constructor
  · rintro ⟨k, hk, hbefore⟩
    -- the turn is one of the first, for the last of them gives something
    have hle : k ≤ p.sleeps := by
      by_contra hgt
      have hnone := hbefore p.sleeps (by omega)
      rw [hlast] at hnone
      cases hnone
    have hasked : ∀ j < k, p.ask j = none := by
      intro j hj
      rw [← hearly j (by omega)]
      exact hbefore j hj
    by_cases hk' : k = p.sleeps
    · subst hk'
      rw [hlast, Option.some_inj] at hk
      rcases hask : p.ask p.sleeps with _ | b'
      · rw [hask] at hk
        refine .inr ⟨hk.symm, ?_⟩
        intro j hj
        rcases Nat.lt_or_eq_of_le hj with hlt | rfl
        · exact hasked j hlt
        · exact hask
      · rw [hask, Option.getD_some] at hk
        exact .inl ⟨_, Nat.le_refl _, hk ▸ hask, hasked⟩
    · rw [hearly k (by omega)] at hk
      exact .inl ⟨k, hle, hk, hasked⟩
  · rintro (⟨k, hk, hask, hbefore⟩ | ⟨rfl, hnone⟩)
    · refine ⟨k, ?_, ?_⟩
      · unfold Wait.gives
        rw [hask]
      · intro j hj
        rw [hearly j (by omega)]
        exact hbefore j hj
    · refine ⟨p.sleeps, ?_, ?_⟩
      · rw [hlast, hnone _ (Nat.le_refl _)]
        rfl
      · intro j hj
        rw [hearly j hj]
        exact hnone j (by omega)

/-! ## Section 3: Without an answer -/

/-- The multiples of the step, modulo the word, are those of the common divisor. -/
theorem exists_waited_ge_iff (p : Wait w) : (∃ k, p.budget.toNat ≤ p.waited k) ↔
    p.budget.toNat + Nat.gcd p.step.toNat (2 ^ w) ≤ 2 ^ w := by
  have hword : 0 < 2 ^ w := Nat.two_pow_pos w
  have hpos : 0 < Nat.gcd p.step.toNat (2 ^ w) := Nat.gcd_pos_of_pos_right _ hword
  constructor
  · rintro ⟨k, hk⟩
    have hlt : p.waited k < 2 ^ w := Nat.mod_lt _ hword
    have hdvd : Nat.gcd p.step.toNat (2 ^ w) ∣ p.waited k := by
      unfold Wait.waited
      rw [Nat.dvd_mod_iff (Nat.gcd_dvd_right _ _)]
      exact Nat.dvd_mul_left_of_dvd (Nat.gcd_dvd_left _ _) _
    have hrest := Nat.le_of_dvd (by omega) (Nat.dvd_sub (Nat.gcd_dvd_right _ _) hdvd)
    omega
  · intro hle
    by_cases hsmall : Nat.gcd p.step.toNat (2 ^ w) < 2 ^ w
    · obtain ⟨m, -, hm⟩ := Nat.exists_mul_mod_eq_gcd hsmall
      obtain ⟨c, hc⟩ := Nat.gcd_dvd_right p.step.toNat (2 ^ w)
      have hcpos : 0 < c := by
        rcases Nat.eq_zero_or_pos c with rfl | h
        · omega
        · exact h
      -- the largest of them
      refine ⟨m * (c - 1), ?_⟩
      have hmultiple : m * (c - 1) * p.step.toNat = p.step.toNat * m * (c - 1) := by
        rw [Nat.mul_comm, ← Nat.mul_assoc]
      have hlargest : Nat.gcd p.step.toNat (2 ^ w) * (c - 1) =
          2 ^ w - Nat.gcd p.step.toNat (2 ^ w) := by
        rw [Nat.mul_sub_one, ← hc]
      unfold Wait.waited
      rw [hmultiple, Nat.mul_mod, hm, Nat.mul_mod_mod, hlargest, Nat.mod_eq_of_lt (by omega)]
      omega
    · exact ⟨0, by omega⟩

/-- **Whether it ends**: it is answered, or the budget is one that the word reaches. -/
theorem ends_iff (p : Wait w) : (∃ b, p.Returns b) ↔
    (∃ k b, p.ask k = some b) ∨ p.budget.toNat + Nat.gcd p.step.toNat (2 ^ w) ≤ 2 ^ w := by
  rw [← exists_waited_ge_iff]
  constructor
  · rintro ⟨b, hb⟩
    obtain ⟨k, hk, -⟩ := (returns_iff p b).mp hb
    rcases hask : p.ask k with _ | b'
    · unfold Wait.gives at hk
      rw [hask] at hk
      exact .inr ⟨k, (Option.ite_none_right_eq_some.mp hk).1⟩
    · exact .inl ⟨k, b', hask⟩
  · intro h
    have hsome : ∃ k, (p.gives k).isSome = true := by
      rcases h with ⟨k, b, hask⟩ | ⟨k, hk⟩
      · refine ⟨k, ?_⟩
        unfold Wait.gives
        rw [hask]
        rfl
      · refine ⟨k, ?_⟩
        unfold Wait.gives
        rcases p.ask k with _ | b
        · simp [hk]
        · rfl
    -- the first of them
    obtain ⟨b, hb⟩ := Option.isSome_iff_exists.mp (Nat.find_spec hsome)
    refine ⟨b, (returns_iff p b).mpr ⟨Nat.find hsome, hb, ?_⟩⟩
    intro j hj
    exact Option.not_isSome_iff_eq_none.mp (Nat.find_min hsome hj)

end Polling
