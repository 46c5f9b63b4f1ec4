import MscsUnitTests.Lib.Numerals

/-! # The Teardown Stress Test: Its Churn of Clients

    `teardown_stress.cpp` makes its clients in batches and tears every batch down after a
    delay of its own. The file says that each client has a unique address, and that the
    delay sweeps `0..maxDelayMs`, so that a teardown lands at every phase.

    * `batch_fits`: the bounds within which the sums of the loop are those of an `int`.
    * `addrs_unique`: the addresses, over all batches.
    * `sweep_reaches_iff`: which delays are ever used.
-/

open CFiles CNumerals

namespace TeardownStress

/-! ## Section 1: The loop over the batches -/

structure Batch where
  /-- Where the loop is: the clients and the batches so far. -/
  nMade : Int
  nBatch : Int
  /-- The addresses of the clients. -/
  addrs : List CStr
  dly : Int

def nConcClamped (nConc : Int) : Int := if nConc < 1 then 1 else nConc

/-- `L"Stress.Client.%d"`, in its buffer of 64 characters. -/
def addr (i : Int) : CStr := fit 64 (cstr "Stress.Client." ++ decimal i)

/-- The delay of a batch. -/
def dly (nMaxDlyMs nBatch : Int) : Int :=
  if nMaxDlyMs ≤ 0 then 0 else (nBatch * 3).tmod (nMaxDlyMs + 1)

/-- `nThis`: the last batch is what is left. -/
def nThis (nTotal nConc nMade : Int) : Int :=
  if nMade + nConcClamped nConc > nTotal then nTotal - nMade else nConcClamped nConc

/-- The loop, from `nMade` clients and `nBatch` batches on. Every batch has a client, so
    `fuel` is the number of clients. -/
def churn (nTotal nConc nMaxDlyMs : Int) : Nat → Int → Int → List Batch
  | 0, _, _ => []
  | fuel + 1, nMade, nBatch =>
    if nMade < nTotal then
      let n := nThis nTotal nConc nMade
      ⟨nMade, nBatch, (List.range n.toNat).map fun i : Nat => addr (nMade + i),
        dly nMaxDlyMs nBatch⟩ ::
        churn nTotal nConc nMaxDlyMs fuel (nMade + n) (nBatch + 1)
    else []

/-- The batches of a run. -/
def batches (nTotal nConc nMaxDlyMs : Int) : List Batch :=
  churn nTotal nConc nMaxDlyMs nTotal.toNat 0 0

section churn
variable {nTotal nConc nMaxDlyMs : Int}

/-- A batch is neither empty nor too large. -/
theorem nThis_bounds (nConc : Int) {nMade : Int} (h : nMade < nTotal) :
    1 ≤ nThis nTotal nConc nMade ∧ nThis nTotal nConc nMade ≤ nTotal - nMade ∧
      nThis nTotal nConc nMade ≤ nConcClamped nConc := by
  have hconc : 1 ≤ nConcClamped nConc := by
    unfold nConcClamped
    split <;> omega
  unfold nThis
  split
  · exact ⟨by omega, by omega, by omega⟩
  · exact ⟨by omega, by omega, by omega⟩

/-- Every client is made once, in the order of the numbers. -/
theorem churn_addrs (nConc nMaxDlyMs : Int) (fuel : Nat) (nMade nBatch : Int)
    (hfuel : (nTotal - nMade).toNat ≤ fuel) :
    (churn nTotal nConc nMaxDlyMs fuel nMade nBatch).flatMap Batch.addrs =
      (List.range (nTotal - nMade).toNat).map fun i : Nat => addr (nMade + i) := by
  induction fuel generalizing nMade nBatch with
  | zero =>
    have hnone : (nTotal - nMade).toNat = 0 := by omega
    simp [churn, hnone]
  | succ fuel ih =>
    unfold churn
    split
    · next hlt =>
      obtain ⟨hone, hleft, _⟩ := nThis_bounds nConc hlt
      generalize nThis nTotal nConc nMade = n at hone hleft
      obtain ⟨k, rfl⟩ : ∃ k : Nat, n = k := ⟨n.toNat, by omega⟩
      have hsplit : (nTotal - nMade).toNat = k + (nTotal - (nMade + k)).toNat := by omega
      rw [List.flatMap_cons, ih _ _ (by omega), hsplit, List.range_add]
      simp [Int.add_assoc]
    · next hge =>
      have hnone : (nTotal - nMade).toNat = 0 := by omega
      simp [hnone]

/-- The delays go by the number of the batch. -/
theorem churn_dlys (fuel : Nat) (nMade nBatch : Int) :
    (churn nTotal nConc nMaxDlyMs fuel nMade nBatch).map Batch.dly =
      (List.range (churn nTotal nConc nMaxDlyMs fuel nMade nBatch).length).map
        fun k : Nat => dly nMaxDlyMs (nBatch + k) := by
  induction fuel generalizing nMade nBatch with
  | zero => rfl
  | succ fuel ih =>
    unfold churn
    split
    · rw [List.map_cons, ih, List.length_cons, List.range_succ_eq_map]
      simp [Int.add_assoc, Int.add_comm 1]
    · rfl

/-- There are as many batches as it takes. -/
theorem churn_length_ge (nTotal nConc nMaxDlyMs : Int) (fuel : Nat) (nMade nBatch : Int)
    (hfuel : (nTotal - nMade).toNat ≤ fuel) :
    nTotal - nMade ≤ (churn nTotal nConc nMaxDlyMs fuel nMade nBatch).length * nConcClamped nConc := by
  induction fuel generalizing nMade nBatch with
  | zero =>
    simp [churn]
    omega
  | succ fuel ih =>
    unfold churn
    split
    · next hlt =>
      obtain ⟨hone, hleft, hconc⟩ := nThis_bounds nConc hlt
      have hrest := ih (nMade + nThis nTotal nConc nMade) (nBatch + 1) (by omega)
      rw [List.length_cons]
      push_cast
      linarith
    · next hge =>
      simp
      omega

/-- Every batch has a client, so there are no more batches than clients. -/
theorem churn_counters (fuel : Nat) {nMade nBatch : Int} (hbatch : 0 ≤ nBatch)
    (hmade : nBatch ≤ nMade) : ∀ b ∈ churn nTotal nConc nMaxDlyMs fuel nMade nBatch,
      0 ≤ b.nBatch ∧ b.nBatch ≤ b.nMade ∧ b.nMade < nTotal := by
  induction fuel generalizing nMade nBatch with
  | zero => simp [churn]
  | succ fuel ih =>
    unfold churn
    split
    · next hlt =>
      -- a pass adds one batch, and at least one client
      obtain ⟨hone, _, _⟩ := nThis_bounds nConc hlt
      rw [List.forall_mem_cons]
      exact ⟨⟨hbatch, hmade, hlt⟩, ih (by omega) (by omega)⟩
    · simp

/-- **The sums of the loop** fit an `int` in every pass, for arguments up to these. -/
theorem batch_fits (htotal : 3 * nTotal < 2 ^ 31) (hconc : nTotal + nConcClamped nConc < 2 ^ 31) :
    ∀ b ∈ batches nTotal nConc nMaxDlyMs, 0 ≤ b.nMade ∧ b.nMade + nConcClamped nConc < 2 ^ 31 ∧
      0 ≤ b.nBatch * 3 ∧ b.nBatch * 3 < 2 ^ 31 := by
  intro b hb
  obtain ⟨hzero, hle, hlt⟩ := churn_counters nTotal.toNat (le_refl 0) (le_refl 0) b hb
  exact ⟨by omega, by omega, by omega, by omega⟩

end churn

/-! ## Section 2: The addresses -/

/-- The buffer is large enough for any `int`. -/
theorem addr_eq {i : Int} (hi : 0 ≤ i ∧ i < 2 ^ 31) : addr i = cstr "Stress.Client." ++ decimal i := by
  have hdigits : (numeral 10 i.natAbs).length ≤ 10 := by
    unfold numeral
    split
    · decide
    · rw [List.length_reverse, List.length_map, Nat.digits_length_le_iff (by omega)]
      omega
  have hdecimal : decimal i = numeral 10 i.natAbs := by
    unfold decimal
    rw [if_neg (by omega)]
  refine fit_of_lt ?_
  have hname : (cstr "Stress.Client.").length = 14 := by decide
  rw [List.length_append, hdecimal, hname]
  omega

theorem addr_injective {i j : Int} (hi : 0 ≤ i ∧ i < 2 ^ 31) (hj : 0 ≤ j ∧ j < 2 ^ 31)
    (h : addr i = addr j) : i = j := by
  rw [addr_eq hi, addr_eq hj] at h
  have hdecimal := List.append_cancel_left h
  calc i = atoi 32 (decimal i) := (atoi_decimal (by omega) (by omega) hi.2).symm
    _ = atoi 32 (decimal j) := by rw [hdecimal]
    _ = j := atoi_decimal (by omega) (by omega) hj.2

/-- **Unique addresses**: over the whole run there are `nTotal` clients, no two of them with
    the same address. -/
theorem addrs_unique {nTotal : Int} (htotal : nTotal < 2 ^ 31) (nConc nMaxDlyMs : Int) :
    ((batches nTotal nConc nMaxDlyMs).flatMap Batch.addrs).Nodup ∧
      ((batches nTotal nConc nMaxDlyMs).flatMap Batch.addrs).length = nTotal.toNat := by
  have haddrs := churn_addrs nConc nMaxDlyMs nTotal.toNat 0 0
    (show (nTotal - 0).toNat ≤ nTotal.toNat by omega)
  rw [batches, haddrs]
  refine ⟨?_, by simp⟩
  refine List.Nodup.map_on ?_ List.nodup_range
  intro i hi j hj hij
  rw [List.mem_range] at hi hj
  have hequal := addr_injective (by omega) (by omega) hij
  omega

theorem addrs_unique_default :
    ((batches 200 4 8).flatMap Batch.addrs).Nodup ∧
      ((batches 200 4 8).flatMap Batch.addrs).length = (200 : Int).toNat :=
  addrs_unique (by decide) 4 8

/-! ## Section 3: The sweep -/

/-- Multiples of three, modulo `n`: all of them, unless `n` is one itself. -/
theorem exists_three_mul_mod_iff {n : Nat} (hn : 1 ≤ n) (d : Nat) :
    (∃ k < n, 3 * k % n = d) ↔ d < n ∧ (3 ∣ n → 3 ∣ d) := by
  constructor
  · rintro ⟨k, _, rfl⟩
    refine ⟨Nat.mod_lt _ hn, ?_⟩
    intro hdvd
    exact (Nat.dvd_mod_iff hdvd).mpr (Nat.dvd_mul_right 3 k)
  · rintro ⟨hlt, hdvd⟩
    -- one of `d`, `d + n` and `d + 2 * n` is a multiple of three
    obtain ⟨j, k, hj, hk⟩ : ∃ j k, j < 3 ∧ 3 * k = d + j * n := by
      by_cases hthree : 3 ∣ n
      · obtain ⟨k, rfl⟩ := hdvd hthree
        exact ⟨0, k, by omega, by omega⟩
      · have hmod : n % 3 = 1 ∨ n % 3 = 2 := by omega
        have hcase : (d + 0 * n) % 3 = 0 ∨ (d + 1 * n) % 3 = 0 ∨ (d + 2 * n) % 3 = 0 := by omega
        rcases hcase with h | h | h
        · exact ⟨0, (d + 0 * n) / 3, by omega, by omega⟩
        · exact ⟨1, (d + 1 * n) / 3, by omega, by omega⟩
        · exact ⟨2, (d + 2 * n) / 3, by omega, by omega⟩
    refine ⟨k, ?_, ?_⟩
    · have hbound : j * n ≤ 2 * n := Nat.mul_le_mul_right n (by omega)
      omega
    · rw [hk, Nat.add_mul_mod_self_right, Nat.mod_eq_of_lt hlt]

/-- There is a batch for each delay when the clients fill as many. -/
theorem batches_enough {nTotal nConc nMaxDlyMs : Int}
    (henough : (nMaxDlyMs + 1) * nConcClamped nConc ≤ nTotal) :
    nMaxDlyMs + 1 ≤ (batches nTotal nConc nMaxDlyMs).length := by
  have hconc : 0 < nConcClamped nConc := by
    unfold nConcClamped
    split <;> omega
  have hall := churn_length_ge nTotal nConc nMaxDlyMs nTotal.toNat 0 0 (by omega)
  have hproduct := henough.trans ((Int.sub_zero nTotal).symm.le.trans hall)
  exact le_of_mul_le_mul_right hproduct hconc

/-- **The sweep reaches** a delay up to the maximum exactly when it is a multiple of three or
    `nMaxDlyMs + 1` is none, given a batch for each delay. -/
theorem sweep_reaches_iff {nTotal nConc nMaxDlyMs : Int} (hmax : 1 ≤ nMaxDlyMs)
    (henough : nMaxDlyMs + 1 ≤ (batches nTotal nConc nMaxDlyMs).length) (d : Int) :
    (∃ b ∈ batches nTotal nConc nMaxDlyMs, b.dly = d) ↔
      (0 ≤ d ∧ d ≤ nMaxDlyMs) ∧ (3 ∣ nMaxDlyMs + 1 → 3 ∣ d) := by
  obtain ⟨n, hn⟩ : ∃ n : Nat, nMaxDlyMs + 1 = n := ⟨(nMaxDlyMs + 1).toNat, by omega⟩
  have hlength := henough
  rw [hn, Int.ofNat_le] at hlength
  have hdly : ∀ k : Nat, dly nMaxDlyMs k = (3 * k % n : Nat) := by
    intro k
    unfold dly
    rw [if_neg (by omega), hn, Int.mul_comm]
    exact_mod_cast (Int.ofNat_tmod (3 * k) n).symm
  have hrun : (∃ b ∈ batches nTotal nConc nMaxDlyMs, b.dly = d) ↔
      ∃ k < n, ((3 * k % n : Nat) : Int) = d := by
    rw [← List.mem_map, batches, churn_dlys, List.mem_map]
    constructor
    · rintro ⟨k, _, rfl⟩
      refine ⟨k % n, Nat.mod_lt _ (by omega), ?_⟩
      rw [Int.zero_add, hdly, Nat.mul_mod_mod]
    · rintro ⟨k, hk, rfl⟩
      refine ⟨k, List.mem_range.mpr (Nat.lt_of_lt_of_le hk hlength), ?_⟩
      rw [Int.zero_add, hdly]
  rw [hrun]
  by_cases hneg : d < 0
  · constructor
    · rintro ⟨k, _, rfl⟩
      omega
    · intro h
      omega
  · obtain ⟨e, rfl⟩ : ∃ e : Nat, d = e := ⟨d.toNat, by omega⟩
    have hiff := exists_three_mul_mod_iff (n := n) (by omega) e
    rw [hn]
    constructor
    · rintro ⟨k, hk, hke⟩
      obtain ⟨hlt, hdvd⟩ := hiff.mp ⟨k, hk, by exact_mod_cast hke⟩
      exact ⟨by omega, by exact_mod_cast hdvd⟩
    · rintro ⟨hrange, hdvd⟩
      obtain ⟨k, hk, hke⟩ := hiff.mpr ⟨by omega, by exact_mod_cast hdvd⟩
      exact ⟨k, hk, by exact_mod_cast hke⟩

/-- The default arguments: two hundred clients by four, and up to eight milliseconds. -/
theorem sweep_reaches_iff_default :
    (∃ b ∈ batches 200 4 8, b.dly = 8) ↔
      ((0 : Int) ≤ 8 ∧ (8 : Int) ≤ 8) ∧ ((3 : Int) ∣ 8 + 1 → (3 : Int) ∣ 8) :=
  sweep_reaches_iff (show (1 : Int) ≤ 8 by decide)
    (batches_enough (show (8 + 1 : Int) * nConcClamped 4 ≤ 200 by decide)) 8

end TeardownStress
