import MscsUnitTests.Frame.Wire
import MscsUnitTests.Lib.Traced

/-! # The Framing Harness: What the Mutator Touches

    `Mutate` once more, on a traced buffer. Taking the trace away gives the mutator of
    `Frame.Wire`; the trace says that no operation reaches beyond the length that is in
    force when it runs.
-/

open ByteMem FuzzRng TracedMem

namespace FuzzFrame

/-! ## Section 1: The traced mutator -/

/-- What `Mutate` is doing. -/
inductive Part where
  | start
  /-- An operation of the `switch`, by its number. -/
  | op (code : Nat)
  | repair
  | stamp
  deriving DecidableEq

/-- The wire, the trace taken away. -/
def wireOf (t : Traced Part) : Wire :=
  ⟨t.mem, t.n⟩

/-- `applyOp`, traced. -/
def tracedApplyOp (t : Traced Part) (off : Nat) (oRng : Rng) : Nat → Traced Part × Rng
  | 0 =>
    let bit := oRng.below 8
    let old := t.load off
    (old.2.store off (old.1 ^^^ UInt8.ofNat (1 <<< bit.1)), bit.2)
  | 1 =>
    let pick := oRng.below kInteresting8.length
    (t.store off (kInteresting8.getD pick.1 0), pick.2)
  | 2 =>
    if off + 4 ≤ t.n then
      let pick := oRng.below kInteresting32.length
      (t.storeU32 off (kInteresting32.getD pick.1 0), pick.2)
    else (t, oRng)
  | 3 =>
    if off + 2 ≤ t.n then
      let pick := oRng.below kInteresting32.length
      (t.storeU16 off (kInteresting32.getD pick.1 0), pick.2)
    else (t, oRng)
  | 4 =>
    let cut := oRng.below t.n
    (t.resize (1 + cut.1), cut.2)
  | 5 =>
    let run := oRng.below (t.n - off)
    let nRun := 1 + run.1
    let src := run.2.below (t.n - nRun + 1)
    let len := if off + nRun ≤ t.n then nRun else t.n - off
    ((t.test (decide (off + nRun ≤ t.n))).move off src.1 len, src.2)
  | _ => (t, oRng)

/-- `mutateOp`, traced. -/
def tracedMutateOp (t : Traced Part) (oRng : Rng) : Traced Part × Rng :=
  let off := pickOffset (wireOf t) oRng
  let op := off.2.below 6
  tracedApplyOp (t.enter (.op op.1)) off.1 op.2 op.1

/-- `mutateOps`, traced. -/
def tracedMutateOps : Nat → Traced Part → Rng → Traced Part × Rng
  | 0, t, oRng => (t, oRng)
  | k + 1, t, oRng =>
    if t.n > 0 then tracedMutateOps k (tracedMutateOp t oRng).1 (tracedMutateOp t oRng).2
    else (t, oRng)

/-- `StampSync`, traced. -/
def tracedStampSync (sync : VBLockSync) (t : Traced Part) (nSizeof uAddrType : Nat) : Traced Part :=
  if t.n < 8 then t.enter .stamp
  else
    let s1 := sync.make nSizeof uAddrType
    ((t.enter .stamp).storeU32 0 s1).storeU32 4 (notU32 s1)

/-- `RepairComplement`, traced. -/
def tracedRepairComplement (t : Traced Part) : Traced Part :=
  if t.n ≥ 8 then
    let s1 := (t.enter .repair).loadU32 0
    s1.2.storeU32 4 (notU32 s1.1)
  else t.enter .repair

/-- The two fix-up steps, by what was drawn for them. -/
def tracedFixUps (sync : VBLockSync) (t : Traced Part) (fix stamp : Nat) : Traced Part :=
  let t₁ := if fix ≠ 0 then tracedRepairComplement t else t
  if stamp = 0 ∧ t₁.n ≥ 8 then tracedStampSync sync t₁ t₁.n vblockAddr32 else t₁

/-- `Mutate`, traced. -/
def tracedMutate (sync : VBLockSync) (t : Traced Part) (oRng : Rng) : Traced Part × Rng :=
  let nOps := oRng.below 4
  let ops := tracedMutateOps (1 + nOps.1) t nOps.2
  let fix := ops.2.below 4
  let stamp := fix.2.below 3
  (tracedFixUps sync ops.1 fix.1 stamp.1, stamp.2)

/-! ## Section 2: Without the trace it is the mutator -/

@[simp] theorem wireOf_n (t : Traced Part) : (wireOf t).n = t.n := rfl

/-- An operation does to the wire what it did, and draws what it drew. -/
theorem wireOf_applyOp (t : Traced Part) (off : Nat) (oRng : Rng) (op : Nat) :
    wireOf (tracedApplyOp t off oRng op).1 = (applyOp (wireOf t) off oRng op).1 ∧
      (tracedApplyOp t off oRng op).2 = (applyOp (wireOf t) off oRng op).2 := by
  match op with
  | 0 => simp [tracedApplyOp, applyOp, wireOf]
  | 1 => simp [tracedApplyOp, applyOp, wireOf]
  | 2 =>
    by_cases h : off + 4 ≤ t.n
    · simp [tracedApplyOp, applyOp, wireOf, h]
    · simp [tracedApplyOp, applyOp, wireOf, h]
  | 3 =>
    by_cases h : off + 2 ≤ t.n
    · simp [tracedApplyOp, applyOp, wireOf, h]
    · simp [tracedApplyOp, applyOp, wireOf, h]
  | 4 => simp [tracedApplyOp, applyOp, wireOf]
  | 5 =>
    -- whatever the two draws are
    unfold tracedApplyOp applyOp wireOf
    dsimp only
    generalize oRng.below (t.n - off) = run
    generalize run.2.below (t.n - (1 + run.1) + 1) = src
    simp only [Traced.move_mem, Traced.move_n, Traced.test_mem, Traced.test_n, and_self]
  | _ + 6 => simp [tracedApplyOp, applyOp]

/-- An operation, by what was drawn for its place and its number. -/
theorem tracedMutateOp_of_draws {t : Traced Part} {oRng : Rng} {off op : Nat × Rng}
    (hoff : pickOffset (wireOf t) oRng = off) (hop : off.2.below 6 = op) :
    tracedMutateOp t oRng = tracedApplyOp (t.enter (.op op.1)) off.1 op.2 op.1 := by
  rw [← hop, ← hoff]
  rfl

theorem mutateOp_of_draws {w : Wire} {oRng : Rng} {off op : Nat × Rng}
    (hoff : pickOffset w oRng = off) (hop : off.2.below 6 = op) :
    mutateOp w oRng = applyOp w off.1 op.2 op.1 := by
  rw [← hop, ← hoff]
  rfl

theorem wireOf_mutateOp (t : Traced Part) (oRng : Rng) :
    wireOf (tracedMutateOp t oRng).1 = (mutateOp (wireOf t) oRng).1 ∧
      (tracedMutateOp t oRng).2 = (mutateOp (wireOf t) oRng).2 := by
  generalize hoff : pickOffset (wireOf t) oRng = off
  generalize hop : off.2.below 6 = op
  rw [tracedMutateOp_of_draws hoff hop, mutateOp_of_draws hoff hop]
  exact wireOf_applyOp (t.enter (.op op.1)) off.1 op.2 op.1

theorem wireOf_mutateOps (k : Nat) (t : Traced Part) (oRng : Rng) :
    wireOf (tracedMutateOps k t oRng).1 = (mutateOps k (wireOf t) oRng).1 ∧
      (tracedMutateOps k t oRng).2 = (mutateOps k (wireOf t) oRng).2 := by
  induction k generalizing t oRng with
  | zero => exact ⟨rfl, rfl⟩
  | succ k ih =>
    obtain ⟨hwire, hrng⟩ := wireOf_mutateOp t oRng
    unfold tracedMutateOps mutateOps
    rw [wireOf_n]
    split
    · rw [← hwire, ← hrng]
      exact ih _ _
    · exact ⟨rfl, rfl⟩

theorem wireOf_stampSync (sync : VBLockSync) (t : Traced Part) (nSizeof uAddrType : Nat) :
    wireOf (tracedStampSync sync t nSizeof uAddrType) =
      stampSync sync (wireOf t) nSizeof uAddrType := by
  unfold tracedStampSync stampSync
  by_cases h : t.n < 8
  · simp [wireOf, h]
  · simp [wireOf, h]

theorem wireOf_repairComplement (t : Traced Part) :
    wireOf (tracedRepairComplement t) = repairComplement (wireOf t) := by
  unfold tracedRepairComplement repairComplement
  by_cases h : t.n ≥ 8
  · simp [wireOf, h]
  · simp [wireOf, h]

theorem wireOf_fixUps (sync : VBLockSync) (t : Traced Part) (fix stamp : Nat) :
    wireOf (tracedFixUps sync t fix stamp) =
      let w₁ := if fix ≠ 0 then repairComplement (wireOf t) else wireOf t
      if stamp = 0 ∧ w₁.n ≥ 8 then stampSync sync w₁ w₁.n vblockAddr32 else w₁ := by
  have hfix : (if fix ≠ 0 then repairComplement (wireOf t) else wireOf t) =
      wireOf (if fix ≠ 0 then tracedRepairComplement t else t) := by
    split
    · exact (wireOf_repairComplement t).symm
    · rfl
  unfold tracedFixUps
  dsimp only
  rw [hfix]
  generalize (if fix ≠ 0 then tracedRepairComplement t else t) = t₁
  rw [wireOf_n]
  split
  · exact wireOf_stampSync _ _ _ _
  · rfl

/-- **The trace is the mutator's**: the run it records ends with the mutator's wire and
    generator. -/
theorem wireOf_mutate (sync : VBLockSync) (t : Traced Part) (oRng : Rng) :
    wireOf (tracedMutate sync t oRng).1 = (mutate sync (wireOf t) oRng).1 ∧
      (tracedMutate sync t oRng).2 = (mutate sync (wireOf t) oRng).2 := by
  obtain ⟨hwire, hrng⟩ := wireOf_mutateOps (1 + (oRng.below 4).1) t (oRng.below 4).2
  unfold tracedMutate mutate
  dsimp only
  rw [wireOf_fixUps, hwire, hrng]
  exact ⟨rfl, rfl⟩

/-! ## Section 3: What it touches -/

/-- Within the length in force, which is at most the one at the beginning. -/
def Inside (n₀ : Nat) (_ : Part) (a : Access) : Prop :=
  a.off + a.len ≤ a.cur ∧ a.cur ≤ n₀

theorem pickOffset_lt (w : Wire) (oRng : Rng) (hw : 0 < w.n) : (pickOffset w oRng).1 < w.n :=
  oRng.biased_lt hw (show 0 < 64 by decide)

/-- A splice, whatever run it takes from where: the run ends inside of the wire, and so
    does any place to take it from. -/
theorem splice_does {n₀ : Nat} {t : Traced Part} {off run src : Nat} (hoff : off < t.n)
    (hn : t.n ≤ n₀) (hrun : run < t.n - off) (hsrc : src < t.n - (1 + run) + 1) :
    Does (Inside n₀) t ((t.test (decide (off + (1 + run) ≤ t.n))).move off src
      (if off + (1 + run) ≤ t.n then 1 + run else t.n - off)) := by
  have hguard : off + (1 + run) ≤ t.n := by omega
  have hfrom : src + (1 + run) ≤ t.n := by omega
  rw [if_pos hguard]
  exact (does_test (decide_eq_true hguard)).trans (does_move ⟨hguard, hn⟩ ⟨hfrom, hn⟩)

/-- **One operation** touches bytes of the wire only, and the guard of the splice is true. -/
theorem tracedApplyOp_does {n₀ : Nat} (t : Traced Part) {off : Nat} (oRng : Rng) (op : Nat)
    (hoff : off < t.n) (hn : t.n ≤ n₀) : Does (Inside n₀) t (tracedApplyOp t off oRng op).1 := by
  match op with
  | 0 =>
    have hin : Inside n₀ t.part ⟨off, 1, t.n⟩ := ⟨hoff, hn⟩
    exact (does_load hin).trans (does_store hin)
  | 1 => exact does_store ⟨hoff, hn⟩
  | 2 =>
    by_cases hroom : off + 4 ≤ t.n
    · have hop : tracedApplyOp t off oRng 2 = _ := if_pos hroom
      rw [hop]
      exact does_storeU32 ⟨hroom, hn⟩
    · have hop : tracedApplyOp t off oRng 2 = _ := if_neg hroom
      rw [hop]
      exact Does.refl t
  | 3 =>
    by_cases hroom : off + 2 ≤ t.n
    · have hop : tracedApplyOp t off oRng 3 = _ := if_pos hroom
      rw [hop]
      exact does_storeU16 ⟨hroom, hn⟩
    · have hop : tracedApplyOp t off oRng 3 = _ := if_neg hroom
      rw [hop]
      exact Does.refl t
  | 4 => exact does_resize t _
  | 5 =>
    have hrun := Rng.below_lt oRng (show 0 < t.n - off by omega)
    have hsrc := Rng.below_lt (oRng.below (t.n - off)).2
      (show 0 < t.n - (1 + (oRng.below (t.n - off)).1) + 1 by omega)
    exact splice_does hoff hn hrun hsrc
  | _ + 6 => exact Does.refl t

theorem tracedMutateOp_does {n₀ : Nat} (t : Traced Part) (oRng : Rng) (hpos : 0 < t.n)
    (hn : t.n ≤ n₀) : Does (Inside n₀) t (tracedMutateOp t oRng).1 := by
  have hoff := pickOffset_lt (wireOf t) oRng hpos
  generalize hpick : pickOffset (wireOf t) oRng = off at hoff
  generalize hop : off.2.below 6 = op
  rw [tracedMutateOp_of_draws hpick hop]
  exact (does_enter t _).trans (tracedApplyOp_does (t.enter (.op op.1)) op.2 op.1 hoff hn)

/-- The loop, by induction on the operations: none of them lengthens the wire. -/
theorem tracedMutateOps_does {n₀ : Nat} (k : Nat) (t : Traced Part) (oRng : Rng) (hpos : 0 < t.n)
    (hn : t.n ≤ n₀) : Does (Inside n₀) t (tracedMutateOps k t oRng).1 := by
  induction k generalizing t oRng with
  | zero => exact Does.refl t
  | succ k ih =>
    have hop := mutateOp_n (wireOf t) oRng hpos
    rw [← (wireOf_mutateOp t oRng).1, wireOf_n, wireOf_n] at hop
    unfold tracedMutateOps
    rw [if_pos hpos]
    exact (tracedMutateOp_does t oRng hpos hn).trans (ih _ _ hop.1 (hop.2.trans hn))

theorem tracedRepairComplement_n (t : Traced Part) : (tracedRepairComplement t).n = t.n := by
  unfold tracedRepairComplement
  split
  · rfl
  · rfl

theorem tracedRepairComplement_does {n₀ : Nat} {t : Traced Part} (hn : t.n ≤ n₀) :
    Does (Inside n₀) t (tracedRepairComplement t) := by
  unfold tracedRepairComplement
  split
  · next h8 =>
    have hlow : Inside n₀ .repair ⟨0, 4, t.n⟩ := by
      refine ⟨?_, hn⟩
      show 0 + 4 ≤ t.n
      omega
    have hhigh : Inside n₀ .repair ⟨4, 4, t.n⟩ := ⟨h8, hn⟩
    exact ((does_enter t .repair).trans (does_loadU32 hlow)).trans (does_storeU32 hhigh)
  · exact does_enter t .repair

theorem tracedStampSync_does {n₀ : Nat} {t : Traced Part} (sync : VBLockSync)
    (nSizeof uAddrType : Nat) (hn : t.n ≤ n₀) (h8 : 8 ≤ t.n) :
    Does (Inside n₀) t (tracedStampSync sync t nSizeof uAddrType) := by
  have hlow : Inside n₀ .stamp ⟨0, 4, t.n⟩ := by
    refine ⟨?_, hn⟩
    show 0 + 4 ≤ t.n
    omega
  have hhigh : Inside n₀ .stamp ⟨4, 4, t.n⟩ := ⟨h8, hn⟩
  unfold tracedStampSync
  rw [if_neg (by omega)]
  exact ((does_enter t .stamp).trans (does_storeU32 hlow)).trans (does_storeU32 hhigh)

theorem tracedFixUps_does {n₀ : Nat} (sync : VBLockSync) (t : Traced Part) (fix stamp : Nat)
    (hn : t.n ≤ n₀) : Does (Inside n₀) t (tracedFixUps sync t fix stamp) := by
  have hrepair : Does (Inside n₀) t (if fix ≠ 0 then tracedRepairComplement t else t) ∧
      (if fix ≠ 0 then tracedRepairComplement t else t).n = t.n := by
    split
    · exact ⟨tracedRepairComplement_does hn, tracedRepairComplement_n t⟩
    · exact ⟨Does.refl t, rfl⟩
  unfold tracedFixUps
  dsimp only
  generalize (if fix ≠ 0 then tracedRepairComplement t else t) = t₁ at hrepair ⊢
  obtain ⟨hdoes, hlen⟩ := hrepair
  split
  · next h => exact hdoes.trans (tracedStampSync_does sync _ _ (hlen ▸ hn) h.2)
  · exact hdoes

theorem tracedMutate_does (sync : VBLockSync) (t : Traced Part) (oRng : Rng) (hpos : 0 < t.n) :
    Does (Inside t.n) t (tracedMutate sync t oRng).1 := by
  have hops := mutateOps_n (1 + (oRng.below 4).1) (wireOf t) (oRng.below 4).2 hpos
  rw [← (wireOf_mutateOps _ t _).1, wireOf_n, wireOf_n] at hops
  exact (tracedMutateOps_does _ t _ hpos (Nat.le_refl _)).trans
    (tracedFixUps_does sync _ _ _ hops.2)

/-! ## Section 4: The re-stamp -/

theorem entered_applyOp (t : Traced Part) (off : Nat) (oRng : Rng) (op : Nat) :
    (tracedApplyOp t off oRng op).1.entered = t.entered := by
  match op with
  | 0 => exact (Traced.entered_store _ _ _).trans (Traced.entered_load _ _)
  | 1 => exact Traced.entered_store _ _ _
  | 2 =>
    by_cases hroom : off + 4 ≤ t.n
    · have hop : tracedApplyOp t off oRng 2 = _ := if_pos hroom
      rw [hop]
      exact Traced.entered_storeU32 _ _ _
    · have hop : tracedApplyOp t off oRng 2 = _ := if_neg hroom
      rw [hop]
  | 3 =>
    by_cases hroom : off + 2 ≤ t.n
    · have hop : tracedApplyOp t off oRng 3 = _ := if_pos hroom
      rw [hop]
      exact Traced.entered_storeU16 _ _ _
    · have hop : tracedApplyOp t off oRng 3 = _ := if_neg hroom
      rw [hop]
  | 4 => rfl
  | 5 => exact (Traced.entered_move _ _ _ _).trans (Traced.entered_test _ _)
  | _ + 6 => rfl

theorem stamp_mem_mutateOp (t : Traced Part) (oRng : Rng) :
    .stamp ∈ (tracedMutateOp t oRng).1.entered ↔ .stamp ∈ t.entered := by
  generalize hpick : pickOffset (wireOf t) oRng = off
  generalize hop : off.2.below 6 = op
  rw [tracedMutateOp_of_draws hpick hop, entered_applyOp, Traced.entered_enter]
  simp

/-- The operations are not the re-stamp. -/
theorem stamp_mem_mutateOps (k : Nat) (t : Traced Part) (oRng : Rng) :
    .stamp ∈ (tracedMutateOps k t oRng).1.entered ↔ .stamp ∈ t.entered := by
  induction k generalizing t oRng with
  | zero => exact Iff.rfl
  | succ k ih =>
    unfold tracedMutateOps
    split
    · exact (ih _ _).trans (stamp_mem_mutateOp t oRng)
    · exact Iff.rfl

theorem stamp_mem_repairComplement (t : Traced Part) :
    .stamp ∈ (tracedRepairComplement t).entered ↔ .stamp ∈ t.entered := by
  unfold tracedRepairComplement
  split
  · simp
  · simp

/-- Where the re-stamp runs, the wire declares its length and the sync words agree. -/
theorem tracedFixUps_stamp (sync : VBLockSync) (t : Traced Part) (fix stamp : Nat)
    (hn : t.n < 2 ^ 24) (hbefore : .stamp ∉ t.entered)
    (hstamp : .stamp ∈ (tracedFixUps sync t fix stamp).entered) :
    declaredOf (tracedFixUps sync t fix stamp).mem = (tracedFixUps sync t fix stamp).n ∧
      Complementary (tracedFixUps sync t fix stamp).mem := by
  have hrepair : .stamp ∉ (if fix ≠ 0 then tracedRepairComplement t else t).entered ∧
      (if fix ≠ 0 then tracedRepairComplement t else t).n = t.n := by
    split
    · exact ⟨fun h => hbefore ((stamp_mem_repairComplement t).mp h), tracedRepairComplement_n t⟩
    · exact ⟨hbefore, rfl⟩
  unfold tracedFixUps at hstamp ⊢
  dsimp only at hstamp ⊢
  generalize (if fix ≠ 0 then tracedRepairComplement t else t) = t₁ at hrepair hstamp ⊢
  by_cases hruns : stamp = 0 ∧ t₁.n ≥ 8
  · rw [if_pos hruns]
    have hwire := wireOf_stampSync sync t₁ t₁.n vblockAddr32
    have hmem : (tracedStampSync sync t₁ t₁.n vblockAddr32).mem =
        (stampSync sync (wireOf t₁) t₁.n vblockAddr32).b := congrArg Wire.b hwire
    have hlen : (tracedStampSync sync t₁ t₁.n vblockAddr32).n = t₁.n :=
      (congrArg Wire.n hwire).trans (stampSync_n _ _ _ _)
    have hsmall : t₁.n < 2 ^ 24 := by
      rw [hrepair.2]
      exact hn
    rw [hmem, hlen]
    exact ⟨declaredOf_stampSync sync (wireOf t₁) _ _ hruns.2 hsmall,
      complementary_stampSync sync (wireOf t₁) _ _ hruns.2⟩
  · rw [if_neg hruns] at hstamp
    exact absurd hstamp hrepair.1

/-! ## Section 5: The mutator stays inside the wire -/

/-- What a traced run of `Mutate` on a wire shows. -/
structure StaysInside (sync : VBLockSync) (w : Wire) (oRng : Rng) (t : Traced Part) : Prop where
  /-- It is the run of the mutator. -/
  run : wireOf t = (mutate sync w oRng).1
  /-- Every byte read or written is one of the current length, the length is never more
      than at the beginning, and the guard of the splice is true. -/
  accesses : ∀ e ∈ t.trace, e.Sat (Inside w.n)
  length : 1 ≤ t.n ∧ t.n ≤ w.n
  beyond : ∀ j, w.n ≤ j → t.mem j = w.b j
  stamped : .stamp ∈ t.entered → declaredOf t.mem = t.n ∧ Complementary t.mem

/-- The re-stamp, seen from the operations before it. -/
theorem stamped_of_ops (sync : VBLockSync) {w : Wire} {t t₁ : Traced Part} (fix stamp : Nat)
    (hmax : w.n ≤ kMaxWire) (hn : t₁.n ≤ w.n) (hfresh : t.entered = [])
    (hops : .stamp ∈ t₁.entered ↔ .stamp ∈ t.entered)
    (hstamp : .stamp ∈ (tracedFixUps sync t₁ fix stamp).entered) :
    declaredOf (tracedFixUps sync t₁ fix stamp).mem = (tracedFixUps sync t₁ fix stamp).n ∧
      Complementary (tracedFixUps sync t₁ fix stamp).mem := by
  have hsmall : kMaxWire < 2 ^ 24 := by decide
  refine tracedFixUps_stamp sync t₁ fix stamp (by omega) ?_ hstamp
  rw [hops, hfresh]
  exact List.not_mem_nil

/-- **The framing mutator stays inside the wire**, for every wire that is not empty and
    every state of the generator. -/
theorem mutate_stays_inside (sync : VBLockSync) (w : Wire) (oRng : Rng) (hpos : 1 ≤ w.n)
    (hmax : w.n ≤ kMaxWire) :
    StaysInside sync w oRng (tracedMutate sync (Traced.start .start w.b w.n) oRng).1 := by
  have hwire : wireOf (Traced.start .start w.b w.n) = w := rfl
  have hrun := (wireOf_mutate sync (Traced.start .start w.b w.n) oRng).1
  have hdoes := tracedMutate_does sync (Traced.start .start w.b w.n) oRng hpos
  have hops := mutateOps_n (1 + (oRng.below 4).1) w (oRng.below 4).2 hpos
  rw [← hwire, ← (wireOf_mutateOps _ (Traced.start .start w.b w.n) _).1, wireOf_n] at hops
  have hn := mutate_n sync w oRng hpos
  rw [hwire] at hrun
  rw [← hrun, wireOf_n] at hn
  refine ⟨hrun, hdoes.trace_sat, hn, ?_, ?_⟩
  · intro j hj
    refine hdoes.unchanged (k := w.n) ?_ hj
    intro part a ha
    exact ha.1.trans ha.2
  · exact stamped_of_ops sync _ _ hmax hops.2 (Traced.entered_start w.n .start w.b)
      (stamp_mem_mutateOps _ (Traced.start .start w.b w.n) _)

theorem mutate_stays_inside_short : StaysInside nativeSync ⟨fun _ => 0, 1⟩ ⟨7⟩
    (tracedMutate nativeSync (Traced.start .start (fun _ => 0) 1) ⟨7⟩).1 :=
  mutate_stays_inside nativeSync ⟨fun _ => 0, 1⟩ ⟨7⟩ (by decide) (by decide)

end FuzzFrame
