import MscsUnitTests.Lib.Bytes
import MscsUnitTests.Rng

/-! # The Framing Harness: Wires and their Mutation

    The input of `p2p_fuzzframe.cpp` is a `Wire`: a fixed buffer and the number
    of bytes of it that the peer sends. This module has the header arithmetic on
    a wire (`DeclaredOf`, `StampSync`, `RepairComplement`) and the mutator.
-/

open ByteMem FuzzRng

namespace FuzzFrame

/-! ## Section 1: Wires -/

/-- The size of the wire buffer. -/
def kMaxWire : Nat := 66560

/-- `Wire`: the buffer `b`, of which the first `n` bytes are sent. -/
structure Wire where
  b : Mem
  n : Nat

/-- The bytes the peer sends. -/
def Wire.bytes (w : Wire) : List UInt8 :=
  firstBytes w.b w.n

@[simp] theorem Wire.bytes_length (w : Wire) : w.bytes.length = w.n := by
  simp [Wire.bytes]

/-- Two wires send the same bytes when they agree below their common length. -/
theorem Wire.bytes_eq_iff (w w' : Wire) :
    w.bytes = w'.bytes ↔ w.n = w'.n ∧ ∀ i < w.n, w.b i = w'.b i := by
  constructor
  · intro h
    have hn : w.n = w'.n := by
      have := congrArg List.length h
      simpa using this
    refine ⟨hn, ?_⟩
    unfold Wire.bytes at h
    rw [← hn] at h
    exact (firstBytes_eq_iff _ _ _).mp h
  · rintro ⟨hn, hb⟩
    unfold Wire.bytes
    rw [← hn]
    exact (firstBytes_eq_iff _ _ _).mpr hb

/-! ## Section 2: The sync header -/

/-- `SyncSizeof`: `sizeof(VBListIOmage::oSync)`. -/
def syncSizeof : Nat := 8

/-- `VBLock_Addr32`, the addressing mode every stamped header carries. -/
def vblockAddr32 : Nat := 2

/-- `VBLock_SyncMake` of the message library: a sync word that has the size in
    its low 24 bits, whatever the addressing mode puts above them. -/
structure VBLockSync where
  make : Nat → Nat → Nat
  make_lt : ∀ n t, make n t < 2 ^ 32
  make_size : ∀ n t, n < 2 ^ 24 → make n t % 2 ^ 24 = n

/-- The words of the current generation: code `0xA4`, addressing mode in the two
    low bits of the top byte. -/
def nativeSync : VBLockSync where
  make n t := n % 2 ^ 24 + 2 ^ 24 * (0xA4 + t % 4)
  make_lt n t := by omega
  make_size n t h := by omega

/-- `DeclaredOf`: the low 24 bits of the first sync word. -/
def declaredOf (pHdr : Mem) : Nat :=
  rdU32 pHdr 0 % 2 ^ 24

/-- The second sync word is the complement of the first. -/
def Complementary (pHdr : Mem) : Prop :=
  rdU32 pHdr 4 = notU32 (rdU32 pHdr 0)

instance (pHdr : Mem) : Decidable (Complementary pHdr) :=
  inferInstanceAs (Decidable (_ = _))

/-- `StampSync`: write an honest header for `nSizeof`. -/
def stampSync (sync : VBLockSync) (w : Wire) (nSizeof uAddrType : Nat) : Wire :=
  if w.n < 8 then w
  else
    let s1 := sync.make nSizeof uAddrType
    { w with b := wrU32 (wrU32 w.b 0 s1) 4 (notU32 s1) }

/-- `RepairComplement`: make the second word the complement of the first. -/
def repairComplement (w : Wire) : Wire :=
  if w.n ≥ 8 then { w with b := wrU32 w.b 4 (notU32 (rdU32 w.b 0)) } else w

@[simp] theorem stampSync_n (sync : VBLockSync) (w : Wire) (nSizeof uAddrType : Nat) :
    (stampSync sync w nSizeof uAddrType).n = w.n := by
  unfold stampSync
  split <;> rfl

@[simp] theorem repairComplement_n (w : Wire) : (repairComplement w).n = w.n := by
  unfold repairComplement
  split <;> rfl

theorem declaredOf_congr {m m' : Mem} (h : ∀ i < 4, m i = m' i) :
    declaredOf m = declaredOf m' := by
  unfold declaredOf
  rw [rdU32_congr m m' 0 (fun i _ hi => h i (by omega))]

theorem complementary_congr {m m' : Mem} (h : ∀ i < 8, m i = m' i) :
    Complementary m ↔ Complementary m' := by
  unfold Complementary
  rw [rdU32_congr m m' 0 (fun i _ hi => h i (by omega)),
    rdU32_congr m m' 4 (fun i _ hi => h i (by omega))]

/-- A stamped header declares the size it was stamped with. -/
theorem declaredOf_stampSync (sync : VBLockSync) (w : Wire) (nSizeof uAddrType : Nat)
    (hw : 8 ≤ w.n) (hs : nSizeof < 2 ^ 24) :
    declaredOf (stampSync sync w nSizeof uAddrType).b = nSizeof := by
  have hlt : ¬ w.n < 8 := by omega
  simp only [stampSync, if_neg hlt, declaredOf]
  -- the second word is written behind the first
  rw [rdU32_wrU32_ne _ _ _ _ (by omega), rdU32_wrU32 _ _ _ (sync.make_lt _ _)]
  exact sync.make_size nSizeof uAddrType hs

/-- A stamped header passes the complement gate. -/
theorem complementary_stampSync (sync : VBLockSync) (w : Wire) (nSizeof uAddrType : Nat)
    (hw : 8 ≤ w.n) : Complementary (stampSync sync w nSizeof uAddrType).b := by
  have hlt : ¬ w.n < 8 := by omega
  simp only [stampSync, if_neg hlt, Complementary]
  rw [rdU32_wrU32 _ _ _ (by unfold notU32; omega), rdU32_wrU32_ne _ _ _ _ (by omega),
    rdU32_wrU32 _ _ _ (sync.make_lt _ _)]

/-! ## Section 3: The mutator -/

/-- `kInteresting8`. -/
def kInteresting8 : List UInt8 :=
  [0x00, 0x01, 0x02, 0x08, 0x09, 0x7F, 0x80, 0xFE, 0xFF]

/-- `kInteresting32`. -/
def kInteresting32 : List Nat :=
  [0, 1, 4, 8, 9, 10, 0x0000FFFF, 0x00FFFFFF, 0x00FFFFFE,
   32767, 32768, 32769, 0x7FFFFFFF, 0x80000000, 0xFFFFFFFF]

/-- Where an operation lands: biased at the structural head. -/
def pickOffset (w : Wire) (oRng : Rng) : Nat × Rng :=
  let nSpan := if w.n < 64 then w.n else 64
  let bias := oRng.below 10
  if bias.1 < 7 then bias.2.below nSpan else bias.2.below w.n

/-- The `switch` of `Mutate`. -/
def applyOp (w : Wire) (off : Nat) (oRng : Rng) : Nat → Wire × Rng
  | 0 => -- bit flip
    let bit := oRng.below 8
    ({ w with b := Function.update w.b off (w.b off ^^^ UInt8.ofNat (1 <<< bit.1)) }, bit.2)
  | 1 => -- interesting byte
    let pick := oRng.below kInteresting8.length
    ({ w with b := Function.update w.b off (kInteresting8.getD pick.1 0) }, pick.2)
  | 2 => -- interesting dword
    if off + 4 ≤ w.n then
      let pick := oRng.below kInteresting32.length
      ({ w with b := wrU32 w.b off (kInteresting32.getD pick.1 0) }, pick.2)
    else (w, oRng)
  | 3 => -- interesting word: the low half of the value, as `unsigned short`
    if off + 2 ≤ w.n then
      let pick := oRng.below kInteresting32.length
      let v := kInteresting32.getD pick.1 0
      let lo := Function.update w.b off (UInt8.ofNat v)
      ({ w with b := Function.update lo (off + 1) (UInt8.ofNat (v / 256)) }, pick.2)
    else (w, oRng)
  | 4 => -- truncate the stream
    let cut := oRng.below w.n
    ({ w with n := 1 + cut.1 }, cut.2)
  | 5 => -- splice a run over itself
    let run := oRng.below (w.n - off)
    let nRun := 1 + run.1
    let src := run.2.below (w.n - nRun + 1)
    let len := if off + nRun ≤ w.n then nRun else w.n - off
    ({ w with b := copyInto w.b off w.b src.1 len }, src.2)
  | _ => (w, oRng)

/-- One pass of the operation loop of `Mutate`. -/
def mutateOp (w : Wire) (oRng : Rng) : Wire × Rng :=
  let off := pickOffset w oRng
  let op := off.2.below 6
  applyOp w off.1 op.2 op.1

/-- The operation loop: it also stops on an empty wire. -/
def mutateOps : Nat → Wire → Rng → Wire × Rng
  | 0, w, oRng => (w, oRng)
  | k + 1, w, oRng =>
    if w.n > 0 then mutateOps k (mutateOp w oRng).1 (mutateOp w oRng).2 else (w, oRng)

/-- `Mutate`: one to four operations, then the two fix-up steps. -/
def mutate (sync : VBLockSync) (w : Wire) (oRng : Rng) : Wire × Rng :=
  let nOps := oRng.below 4
  let ops := mutateOps (1 + nOps.1) w nOps.2
  let fix := ops.2.below 4
  -- three times in four the complement is repaired, else nothing gets past stage 1
  let w₁ := if fix.1 ≠ 0 then repairComplement ops.1 else ops.1
  let stamp := fix.2.below 3
  (if stamp.1 = 0 ∧ w₁.n ≥ 8 then stampSync sync w₁ w₁.n vblockAddr32 else w₁, stamp.2)

/-- One operation shortens a wire or leaves its length alone, and never empties it. -/
theorem applyOp_n (w : Wire) (off op : Nat) (oRng : Rng) (hw : 0 < w.n) :
    0 < (applyOp w off oRng op).1.n ∧ (applyOp w off oRng op).1.n ≤ w.n := by
  unfold applyOp
  split
  · exact ⟨hw, Nat.le_refl _⟩
  · exact ⟨hw, Nat.le_refl _⟩
  · split <;> exact ⟨hw, Nat.le_refl _⟩
  · split <;> exact ⟨hw, Nat.le_refl _⟩
  · -- the truncation is the only operation that moves the length
    have hcut := Rng.below_lt oRng hw
    dsimp only
    omega
  · exact ⟨hw, Nat.le_refl _⟩
  · exact ⟨hw, Nat.le_refl _⟩

theorem mutateOp_n (w : Wire) (oRng : Rng) (hw : 0 < w.n) :
    0 < (mutateOp w oRng).1.n ∧ (mutateOp w oRng).1.n ≤ w.n :=
  applyOp_n w _ _ _ hw

theorem mutateOps_n (k : Nat) (w : Wire) (oRng : Rng) (hw : 0 < w.n) :
    0 < (mutateOps k w oRng).1.n ∧ (mutateOps k w oRng).1.n ≤ w.n := by
  induction k generalizing w oRng with
  | zero => exact ⟨hw, Nat.le_refl _⟩
  | succ k ih =>
    -- an operation never empties the wire, so the loop does not stop early
    have hop := mutateOp_n w oRng hw
    have hrest := ih (mutateOp w oRng).1 (mutateOp w oRng).2 hop.1
    rw [mutateOps, if_pos hw]
    omega

/-- A mutant is never empty and never longer than its case. -/
theorem mutate_n (sync : VBLockSync) (w : Wire) (oRng : Rng) (hw : 0 < w.n) :
    0 < (mutate sync w oRng).1.n ∧ (mutate sync w oRng).1.n ≤ w.n := by
  have h := mutateOps_n (1 + (oRng.below 4).1) w (oRng.below 4).2 hw
  unfold mutate
  dsimp only
  split <;> split <;> simpa using h

theorem mutate_le (sync : VBLockSync) (w : Wire) (oRng : Rng) : (mutate sync w oRng).1.n ≤ w.n := by
  rcases Nat.eq_zero_or_pos w.n with h0 | hpos
  · -- the operation loop does nothing on an empty wire, and the fix-ups keep the length
    have hops : ∀ k oRng, (mutateOps (k + 1) w oRng).1 = w := by
      intro k oRng
      rw [mutateOps, if_neg (by omega)]
    unfold mutate
    dsimp only
    rw [Nat.add_comm 1, hops]
    split <;> split <;> simp
  · exact (mutate_n sync w oRng hpos).2

end FuzzFrame
