import MscsUnitTests.Lib.Bytes
import MscsUnitTests.Rng

/-! # The Block Harness: Blocks and their Mutation

    The input of `p2p_fuzzblock.cpp` is a `Block`: a signed login block, ack,
    relay attestation or revocation list. This module has the boundary up to which
    the parser of a target looks (`SignificantLen`, `DiffersWithin`) and the
    mutator.
-/

open ByteMem FuzzRng

namespace FuzzBlock

/-! ## Section 1: Targets and blocks -/

/-- The four parsers. -/
inductive Target where
  | login | ack | relay | revoke
  deriving DecidableEq

/-- The targets in the order of the loops. -/
def targets : List Target := [.login, .ack, .relay, .revoke]

/-- The enumerator's number. -/
def Target.index : Target → Nat
  | .login => 0
  | .ack => 1
  | .relay => 2
  | .revoke => 3

theorem mem_targets (t : Target) : t ∈ targets := by
  cases t <;> decide

/-- The largest input. -/
def kMaxBlock : Nat := 131072

/-- `Block`: the buffer `b`, of which the first `n` bytes are the block. -/
structure Block where
  b : Mem
  n : Nat

/-- The bytes of a block. -/
def Block.bytes (w : Block) : List UInt8 :=
  firstBytes w.b w.n

@[simp] theorem Block.bytes_length (w : Block) : w.bytes.length = w.n := by
  simp [Block.bytes]

/-- The lengths of `P2PAuthLogin.h`. The relay block has its address length in its
    fixed part, the revocation list its count. -/
structure AuthLayout where
  kAuthLoginLen : Nat
  kAuthAckLen : Nat
  kRelayFixedLen : Nat
  kRelayAttesterMax : Nat
  kRevFixedLen : Nat
  relayHeader : 5 ≤ kRelayFixedLen
  revHeader : 13 ≤ kRevFixedLen

/-! ## Section 2: The significant length -/

/-- `SignificantLen`: how much of a block the parser of the target looks at. -/
def significantLen (K : AuthLayout) : Target → Block → Nat
  | .login, _ => K.kAuthLoginLen
  | .ack, _ => K.kAuthAckLen
  | .relay, oOrig =>
    if oOrig.n < K.kRelayFixedLen then oOrig.n
    else
      let cbAddr := rdBE16 oOrig.b 3
      let nLen := K.kRelayFixedLen + cbAddr
      if nLen < oOrig.n then nLen else oOrig.n
  | .revoke, oOrig => oOrig.n

/-- `DiffersWithin`: did the mutation touch anything the parser reads? -/
def differsWithin (a b : Block) (nSig : Nat) : Bool :=
  let nA := if a.n < nSig then a.n else nSig
  let nB := if b.n < nSig then b.n else nSig
  if nA ≠ nB then true else firstBytes a.b nA != firstBytes b.b nA

/-- Two blocks do not differ when they have the same bytes up to the boundary. -/
theorem differsWithin_eq_false_iff (a b : Block) (nSig : Nat) :
    differsWithin a b nSig = false ↔ a.bytes.take nSig = b.bytes.take nSig := by
  have hA : (if a.n < nSig then a.n else nSig) = min nSig a.n := by
    split <;> omega
  have hB : (if b.n < nSig then b.n else nSig) = min nSig b.n := by
    split <;> omega
  unfold differsWithin Block.bytes
  dsimp only
  rw [hA, hB, firstBytes_take, firstBytes_take]
  -- with different lengths inside the boundary, the lists have different lengths
  by_cases hn : min nSig a.n = min nSig b.n
  · rw [if_neg (not_not.mpr hn), bne_eq_false_iff_eq, hn]
  · rw [if_pos hn]
    constructor
    · intro h
      cases h
    · intro h
      apply absurd _ hn
      have hlen := congrArg List.length h
      simpa only [firstBytes_length] using hlen

/-! ## Section 3: The mutator -/

/-- `kInteresting8`: the last four are letters of the magics. -/
def kInteresting8 : List UInt8 :=
  [0x00, 0x01, 0x02, 0x7F, 0x80, 0xFE, 0xFF, 0x50, 0x41, 0x52, 0x56]

/-- `kInterestingBE16`. -/
def kInterestingBE16 : List Nat :=
  [0, 1, 2, 255, 256, 4095, 4096, 4097, 0x7FFF, 0x8000, 0xFFFF]

/-- Where an operation lands: biased at the head. -/
def pickOffset (w : Block) (oRng : Rng) : Nat × Rng :=
  let nSpan := if w.n < 16 then w.n else 16
  let bias := oRng.below 10
  if bias.1 < 7 then bias.2.below nSpan else bias.2.below w.n

/-- The loop that appends junk, from offset `o` on. -/
def appendJunk : Nat → Mem → Nat → Rng → Mem × Rng
  | 0, m, _, oRng => (m, oRng)
  | k + 1, m, o, oRng =>
    let junk := oRng.below 256
    appendJunk k (Function.update m o (UInt8.ofNat junk.1)) (o + 1) junk.2

/-- The `switch` of `Mutate`. -/
def applyOp (w : Block) (off : Nat) (oRng : Rng) : Nat → Block × Rng
  | 0 => -- bit flip
    let bit := oRng.below 8
    ({ w with b := Function.update w.b off (w.b off ^^^ UInt8.ofNat (1 <<< bit.1)) }, bit.2)
  | 1 => -- interesting byte
    let pick := oRng.below kInteresting8.length
    ({ w with b := Function.update w.b off (kInteresting8.getD pick.1 0) }, pick.2)
  | 2 => -- interesting big-endian word
    if off + 2 ≤ w.n then
      let pick := oRng.below kInterestingBE16.length
      ({ w with b := wrBE16 w.b off (kInterestingBE16.getD pick.1 0) }, pick.2)
    else (w, oRng)
  | 3 => -- truncate
    let cut := oRng.below w.n
    ({ w with n := 1 + cut.1 }, cut.2)
  | 4 => -- extend with junk, if there is room for it
    let add := oRng.below 64
    let nAdd := 1 + add.1
    if w.n + nAdd ≤ kMaxBlock then
      let junk := appendJunk nAdd w.b w.n add.2
      (⟨junk.1, w.n + nAdd⟩, junk.2)
    else (w, add.2)
  | 5 => -- splice a run over itself
    let run := oRng.below (w.n - off)
    let nRun := 1 + run.1
    let src := run.2.below (w.n - nRun + 1)
    let len := if off + nRun ≤ w.n then nRun else w.n - off
    ({ w with b := copyInto w.b off w.b src.1 len }, src.2)
  | _ => (w, oRng)

/-- One pass of the operation loop of `Mutate`. -/
def mutateOp (w : Block) (oRng : Rng) : Block × Rng :=
  let off := pickOffset w oRng
  let op := off.2.below 6
  applyOp w off.1 op.2 op.1

/-- The operation loop: it also stops on an empty block. -/
def mutateOps : Nat → Block → Rng → Block × Rng
  | 0, w, oRng => (w, oRng)
  | k + 1, w, oRng =>
    if w.n > 0 then mutateOps k (mutateOp w oRng).1 (mutateOp w oRng).2 else (w, oRng)

/-- `Mutate`: one to four operations. -/
def mutate (w : Block) (oRng : Rng) : Block × Rng :=
  let nOps := oRng.below 4
  mutateOps (1 + nOps.1) w nOps.2

end FuzzBlock
