import MscsUnitTests.Block.Access
import MscsUnitTests.Block.Script
import MscsUnitTests.Frame.Access
import MscsUnitTests.Frame.Bounds
import MscsUnitTests.Frame.Delivery
import MscsUnitTests.Lib.Drawn

/-! # The Mutators: What a Mutation Depends On

    A finding is recorded as a seed, a case and an iteration. On another build the base
    frame may have other bytes, and the record is worth something there because neither
    `Mutate` looks at them: what it does is drawn from the generator and the length.

    How a framing mutant is then split into reads is another matter. The generator is the
    same, but a read is a part of what the parser asks for, and the parser asks for what
    the header declares.
-/

open ByteMem BoundedLoop DrawnSteps EditScript FuzzRng

namespace FuzzFrame

/-! ## Section 1: The script of a framing mutation -/

/-- What `applyOp` draws, by the length. -/
def drawnBy (n off : Nat) (oRng : Rng) : Nat → List Nat × Rng
  | 0 => ([(oRng.below 8).1], (oRng.below 8).2)
  | 1 => ([(oRng.below kInteresting8.length).1], (oRng.below kInteresting8.length).2)
  | 2 =>
    if off + 4 ≤ n then
      ([(oRng.below kInteresting32.length).1], (oRng.below kInteresting32.length).2)
    else ([], oRng)
  | 3 =>
    if off + 2 ≤ n then
      ([(oRng.below kInteresting32.length).1], (oRng.below kInteresting32.length).2)
    else ([], oRng)
  | 4 => ([(oRng.below n).1], (oRng.below n).2)
  | 5 =>
    let run := oRng.below (n - off)
    let src := run.2.below (n - (1 + run.1) + 1)
    ([run.1, src.1], src.2)
  | _ => ([], oRng)

/-- What a step makes of a wire. -/
def perform (w : Wire) (s : Step) : Wire :=
  match s.op, s.drawn with
  | 0, [bit] => { w with b := Function.update w.b s.off (w.b s.off ^^^ UInt8.ofNat (1 <<< bit)) }
  | 1, [pick] => { w with b := Function.update w.b s.off (kInteresting8.getD pick 0) }
  | 2, [pick] => { w with b := wrU32 w.b s.off (kInteresting32.getD pick 0) }
  | 3, [pick] =>
    let v := kInteresting32.getD pick 0
    let lo := Function.update w.b s.off (UInt8.ofNat v)
    { w with b := Function.update lo (s.off + 1) (UInt8.ofNat (v / 256)) }
  | 4, [cut] => { w with n := 1 + cut }
  | 5, [run, src] =>
    let len := if s.off + (1 + run) ≤ w.n then 1 + run else w.n - s.off
    { w with b := copyInto w.b s.off w.b src len }
  | _, _ => w

/-- The length it leaves. -/
def stepLen (n : Nat) (s : Step) : Nat :=
  match s.op, s.drawn with
  | 4, [cut] => 1 + cut
  | _, _ => n

theorem perform_n (w : Wire) (s : Step) : (perform w s).n = stepLen w.n s := by
  obtain ⟨op, off, drawn⟩ := s
  unfold perform stepLen
  dsimp only
  split <;> split <;> simp_all

/-- An operation is the step it has drawn. -/
theorem applyOp_eq_perform (w : Wire) (off : Nat) (oRng : Rng) (op : Nat) :
    applyOp w off oRng op =
      (perform w ⟨op, off, (drawnBy w.n off oRng op).1⟩, (drawnBy w.n off oRng op).2) := by
  match op with
  | 0 => rfl
  | 1 => rfl
  | 2 =>
    by_cases hroom : off + 4 ≤ w.n
    · have hop : applyOp w off oRng 2 = _ := if_pos hroom
      have hdraw : drawnBy w.n off oRng 2 = _ := if_pos hroom
      rw [hop, hdraw]
      rfl
    · have hop : applyOp w off oRng 2 = _ := if_neg hroom
      have hdraw : drawnBy w.n off oRng 2 = _ := if_neg hroom
      rw [hop, hdraw]
      rfl
  | 3 =>
    by_cases hroom : off + 2 ≤ w.n
    · have hop : applyOp w off oRng 3 = _ := if_pos hroom
      have hdraw : drawnBy w.n off oRng 3 = _ := if_pos hroom
      rw [hop, hdraw]
      rfl
    · have hop : applyOp w off oRng 3 = _ := if_neg hroom
      have hdraw : drawnBy w.n off oRng 3 = _ := if_neg hroom
      rw [hop, hdraw]
      rfl
  | 4 => rfl
  | 5 => rfl
  | _ + 6 => rfl

/-- `pickOffset`, from the length alone. -/
def drawOffset (n : Nat) (oRng : Rng) : Nat × Rng :=
  let nSpan := if n < 64 then n else 64
  let bias := oRng.below 10
  if bias.1 < 7 then bias.2.below nSpan else bias.2.below n

theorem pickOffset_eq (w : Wire) (oRng : Rng) : pickOffset w oRng = drawOffset w.n oRng := rfl

/-- What one pass of the operation loop draws. -/
def framing_picks : PicksByLength Wire.n mutateOp where
  offset := drawOffset
  op := fun oRng => oRng.below 6
  apply := applyOp
  drawnBy := drawnBy
  perform := perform
  newLen := stepLen
  body_of_draws := by
    intro w oRng off op hoff hop
    exact mutateOp_of_draws ((pickOffset_eq w oRng).trans hoff) hop
  apply_eq := applyOp_eq_perform
  len_perform := perform_n

/-- The operation loop draws by the length. -/
def framing_drawn : DrawsByLength Wire.n mutateOp := framing_picks.toDrawsByLength

theorem mutateOps_eq_loop (k : Nat) (w : Wire) (oRng : Rng) :
    mutateOps k w oRng = loop Wire.n mutateOp k w oRng := by
  induction k generalizing w oRng with
  | zero => rfl
  | succ k ih =>
    unfold mutateOps loop
    rw [ih]

/-- All that `Mutate` draws: the steps, and the two draws behind them. -/
structure MutateScript where
  steps : List Step
  /-- `Below(4)`: zero leaves the complement as it is. -/
  fix : Nat
  /-- `Below(3)`: zero stamps the size. -/
  stamp : Nat
  deriving DecidableEq

/-- The script of a mutation, and the generator it leaves. -/
def mutateScript (n : Nat) (oRng : Rng) : MutateScript × Rng :=
  let nOps := oRng.below 4
  let ops := framing_drawn.script (1 + nOps.1) n nOps.2
  let fix := ops.2.below 4
  let stamp := fix.2.below 3
  (⟨ops.1, fix.1, stamp.1⟩, stamp.2)

/-- The two fix-up steps. -/
def fixUps (sync : VBLockSync) (w : Wire) (fix stamp : Nat) : Wire :=
  let w₁ := if fix ≠ 0 then repairComplement w else w
  if stamp = 0 ∧ w₁.n ≥ 8 then stampSync sync w₁ w₁.n vblockAddr32 else w₁

/-- What a script makes of a wire. -/
def MutateScript.run (sync : VBLockSync) (s : MutateScript) (w : Wire) : Wire :=
  fixUps sync (s.steps.foldl perform w) s.fix s.stamp

theorem fixUps_n (sync : VBLockSync) (w : Wire) (fix stamp : Nat) :
    (fixUps sync w fix stamp).n = w.n := by
  unfold fixUps
  dsimp only
  split <;> split <;> simp

theorem mutateScript_of_draws {n : Nat} {oRng : Rng} {nOps fix stamp : Nat × Rng}
    {ops : List Step × Rng} (hnOps : oRng.below 4 = nOps)
    (hops : framing_drawn.script (1 + nOps.1) n nOps.2 = ops) (hfix : ops.2.below 4 = fix)
    (hstamp : fix.2.below 3 = stamp) :
    mutateScript n oRng = (⟨ops.1, fix.1, stamp.1⟩, stamp.2) := by
  rw [← hstamp, ← hfix, ← hops, ← hnOps]
  rfl

theorem mutate_of_draws {sync : VBLockSync} {w : Wire} {oRng : Rng} {nOps fix stamp : Nat × Rng}
    {ops : Wire × Rng} (hnOps : oRng.below 4 = nOps)
    (hops : mutateOps (1 + nOps.1) w nOps.2 = ops) (hfix : ops.2.below 4 = fix)
    (hstamp : fix.2.below 3 = stamp) :
    mutate sync w oRng = (fixUps sync ops.1 fix.1 stamp.1, stamp.2) := by
  rw [← hstamp, ← hfix, ← hops, ← hnOps]
  rfl

theorem scripted_of_draws {sync : VBLockSync} {w : Wire} {oRng : Rng}
    {nOps fix stamp : Nat × Rng} {script : List Step × Rng} (hnOps : oRng.below 4 = nOps)
    (hscript : framing_drawn.script (1 + nOps.1) w.n nOps.2 = script)
    (hfix : script.2.below 4 = fix) (hstamp : fix.2.below 3 = stamp) :
    mutate sync w oRng =
      ((mutateScript w.n oRng).1.run sync w, (mutateScript w.n oRng).2) := by
  have hops : mutateOps (1 + nOps.1) w nOps.2 = (script.1.foldl perform w, script.2) := by
    rw [mutateOps_eq_loop, framing_drawn.loop_eq, hscript]
    rfl
  rw [mutateScript_of_draws hnOps hscript hfix hstamp]
  exact mutate_of_draws hnOps hops hfix hstamp

/-- **The mutator runs its script.** -/
theorem mutate_eq_script (sync : VBLockSync) (w : Wire) (oRng : Rng) :
    mutate sync w oRng =
      ((mutateScript w.n oRng).1.run sync w, (mutateScript w.n oRng).2) :=
  scripted_of_draws rfl rfl rfl rfl

theorem MutateScript.run_n (sync : VBLockSync) (s : MutateScript) (w : Wire) :
    (s.run sync w).n = s.steps.foldl stepLen w.n := by
  have hlen := framing_drawn.len_foldl s.steps w
  unfold MutateScript.run
  rw [fixUps_n]
  exact hlen

/-! ## Section 2: The split into reads -/

/-- Reads: how long each was, what is left of the wire, and the generator. -/
structure Reads where
  sizes : List Nat
  left : Nat
  oRng : Rng

/-- The next read, when the parser asks for so many bytes. -/
def Reads.next (bSplit : Bool) (r : Reads) (asked : Nat) : Reads :=
  let n := takeLen bSplit (min asked r.left) r.oRng
  ⟨r.sizes ++ [n.1], r.left - n.1, n.2⟩

/-- The reads of a wire of `n` bytes, by what the parser asks for in turn. -/
def readsOf (bSplit : Bool) (n : Nat) (oRng : Rng) (asked : List Nat) : Reads :=
  asked.foldl (Reads.next bSplit) ⟨[], n, oRng⟩

section reads
variable {σ : Type} {p : Parser σ} {oWire : Wire} {bSplit : Bool}

/-- **Split invariant**: the completions so far are the reads that the generator and the
    length make of what was asked for. -/
structure SplitBy (oWire : Wire) (bSplit : Bool) (oRng : Rng) (st : DriveState σ) : Prop where
  fed_le : st.nFed ≤ oWire.n
  reads : readsOf bSplit oWire.n oRng (st.chunks.map Chunk.asked) =
    ⟨st.chunks.map fun c => c.bytes.length, oWire.n - st.nFed, st.oRng⟩

theorem deliver_splitBy {oRng : Rng} (hw : oWire.n < 2 ^ 32) {st st' : DriveState σ}
    (hst : SplitBy oWire bSplit oRng st) (h : deliver oWire bSplit st = some st') :
    SplitBy oWire bSplit oRng st' := by
  have hfed := deliver_nFed hw hst.fed_le h
  obtain ⟨dst, nWant, n, _, _, hn, rfl⟩ := deliver_eq_some h
  refine ⟨hfed, ?_⟩
  rw [u32Sub_of_le hw hst.fed_le] at hn
  have hreads := hst.reads
  unfold readsOf at hreads ⊢
  dsimp only
  rw [List.map_append, List.foldl_append, hreads, List.map_append]
  simp only [List.map_cons, List.map_nil, List.foldl_cons, List.foldl_nil, Reads.next, ← hn,
    firstBytes_length, Nat.sub_sub]

/-- **Step lemma**: a turn keeps the invariant, whether it goes on or ends the loop. -/
theorem driveTurn_splitBy {oRng : Rng} (hw : oWire.n < 2 ^ 32) (st : DriveState σ)
    (hst : SplitBy oWire bSplit oRng st) :
    (driveTurn p oWire bSplit st).Meets (fun q => SplitBy oWire bSplit oRng q.2)
      (SplitBy oWire bSplit oRng) := by
  have hcall : SplitBy oWire bSplit oRng (afterCall p st) := ⟨hst.fed_le, hst.reads⟩
  cases hturn : driveTurn p oWire bSplit st with
  | again st₂ =>
    rcases onTurn_again hturn with ⟨_, st₁, _, _, hd, rfl⟩ | ⟨_, _, rfl⟩
    · have h₁ := deliver_splitBy hw hcall hd
      exact ⟨h₁.fed_le, h₁.reads⟩
    · exact ⟨hcall.fed_le, hcall.reads⟩
  | stop q =>
    obtain ⟨e, st₂⟩ := q
    rcases onTurn_stop hturn with ⟨_, _, rfl⟩ | ⟨_, _, rfl⟩ | ⟨_, _, _, rfl⟩
    · exact hcall
    · exact ⟨hcall.fed_le, hcall.reads⟩
    · exact hcall

/-- **The split of a wire** into reads: by the generator, the length, and what the parser
    asks for. -/
theorem drive_reads (p : Parser σ) (io : σ) (oRng : Rng) (hw : oWire.n < 2 ^ 32) :
    (drive p io oWire oRng bSplit).chunks.map (fun c => c.bytes.length) =
      (readsOf bSplit oWire.n oRng
        ((drive p io oWire oRng bSplit).chunks.map Chunk.asked)).sizes := by
  have hstart : SplitBy oWire bSplit oRng (.start (p.fresh io) oRng) := ⟨Nat.zero_le _, rfl⟩
  have hrun := run_inv (driveTurn_splitBy (p := p) hw) kMaxTurns _ hstart
  unfold drive
  cases hexit : run (driveTurn p oWire bSplit) kMaxTurns (.start (p.fresh io) oRng) with
  | broke q =>
    rw [hexit] at hrun
    exact (congrArg Reads.sizes hrun.reads).symm
  | spent st =>
    rw [hexit] at hrun
    exact (congrArg Reads.sizes hrun.reads).symm

end reads

/-- A mutant driven with the generator that the mutation left. -/
def mutantDrive {σ : Type} (sync : VBLockSync) (p : Parser σ) (io : σ) (w : Wire) (oRng : Rng)
    (bSplit : Bool) : Driven σ :=
  let mutant := mutate sync w oRng
  drive p io mutant.1 mutant.2 bSplit

end FuzzFrame

namespace FuzzBlock

/-! ## Section 3: The script of a block mutation -/

/-- The junk of an extension, if there is room for it, behind its length. -/
def drawnJunk (n : Nat) (add : Nat × Rng) : List Nat × Rng :=
  if n + (1 + add.1) ≤ kMaxBlock then
    let junk := junkBytes (1 + add.1) add.2
    (add.1 :: junk.1.map UInt8.toNat, junk.2)
  else ([add.1], add.2)

/-- What `applyOp` draws, by the length. -/
def drawnBy (n off : Nat) (oRng : Rng) : Nat → List Nat × Rng
  | 0 => ([(oRng.below 8).1], (oRng.below 8).2)
  | 1 => ([(oRng.below kInteresting8.length).1], (oRng.below kInteresting8.length).2)
  | 2 =>
    if off + 2 ≤ n then
      ([(oRng.below kInterestingBE16.length).1], (oRng.below kInterestingBE16.length).2)
    else ([], oRng)
  | 3 => ([(oRng.below n).1], (oRng.below n).2)
  | 4 => drawnJunk n (oRng.below 64)
  | 5 =>
    let run := oRng.below (n - off)
    let src := run.2.below (n - (1 + run.1) + 1)
    ([run.1, src.1], src.2)
  | _ => ([], oRng)

/-- The block with junk behind it, if there is room. -/
def extend (w : Block) (add : Nat) (junk : List Nat) : Block :=
  if w.n + (1 + add) ≤ kMaxBlock then
    ⟨overlay w.b w.n (junk.map UInt8.ofNat), w.n + (1 + add)⟩
  else w

/-- The length of it. -/
def extendLen (n add : Nat) : Nat := if n + (1 + add) ≤ kMaxBlock then n + (1 + add) else n

theorem extend_n (w : Block) (add : Nat) (junk : List Nat) :
    (extend w add junk).n = extendLen w.n add := by
  unfold extend extendLen
  split <;> rfl

/-- What a step makes of a block. -/
def perform (w : Block) (s : Step) : Block :=
  match s.op, s.drawn with
  | 0, [bit] => { w with b := Function.update w.b s.off (w.b s.off ^^^ UInt8.ofNat (1 <<< bit)) }
  | 1, [pick] => { w with b := Function.update w.b s.off (kInteresting8.getD pick 0) }
  | 2, [pick] => { w with b := wrBE16 w.b s.off (kInterestingBE16.getD pick 0) }
  | 3, [cut] => { w with n := 1 + cut }
  | 4, add :: junk => extend w add junk
  | 5, [run, src] =>
    let len := if s.off + (1 + run) ≤ w.n then 1 + run else w.n - s.off
    { w with b := copyInto w.b s.off w.b src len }
  | _, _ => w

/-- The length it leaves. -/
def stepLen (n : Nat) (s : Step) : Nat :=
  match s.op, s.drawn with
  | 3, [cut] => 1 + cut
  | 4, add :: _ => extendLen n add
  | _, _ => n

theorem perform_n (w : Block) (s : Step) : (perform w s).n = stepLen w.n s := by
  obtain ⟨op, off, drawn⟩ := s
  unfold perform stepLen
  dsimp only
  split <;> split <;> simp_all [extend_n]

/-- The junk is the bytes that were drawn for it. -/
theorem appendJunk_eq_extend (w : Block) (add : Nat × Rng)
    (hroom : w.n + (1 + add.1) ≤ kMaxBlock) :
    ((⟨(appendJunk (1 + add.1) w.b w.n add.2).1, w.n + (1 + add.1)⟩ : Block),
      (appendJunk (1 + add.1) w.b w.n add.2).2) =
    (extend w add.1 ((junkBytes (1 + add.1) add.2).1.map UInt8.toNat),
      (junkBytes (1 + add.1) add.2).2) := by
  have hbytes : ((junkBytes (1 + add.1) add.2).1.map UInt8.toNat).map UInt8.ofNat =
      (junkBytes (1 + add.1) add.2).1 := by
    rw [List.map_map]
    exact (List.map_congr_left fun b _ => UInt8.ofNat_toNat).trans (List.map_id _)
  unfold extend
  rw [if_pos hroom, hbytes, appendJunk_eq]

theorem drawnBy_extend (n off : Nat) {oRng : Rng} {add : Nat × Rng}
    (hadd : oRng.below 64 = add) : drawnBy n off oRng 4 = drawnJunk n add := by
  unfold drawnBy
  rw [hadd]
  rfl

/-- The operation that extends the block. -/
theorem applyOp_drawnJunk (w : Block) (off : Nat) {oRng : Rng} {add : Nat × Rng}
    (hadd : oRng.below 64 = add) : ∃ junk, (drawnJunk w.n add).1 = add.1 :: junk ∧
      applyOp w off oRng 4 = (extend w add.1 junk, (drawnJunk w.n add).2) := by
  rw [applyOp_extend w off hadd]
  unfold drawnJunk
  by_cases hroom : w.n + (1 + add.1) ≤ kMaxBlock
  · rw [if_pos hroom, if_pos hroom]
    exact ⟨_, rfl, appendJunk_eq_extend w add hroom⟩
  · rw [if_neg hroom, if_neg hroom]
    refine ⟨[], rfl, ?_⟩
    unfold extend
    rw [if_neg hroom]

theorem perform_extend (w : Block) (off add : Nat) (junk : List Nat) :
    perform w ⟨4, off, add :: junk⟩ = extend w add junk := by
  unfold perform
  rfl

theorem applyOp_extend_eq_perform (w : Block) (off : Nat) {oRng : Rng} {add : Nat × Rng}
    (hadd : oRng.below 64 = add) : applyOp w off oRng 4 =
      (perform w ⟨4, off, (drawnBy w.n off oRng 4).1⟩, (drawnBy w.n off oRng 4).2) := by
  obtain ⟨junk, hdrawn, hop⟩ := applyOp_drawnJunk w off hadd
  rw [hop, drawnBy_extend w.n off hadd, hdrawn, perform_extend]

/-- An operation is the step it has drawn. -/
theorem applyOp_eq_perform (w : Block) (off : Nat) (oRng : Rng) (op : Nat) :
    applyOp w off oRng op =
      (perform w ⟨op, off, (drawnBy w.n off oRng op).1⟩, (drawnBy w.n off oRng op).2) := by
  match op with
  | 0 => rfl
  | 1 => rfl
  | 2 =>
    by_cases hroom : off + 2 ≤ w.n
    · have hop : applyOp w off oRng 2 = _ := if_pos hroom
      have hdraw : drawnBy w.n off oRng 2 = _ := if_pos hroom
      rw [hop, hdraw]
      rfl
    · have hop : applyOp w off oRng 2 = _ := if_neg hroom
      have hdraw : drawnBy w.n off oRng 2 = _ := if_neg hroom
      rw [hop, hdraw]
      rfl
  | 3 => rfl
  | 4 =>
    exact applyOp_extend_eq_perform w off rfl
  | 5 => rfl
  | _ + 6 => rfl

theorem pickOffset_eq (w : Block) (oRng : Rng) : pickOffset w oRng = planOffset w.n oRng := by
  unfold planOffset pickOffset
  rfl

/-- What one pass of the operation loop draws. -/
def block_picks : PicksByLength Block.n mutateOp where
  offset := planOffset
  op := fun oRng => oRng.below 6
  apply := applyOp
  drawnBy := drawnBy
  perform := perform
  newLen := stepLen
  body_of_draws := by
    intro w oRng off op hoff hop
    exact mutateOp_of_draws ((pickOffset_eq w oRng).trans hoff) hop
  apply_eq := applyOp_eq_perform
  len_perform := perform_n

/-- The operation loop draws by the length. -/
def block_drawn : DrawsByLength Block.n mutateOp := block_picks.toDrawsByLength

theorem mutateOps_eq_loop (k : Nat) (w : Block) (oRng : Rng) :
    mutateOps k w oRng = loop Block.n mutateOp k w oRng := by
  induction k generalizing w oRng with
  | zero => rfl
  | succ k ih =>
    unfold mutateOps loop
    rw [ih]

/-- The steps of a mutation, and the generator it leaves. -/
def mutateScript (n : Nat) (oRng : Rng) : List Step × Rng :=
  let nOps := oRng.below 4
  block_drawn.script (1 + nOps.1) n nOps.2

/-- **The mutator runs its script.** -/
theorem mutate_eq_script (w : Block) (oRng : Rng) :
    mutate w oRng =
      ((mutateScript w.n oRng).1.foldl perform w, (mutateScript w.n oRng).2) := by
  have hloop := block_drawn.loop_eq (1 + (oRng.below 4).1) w (oRng.below 4).2
  rw [← mutateOps_eq_loop] at hloop
  exact hloop

end FuzzBlock

/-! ## Section 4: What does not depend on the content -/

namespace Mutators

/-- Two runs of a mutator, by the script `s` that both perform: `run` is what a script
    makes of an input. -/
structure SameRun {σ τ : Type} (len : σ → Nat) (mutate : σ → Rng → σ × Rng) (run : τ → σ → σ)
    (s : τ) (w w' : σ) (oRng : Rng) : Prop where
  left : (mutate w oRng).1 = run s w
  right : (mutate w' oRng).1 = run s w'
  length : len (mutate w oRng).1 = len (mutate w' oRng).1
  rng : (mutate w oRng).2 = (mutate w' oRng).2

/-- What a mutation does not look at. -/
structure ContentFree : Prop where
  /-- Framing mutants: the same operations at the same places, with the same values. -/
  framing : ∀ (sync : FuzzFrame.VBLockSync) (w w' : FuzzFrame.Wire) (oRng : Rng), w.n = w'.n →
    SameRun FuzzFrame.Wire.n (FuzzFrame.mutate sync) (FuzzFrame.MutateScript.run sync)
      (FuzzFrame.mutateScript w.n oRng).1 w w' oRng
  /-- Block mutants, likewise. -/
  block : ∀ (w w' : FuzzBlock.Block) (oRng : Rng), w.n = w'.n →
    SameRun FuzzBlock.Block.n FuzzBlock.mutate (fun steps w => steps.foldl FuzzBlock.perform w)
      (FuzzBlock.mutateScript w.n oRng).1 w w' oRng
  /-- The split of a framing mutant: by the generator that the mutation left, the length of
      the mutant, and the numbers of bytes that the parser asks for. -/
  split : ∀ (sync : FuzzFrame.VBLockSync) (σ : Type) (p : FuzzFrame.Parser σ) (io : σ)
    (w : FuzzFrame.Wire) (oRng : Rng) (bSplit : Bool), w.n < 2 ^ 32 →
    (FuzzFrame.mutantDrive sync p io w oRng bSplit).chunks.map (fun c => c.bytes.length) =
      (FuzzFrame.readsOf bSplit (FuzzFrame.mutate sync w oRng).1.n
        (FuzzFrame.mutate sync w oRng).2
        ((FuzzFrame.mutantDrive sync p io w oRng bSplit).chunks.map
          FuzzFrame.Chunk.asked)).sizes

/-- **A mutation does not depend on the content**, and neither does the generator that
    the split of a mutant is drawn from. -/
theorem mutation_content_free : ContentFree where
  framing := by
    intro sync w w' oRng hn
    have hw := FuzzFrame.mutate_eq_script sync w oRng
    have hw' := FuzzFrame.mutate_eq_script sync w' oRng
    rw [← hn] at hw'
    refine ⟨congrArg Prod.fst hw, congrArg Prod.fst hw', ?_, ?_⟩
    · rw [hw, hw', FuzzFrame.MutateScript.run_n, FuzzFrame.MutateScript.run_n, hn]
    · rw [hw, hw']
  block := by
    intro w w' oRng hn
    have hw := FuzzBlock.mutate_eq_script w oRng
    have hw' := FuzzBlock.mutate_eq_script w' oRng
    rw [← hn] at hw'
    refine ⟨congrArg Prod.fst hw, congrArg Prod.fst hw', ?_, ?_⟩
    · have hlen := FuzzBlock.block_drawn.len_foldl (FuzzBlock.mutateScript w.n oRng).1 w
      have hlen' := FuzzBlock.block_drawn.len_foldl (FuzzBlock.mutateScript w.n oRng).1 w'
      rw [← hn] at hlen'
      rw [hw, hw']
      exact hlen.trans hlen'.symm
    · rw [hw, hw']
  split := by
    intro sync σ p io w oRng bSplit hw
    have hn : (FuzzFrame.mutate sync w oRng).1.n < 2 ^ 32 :=
      lt_of_le_of_lt (FuzzFrame.mutate_le sync w oRng) hw
    exact FuzzFrame.drive_reads p io _ hn

/-- A frame of sixteen bytes whose header declares `d`. -/
def declaring (d : Nat) : FuzzFrame.Wire :=
  FuzzFrame.stampSync FuzzFrame.nativeSync ⟨fun _ => 0, 16⟩ d FuzzFrame.vblockAddr32

/-- The sizes of the reads of its mutant in iteration 1 of `split_reads`, seed 1. -/
def readsDeclaring (d : Nat) : List Nat :=
  (FuzzFrame.mutantDrive FuzzFrame.nativeSync (FuzzFrame.framing 8 32768) () (declaring d)
    (Rng.seed (iterState 1 10 1)) true).chunks.map fun c => c.bytes.length

theorem readsDeclaring_twelve : readsDeclaring 12 = [8, 2, 1, 1, 1, 3] := by
  decide +kernel

theorem readsDeclaring_sixteen : readsDeclaring 16 = [8, 2, 5, 1] := by
  decide +kernel

/-- The reads are not fixed by the seed, the case, the iteration and the length: the parser
    asks for what is missing of the declared size, and the draw is modulo that. -/
theorem split_depends_on_content :
    ¬ ∀ (sync : FuzzFrame.VBLockSync) (p : FuzzFrame.Parser Unit) (w w' : FuzzFrame.Wire)
      (nSeed : BitVec 32) (nCase nIter : Int) (bSplit : Bool), w.n = w'.n →
      (FuzzFrame.mutantDrive sync p () w (Rng.seed (iterState nSeed nCase nIter))
        bSplit).chunks.map (fun c => c.bytes.length) =
      (FuzzFrame.mutantDrive sync p () w' (Rng.seed (iterState nSeed nCase nIter))
        bSplit).chunks.map (fun c => c.bytes.length) := by
  intro hfixed
  have hsame : readsDeclaring 12 = readsDeclaring 16 :=
    hfixed FuzzFrame.nativeSync (FuzzFrame.framing 8 32768) (declaring 12) (declaring 16) 1 10 1
      true rfl
  rw [readsDeclaring_twelve, readsDeclaring_sixteen] at hsame
  exact absurd hsame (by decide)

end Mutators
