import MscsUnitTests.Lib.Edits
import MscsUnitTests.Block.Blocks

/-! # The Block Harness: The Mutator as an Edit Script

    `Mutate` never looks at what is in the block: where it changes something, and
    to what, is drawn from the generator and the length alone. So it runs an edit
    script that is fixed by these two, and of every byte of the mutant it can be
    said which byte of the seed it is, or that it is none.
-/

open ByteMem FuzzRng EditScript

namespace FuzzBlock

/-! ## Section 1: The script of a mutation -/

/-- The block as a buffer of the edit scripts. -/
def Block.buf (w : Block) : Buf UInt8 :=
  ⟨w.b, w.n⟩

@[simp] theorem Block.buf_n (w : Block) : w.buf.n = w.n := rfl

/-- `pickOffset`, from the length alone. -/
def planOffset (n : Nat) (oRng : Rng) : Nat × Rng :=
  pickOffset ⟨fun _ => 0, n⟩ oRng

/-- The junk that `appendJunk` draws. -/
def junkBytes : Nat → Rng → List UInt8 × Rng
  | 0, oRng => ([], oRng)
  | k + 1, oRng =>
    let junk := oRng.below 256
    let rest := junkBytes k junk.2
    (UInt8.ofNat junk.1 :: rest.1, rest.2)

/-- `applyOp`, as an edit. An operation that finds no room puts nothing. -/
def planOp (n off : Nat) (oRng : Rng) : Nat → Edit × Rng
  | 0 =>
    let bit := oRng.below 8
    (.mask off (UInt8.ofNat (1 <<< bit.1)), bit.2)
  | 1 =>
    let pick := oRng.below kInteresting8.length
    (.put off [kInteresting8.getD pick.1 0], pick.2)
  | 2 =>
    if off + 2 ≤ n then
      let pick := oRng.below kInterestingBE16.length
      let v := kInterestingBE16.getD pick.1 0
      (.put off [UInt8.ofNat (v / 256), UInt8.ofNat v], pick.2)
    else (.put off [], oRng)
  | 3 =>
    let cut := oRng.below n
    (.cut (1 + cut.1), cut.2)
  | 4 =>
    let add := oRng.below 64
    let nAdd := 1 + add.1
    if n + nAdd ≤ kMaxBlock then
      let junk := junkBytes nAdd add.2
      (.append junk.1, junk.2)
    else (.put off [], add.2)
  | 5 =>
    let run := oRng.below (n - off)
    let nRun := 1 + run.1
    let src := run.2.below (n - nRun + 1)
    let len := if off + nRun ≤ n then nRun else n - off
    (.move off src.1 len, src.2)
  | _ => (.put off [], oRng)

def planStep (n : Nat) (oRng : Rng) : Edit × Rng :=
  let off := planOffset n oRng
  let op := off.2.below 6
  planOp n off.1 op.2 op.1

/-- The operation loop of `Mutate`. -/
def planOps : Nat → Nat → Rng → List Edit
  | 0, _, _ => []
  | k + 1, n, oRng =>
    if n > 0 then
      (planStep n oRng).1 :: planOps k ((planStep n oRng).1.newLen n) (planStep n oRng).2
    else []

/-- The script of a mutation. -/
def plan (n : Nat) (oRng : Rng) : List Edit :=
  let nOps := oRng.below 4
  planOps (1 + nOps.1) n nOps.2

/-- The mutant of a block of `n` bytes, in terms of the block. -/
def mutantCells (n : Nat) (oRng : Rng) : Buf Cell :=
  runEdits (plan n oRng) (original n)

/-! ## Section 2: The mutator runs its script -/

theorem overlay_nil (b : Mem) (o : Nat) : overlay b o [] = b := by
  funext i
  have hi : ¬ (o ≤ i ∧ i < o + 0) := by omega
  exact if_neg hi

/-- Bytes are laid over one after the other. -/
theorem overlay_cons (b : Mem) (o : Nat) (c : UInt8) (bytes : List UInt8) :
    overlay b o (c :: bytes) = overlay (Function.update b o c) (o + 1) bytes := by
  funext i
  unfold overlay
  simp only [List.length_cons]
  by_cases hi : i = o
  · subst hi
    rw [if_pos ⟨Nat.le_refl i, by omega⟩, if_neg (by omega), Function.update_self, Nat.sub_self]
    rfl
  · by_cases hin : o ≤ i ∧ i < o + (bytes.length + 1)
    · have hsub : i - o = (i - (o + 1)) + 1 := by omega
      rw [if_pos hin, if_pos (by omega), hsub]
      rfl
    · rw [if_neg hin, if_neg (by omega), Function.update_of_ne hi]

theorem overlay_singleton (b : Mem) (o : Nat) (c : UInt8) :
    overlay b o [c] = Function.update b o c := by
  rw [overlay_cons, overlay_nil]

theorem overlay_word (b : Mem) (o v : Nat) :
    overlay b o [UInt8.ofNat (v / 256), UInt8.ofNat v] = wrBE16 b o v := by
  rw [overlay_cons, overlay_singleton]
  rfl

theorem appendJunk_eq (k : Nat) (m : Mem) (o : Nat) (oRng : Rng) :
    appendJunk k m o oRng = (overlay m o (junkBytes k oRng).1, (junkBytes k oRng).2) := by
  induction k generalizing m o oRng with
  | zero =>
    unfold appendJunk junkBytes
    rw [overlay_nil]
  | succ k ih =>
    unfold appendJunk junkBytes
    dsimp only
    rw [ih, overlay_cons]

theorem junkBytes_length (k : Nat) (oRng : Rng) : (junkBytes k oRng).1.length = k := by
  induction k generalizing oRng with
  | zero => rfl
  | succ k ih =>
    unfold junkBytes
    dsimp only
    rw [List.length_cons, ih]

/-- An operation of the mutator does to the block what the edit does to its buffer,
    and leaves the same generator. -/
structure Planned (w : Block) (r : Block × Rng) (e : Edit × Rng) : Prop where
  buf : r.1.buf = e.1.apply w.buf
  rng : r.2 = e.2

/-- An operation that finds no room puts nothing. -/
theorem planned_nothing (w : Block) (off : Nat) (oRng : Rng) :
    Planned w (w, oRng) (.put off [], oRng) := by
  refine ⟨?_, rfl⟩
  exact congrArg (Buf.mk · w.n) (overlay_nil w.b off).symm

theorem planned_word (w : Block) (off v : Nat) (oRng : Rng) :
    Planned w ({ w with b := wrBE16 w.b off v }, oRng)
      (.put off [UInt8.ofNat (v / 256), UInt8.ofNat v], oRng) := by
  refine ⟨?_, rfl⟩
  exact congrArg (Buf.mk · w.n) (overlay_word w.b off v).symm

theorem planned_junk (w : Block) (k : Nat) (oRng : Rng) :
    Planned w (⟨(appendJunk k w.b w.n oRng).1, w.n + k⟩, (appendJunk k w.b w.n oRng).2)
      (.append (junkBytes k oRng).1, (junkBytes k oRng).2) := by
  rw [appendJunk_eq]
  refine ⟨?_, rfl⟩
  show Block.buf ⟨overlay w.b w.n (junkBytes k oRng).1, w.n + k⟩ =
    ⟨overlay w.b w.n (junkBytes k oRng).1, w.n + (junkBytes k oRng).1.length⟩
  rw [junkBytes_length]
  rfl

/-- Every operation of the mutator is an edit that is fixed by the length. -/
theorem applyOp_plan (w : Block) (off : Nat) (oRng : Rng) (op : Nat) :
    Planned w (applyOp w off oRng op) (planOp w.n off oRng op) := by
  match op with
  | 0 => exact ⟨rfl, rfl⟩
  | 1 =>
    refine ⟨?_, rfl⟩
    exact congrArg (Buf.mk · w.n) (overlay_singleton w.b off _).symm
  | 2 =>
    by_cases hroom : off + 2 ≤ w.n
    · have hop : applyOp w off oRng 2 = _ := if_pos hroom
      have hedit : planOp w.n off oRng 2 = _ := if_pos hroom
      rw [hop, hedit]
      exact planned_word w off _ _
    · have hop : applyOp w off oRng 2 = _ := if_neg hroom
      have hedit : planOp w.n off oRng 2 = _ := if_neg hroom
      rw [hop, hedit]
      exact planned_nothing w off oRng
  | 3 => exact ⟨rfl, rfl⟩
  | 4 =>
    -- what was drawn for the length is kept folded
    generalize hadd : oRng.below 64 = add
    unfold applyOp planOp
    rw [hadd]
    dsimp only
    by_cases hroom : w.n + (1 + add.1) ≤ kMaxBlock
    · rw [if_pos hroom, if_pos hroom]
      exact planned_junk w _ _
    · rw [if_neg hroom, if_neg hroom]
      exact planned_nothing w off _
  | 5 => exact ⟨rfl, rfl⟩
  | _ + 6 => exact planned_nothing w off oRng

theorem mutateOp_plan (w : Block) (oRng : Rng) :
    Planned w (mutateOp w oRng) (planStep w.n oRng) :=
  applyOp_plan w (planOffset w.n oRng).1 _ _

theorem mutateOps_plan (k : Nat) (w : Block) (oRng : Rng) :
    (mutateOps k w oRng).1.buf = runEdits (planOps k w.n oRng) w.buf := by
  induction k generalizing w oRng with
  | zero => rfl
  | succ k ih =>
    unfold mutateOps planOps
    by_cases hpos : w.n > 0
    · obtain ⟨hbuf, hrng⟩ := mutateOp_plan w oRng
      -- the next pass starts from the length this edit leaves
      have hlen : (mutateOp w oRng).1.n = (planStep w.n oRng).1.newLen w.n := by
        rw [← Block.buf_n, hbuf, Edit.apply_n, Block.buf_n]
      rw [if_pos hpos, if_pos hpos, ih, hlen, hrng, hbuf, runEdits_cons]
    · rw [if_neg hpos, if_neg hpos]
      rfl

/-- **The mutator runs its script**: the generator and the length say where the
    bytes of the mutant come from. -/
theorem mutate_eq_cells (w : Block) (oRng : Rng) :
    (mutate w oRng).1.buf = (mutantCells w.n oRng).map (Cell.eval w.b) := by
  have hrun : (mutate w oRng).1.buf = runEdits (plan w.n oRng) w.buf := by
    show (mutateOps (1 + (oRng.below 4).1) w (oRng.below 4).2).1.buf =
      runEdits (planOps (1 + (oRng.below 4).1) w.n (oRng.below 4).2) w.buf
    exact mutateOps_plan _ _ _
  rw [hrun]
  exact runEdits_eval (plan w.n oRng) w.b w.n

/-! ## Section 3: The script stays inside the block -/

theorem planOffset_lt {n : Nat} (hn : 0 < n) (oRng : Rng) : (planOffset n oRng).1 < n :=
  oRng.biased_lt hn (show 0 < 16 by decide)

theorem planOp_within {n off : Nat} (hoff : off < n) (oRng : Rng) (op : Nat) :
    (planOp n off oRng op).1.Within n := by
  match op with
  | 0 => exact trivial
  | 1 => exact trivial
  | 2 =>
    by_cases hroom : off + 2 ≤ n
    · have hedit : planOp n off oRng 2 = _ := if_pos hroom
      rw [hedit]
      exact trivial
    · have hedit : planOp n off oRng 2 = _ := if_neg hroom
      rw [hedit]
      exact trivial
  | 3 =>
    have hcut := oRng.below_lt (n := n) (by omega)
    show 1 + (oRng.below n).1 ≤ n
    omega
  | 4 =>
    generalize hadd : oRng.below 64 = add
    unfold planOp
    rw [hadd]
    dsimp only
    by_cases hroom : n + (1 + add.1) ≤ kMaxBlock
    · rw [if_pos hroom]
      exact trivial
    · rw [if_neg hroom]
      exact trivial
  | 5 =>
    have hlt := oRng.below_lt (n := n - off) (by omega)
    generalize hrun : oRng.below (n - off) = run at hlt
    have hsrc := run.2.below_lt (n := n - (1 + run.1) + 1) (by omega)
    unfold planOp
    rw [hrun]
    show (run.2.below (n - (1 + run.1) + 1)).1 +
      (if off + (1 + run.1) ≤ n then 1 + run.1 else n - off) ≤ n
    split
    · omega
    · omega
  | _ + 6 => exact trivial

theorem planOps_within (k n : Nat) (oRng : Rng) : Within n (planOps k n oRng) := by
  induction k generalizing n oRng with
  | zero => exact trivial
  | succ k ih =>
    unfold planOps
    by_cases hpos : n > 0
    · rw [if_pos hpos]
      refine ⟨?_, ih _ _⟩
      exact planOp_within (planOffset_lt hpos oRng) _ _
    · rw [if_neg hpos]
      exact trivial

theorem plan_within (n : Nat) (oRng : Rng) : Within n (plan n oRng) := by
  show Within n (planOps (1 + (oRng.below 4).1) n (oRng.below 4).2)
  exact planOps_within _ _ _

end FuzzBlock
