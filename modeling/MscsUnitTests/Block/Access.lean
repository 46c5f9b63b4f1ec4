import MscsUnitTests.Block.Blocks
import MscsUnitTests.Lib.Traced

/-! # The Block Harness: What the Mutator Touches

    `Mutate` once more, on a traced buffer. Taking the trace away gives the mutator of
    `Block.Blocks`. The length moves both ways here: an extension writes behind it, and
    is refused when the buffer ends.
-/

open ByteMem FuzzRng TracedMem

namespace FuzzBlock

/-! ## Section 1: The traced mutator -/

/-- What `Mutate` is doing. -/
inductive Part where
  | start
  /-- An operation of the `switch`, by its number. -/
  | op (code : Nat)
  /-- An extension that has room. -/
  | junk
  deriving DecidableEq

/-- The block, the trace taken away. -/
def blockOf (t : Traced Part) : Block :=
  ⟨t.mem, t.n⟩

/-- `appendJunk`, traced. -/
def tracedAppendJunk : Nat → Traced Part → Nat → Rng → Traced Part × Rng
  | 0, t, _, oRng => (t, oRng)
  | k + 1, t, o, oRng =>
    let junk := oRng.below 256
    tracedAppendJunk k (t.store o (UInt8.ofNat junk.1)) (o + 1) junk.2

/-- `applyOp`, traced. -/
def tracedApplyOp (t : Traced Part) (off : Nat) (oRng : Rng) : Nat → Traced Part × Rng
  | 0 =>
    let bit := oRng.below 8
    let old := t.load off
    (old.2.store off (old.1 ^^^ UInt8.ofNat (1 <<< bit.1)), bit.2)
  | 1 =>
    let pick := oRng.below kInteresting8.length
    (t.store off (kInteresting8.getD pick.1 0), pick.2)
  | 2 =>
    if off + 2 ≤ t.n then
      let pick := oRng.below kInterestingBE16.length
      let v := kInterestingBE16.getD pick.1 0
      ((t.store off (UInt8.ofNat (v / 256))).store (off + 1) (UInt8.ofNat v), pick.2)
    else (t, oRng)
  | 3 =>
    let cut := oRng.below t.n
    (t.resize (1 + cut.1), cut.2)
  | 4 =>
    let add := oRng.below 64
    let nAdd := 1 + add.1
    if t.n + nAdd ≤ kMaxBlock then
      let junk := tracedAppendJunk nAdd (t.enter .junk) t.n add.2
      (junk.1.resize (t.n + nAdd), junk.2)
    else (t, add.2)
  | 5 =>
    let run := oRng.below (t.n - off)
    let nRun := 1 + run.1
    let src := run.2.below (t.n - nRun + 1)
    let len := if off + nRun ≤ t.n then nRun else t.n - off
    ((t.test (decide (off + nRun ≤ t.n))).move off src.1 len, src.2)
  | _ => (t, oRng)

/-- `mutateOp`, traced. -/
def tracedMutateOp (t : Traced Part) (oRng : Rng) : Traced Part × Rng :=
  let off := pickOffset (blockOf t) oRng
  let op := off.2.below 6
  tracedApplyOp (t.enter (.op op.1)) off.1 op.2 op.1

/-- `mutateOps`, traced. -/
def tracedMutateOps : Nat → Traced Part → Rng → Traced Part × Rng
  | 0, t, oRng => (t, oRng)
  | k + 1, t, oRng =>
    if t.n > 0 then tracedMutateOps k (tracedMutateOp t oRng).1 (tracedMutateOp t oRng).2
    else (t, oRng)

/-- `Mutate`, traced. -/
def tracedMutate (t : Traced Part) (oRng : Rng) : Traced Part × Rng :=
  let nOps := oRng.below 4
  tracedMutateOps (1 + nOps.1) t nOps.2

/-! ## Section 2: Without the trace it is the mutator -/

@[simp] theorem blockOf_n (t : Traced Part) : (blockOf t).n = t.n := rfl

theorem mem_appendJunk (k : Nat) (t : Traced Part) (o : Nat) (oRng : Rng) :
    (tracedAppendJunk k t o oRng).1.mem = (appendJunk k t.mem o oRng).1 ∧
      (tracedAppendJunk k t o oRng).2 = (appendJunk k t.mem o oRng).2 := by
  induction k generalizing t o oRng with
  | zero => exact ⟨rfl, rfl⟩
  | succ k ih =>
    unfold tracedAppendJunk appendJunk
    dsimp only
    rw [← Traced.store_mem]
    exact ih _ _ _

/-- The extension, by what was drawn for its length. -/
theorem applyOp_extend (w : Block) (off : Nat) {oRng : Rng} {add : Nat × Rng}
    (hadd : oRng.below 64 = add) :
    applyOp w off oRng 4 =
      if w.n + (1 + add.1) ≤ kMaxBlock then
        (⟨(appendJunk (1 + add.1) w.b w.n add.2).1, w.n + (1 + add.1)⟩,
          (appendJunk (1 + add.1) w.b w.n add.2).2)
      else (w, add.2) := by
  unfold applyOp
  rw [hadd]
  rfl

theorem tracedApplyOp_extend (t : Traced Part) (off : Nat) {oRng : Rng} {add : Nat × Rng}
    (hadd : oRng.below 64 = add) :
    tracedApplyOp t off oRng 4 =
      if t.n + (1 + add.1) ≤ kMaxBlock then
        ((tracedAppendJunk (1 + add.1) (t.enter .junk) t.n add.2).1.resize (t.n + (1 + add.1)),
          (tracedAppendJunk (1 + add.1) (t.enter .junk) t.n add.2).2)
      else (t, add.2) := by
  unfold tracedApplyOp
  rw [hadd]
  rfl

/-- The same junk makes the same block. -/
theorem blockOf_extend (t : Traced Part) (add : Nat × Rng) {junk : Traced Part × Rng}
    {junk' : Mem × Rng} (hmem : junk.1.mem = junk'.1) (hrng : junk.2 = junk'.2) :
    blockOf (if t.n + (1 + add.1) ≤ kMaxBlock then
        (junk.1.resize (t.n + (1 + add.1)), junk.2) else (t, add.2)).1 =
      (if (blockOf t).n + (1 + add.1) ≤ kMaxBlock then
        ((⟨junk'.1, (blockOf t).n + (1 + add.1)⟩ : Block), junk'.2) else (blockOf t, add.2)).1 ∧
    (if t.n + (1 + add.1) ≤ kMaxBlock then
        (junk.1.resize (t.n + (1 + add.1)), junk.2) else (t, add.2)).2 =
      (if (blockOf t).n + (1 + add.1) ≤ kMaxBlock then
        ((⟨junk'.1, (blockOf t).n + (1 + add.1)⟩ : Block), junk'.2) else (blockOf t, add.2)).2 := by
  rw [blockOf_n]
  split
  · refine ⟨?_, hrng⟩
    unfold blockOf
    dsimp only
    rw [Traced.resize_mem, Traced.resize_n, hmem]
  · exact ⟨rfl, rfl⟩

/-- An operation does to the block what it did, and draws what it drew. -/
theorem blockOf_applyOp (t : Traced Part) (off : Nat) (oRng : Rng) (op : Nat) :
    blockOf (tracedApplyOp t off oRng op).1 = (applyOp (blockOf t) off oRng op).1 ∧
      (tracedApplyOp t off oRng op).2 = (applyOp (blockOf t) off oRng op).2 := by
  -- whatever the draws are
  match op with
  | 0 =>
    unfold tracedApplyOp applyOp blockOf
    dsimp only
    generalize oRng.below 8 = bit
    simp only [Traced.store_mem, Traced.store_n, Traced.load_val, Traced.load_mem, Traced.load_n,
      and_self]
  | 1 =>
    unfold tracedApplyOp applyOp blockOf
    dsimp only
    generalize oRng.below kInteresting8.length = pick
    simp only [Traced.store_mem, Traced.store_n, and_self]
  | 2 =>
    unfold tracedApplyOp applyOp blockOf
    dsimp only
    generalize oRng.below kInterestingBE16.length = pick
    by_cases h : off + 2 ≤ t.n
    · simp only [if_pos h, Traced.store_mem, Traced.store_n, wrBE16, and_self]
    · simp only [if_neg h, and_self]
  | 3 =>
    unfold tracedApplyOp applyOp blockOf
    dsimp only
    generalize oRng.below t.n = cut
    simp only [Traced.resize_mem, Traced.resize_n, and_self]
  | 4 =>
    obtain ⟨hmem, hrng⟩ := mem_appendJunk (1 + (oRng.below 64).1) (t.enter .junk) t.n
      (oRng.below 64).2
    rw [tracedApplyOp_extend t off rfl, applyOp_extend (blockOf t) off rfl]
    exact blockOf_extend t (oRng.below 64) hmem hrng
  | 5 =>
    unfold tracedApplyOp applyOp blockOf
    dsimp only
    generalize oRng.below (t.n - off) = run
    generalize run.2.below (t.n - (1 + run.1) + 1) = src
    simp only [Traced.move_mem, Traced.move_n, Traced.test_mem, Traced.test_n, and_self]
  | _ + 6 =>
    unfold tracedApplyOp applyOp
    exact ⟨rfl, rfl⟩

/-- An operation, by what was drawn for its place and its number. -/
theorem tracedMutateOp_of_draws {t : Traced Part} {oRng : Rng} {off op : Nat × Rng}
    (hoff : pickOffset (blockOf t) oRng = off) (hop : off.2.below 6 = op) :
    tracedMutateOp t oRng = tracedApplyOp (t.enter (.op op.1)) off.1 op.2 op.1 := by
  rw [← hop, ← hoff]
  rfl

theorem mutateOp_of_draws {w : Block} {oRng : Rng} {off op : Nat × Rng}
    (hoff : pickOffset w oRng = off) (hop : off.2.below 6 = op) :
    mutateOp w oRng = applyOp w off.1 op.2 op.1 := by
  rw [← hop, ← hoff]
  rfl

theorem blockOf_mutateOp (t : Traced Part) (oRng : Rng) :
    blockOf (tracedMutateOp t oRng).1 = (mutateOp (blockOf t) oRng).1 ∧
      (tracedMutateOp t oRng).2 = (mutateOp (blockOf t) oRng).2 := by
  generalize hoff : pickOffset (blockOf t) oRng = off
  generalize hop : off.2.below 6 = op
  rw [tracedMutateOp_of_draws hoff hop, mutateOp_of_draws hoff hop]
  exact blockOf_applyOp (t.enter (.op op.1)) off.1 op.2 op.1

theorem blockOf_mutateOps (k : Nat) (t : Traced Part) (oRng : Rng) :
    blockOf (tracedMutateOps k t oRng).1 = (mutateOps k (blockOf t) oRng).1 ∧
      (tracedMutateOps k t oRng).2 = (mutateOps k (blockOf t) oRng).2 := by
  induction k generalizing t oRng with
  | zero => exact ⟨rfl, rfl⟩
  | succ k ih =>
    obtain ⟨hblock, hrng⟩ := blockOf_mutateOp t oRng
    unfold tracedMutateOps mutateOps
    rw [blockOf_n]
    split
    · rw [← hblock, ← hrng]
      exact ih _ _
    · exact ⟨rfl, rfl⟩

/-- **The trace is the mutator's**: the run it records ends with the mutator's block and
    generator. -/
theorem blockOf_mutate (t : Traced Part) (oRng : Rng) :
    blockOf (tracedMutate t oRng).1 = (mutate (blockOf t) oRng).1 ∧
      (tracedMutate t oRng).2 = (mutate (blockOf t) oRng).2 := by
  exact blockOf_mutateOps (1 + (oRng.below 4).1) t (oRng.below 4).2

/-! ## Section 3: What it touches -/

/-- Within the buffer, and within the length in force unless junk is appended. -/
def InBuffer (part : Part) (a : Access) : Prop :=
  a.off + a.len ≤ kMaxBlock ∧ (part ≠ .junk → a.off + a.len ≤ a.cur)

/-- How many extensions have gone ahead. -/
def extensions (t : Traced Part) : Nat :=
  t.entered.count .junk

theorem extensions_congr {t t' : Traced Part} (h : t'.entered = t.entered) :
    extensions t' = extensions t := by
  unfold extensions
  rw [h]

theorem extensions_enter_junk (t : Traced Part) :
    extensions (t.enter .junk) = extensions t + 1 := by
  unfold extensions
  rw [Traced.entered_enter, List.count_append]
  rfl

theorem extensions_enter_op (t : Traced Part) (op : Nat) :
    extensions (t.enter (.op op)) = extensions t := by
  unfold extensions
  rw [Traced.entered_enter, List.count_append]
  rfl

/-- One operation, seen from outside: what it touches, and what becomes of the length. -/
structure OpDoes (t t' : Traced Part) : Prop where
  does : Does InBuffer t t'
  pos : 0 < t'.n
  room : t'.n ≤ kMaxBlock
  grown : t'.n + 64 * extensions t ≤ t.n + 64 * extensions t'
  once : extensions t' ≤ extensions t + 1

theorem pickOffset_lt (w : Block) (oRng : Rng) (hw : 0 < w.n) : (pickOffset w oRng).1 < w.n :=
  oRng.biased_lt hw (show 0 < 16 by decide)

/-- The junk goes where there is room for it, and is one stretch of the program. -/
theorem tracedAppendJunk_does (k : Nat) (t : Traced Part) (o : Nat) (oRng : Rng)
    (hpart : t.part = .junk) (hroom : o + k ≤ kMaxBlock) :
    Does InBuffer t (tracedAppendJunk k t o oRng).1 ∧
      (tracedAppendJunk k t o oRng).1.entered = t.entered := by
  induction k generalizing t o oRng with
  | zero => exact ⟨Does.refl t, rfl⟩
  | succ k ih =>
    have hin : InBuffer t.part ⟨o, 1, t.n⟩ := by
      refine ⟨?_, fun h => absurd hpart h⟩
      show o + 1 ≤ kMaxBlock
      omega
    obtain ⟨hrest, hentered⟩ := ih (t.store o (UInt8.ofNat (oRng.below 256).1)) (o + 1)
      (oRng.below 256).2 hpart (by omega)
    unfold tracedAppendJunk
    dsimp only
    refine ⟨(does_store hin).trans hrest, ?_⟩
    rw [hentered, Traced.entered_store]

/-- An extension, whatever it draws: refused, or counted. -/
theorem extend_does {t : Traced Part} {add : Nat × Rng} {junk : Traced Part × Rng}
    (hadd : add.1 < 64) (hpos : 0 < t.n) (hn : t.n ≤ kMaxBlock)
    (hjunk : t.n + (1 + add.1) ≤ kMaxBlock →
      Does InBuffer (t.enter .junk) junk.1 ∧ junk.1.entered = (t.enter .junk).entered) :
    OpDoes t (if t.n + (1 + add.1) ≤ kMaxBlock then
        (junk.1.resize (t.n + (1 + add.1)), junk.2) else (t, add.2)).1 := by
  split
  · next hroom =>
    obtain ⟨hdoes, hentered⟩ := hjunk hroom
    have hcount : extensions (junk.1.resize (t.n + (1 + add.1))) = extensions t + 1 := by
      rw [← extensions_enter_junk]
      exact extensions_congr ((Traced.entered_resize _ _).trans hentered)
    dsimp only
    refine ⟨((does_enter t .junk).trans hdoes).trans (does_resize _ _), ?_, ?_, ?_, ?_⟩
    · rw [Traced.resize_n]
      omega
    · rw [Traced.resize_n]
      exact hroom
    · rw [Traced.resize_n, hcount]
      omega
    · rw [hcount]
  · exact ⟨Does.refl t, hpos, hn, Nat.le_refl _, Nat.le_succ _⟩

/-- An operation that keeps the length and counts no extension. -/
theorem opDoes_of_n {t t' : Traced Part} (hdoes : Does InBuffer t t') (hn : t'.n = t.n)
    (hentered : t'.entered = t.entered) (hpos : 0 < t.n) (hroom : t.n ≤ kMaxBlock) :
    OpDoes t t' := by
  have hcount := extensions_congr hentered
  refine ⟨hdoes, ?_, ?_, ?_, ?_⟩
  · rw [hn]
    exact hpos
  · rw [hn]
    exact hroom
  · rw [hn, hcount]
  · rw [hcount]
    exact Nat.le_succ _

/-- A truncation, wherever it cuts. -/
theorem truncate_does {t : Traced Part} {cut : Nat} (hcut : cut < t.n) (hn : t.n ≤ kMaxBlock) :
    OpDoes t (t.resize (1 + cut)) := by
  have hcount : extensions (t.resize (1 + cut)) = extensions t := rfl
  refine ⟨does_resize t _, ?_, ?_, ?_, ?_⟩
  · rw [Traced.resize_n]
    omega
  · rw [Traced.resize_n]
    omega
  · rw [Traced.resize_n, hcount]
    omega
  · exact Nat.le_succ _

/-- An access within the length is one within the buffer. -/
theorem inBuffer_of_le {t : Traced Part} (hn : t.n ≤ kMaxBlock) {o len : Nat} (h : o + len ≤ t.n) :
    InBuffer t.part ⟨o, len, t.n⟩ :=
  ⟨h.trans hn, fun _ => h⟩

/-- A splice, whatever run it takes from where: the run ends inside of the block, and so
    does any place to take it from. -/
theorem splice_does {t : Traced Part} {off run src : Nat} (hoff : off < t.n)
    (hn : t.n ≤ kMaxBlock) (hrun : run < t.n - off) (hsrc : src < t.n - (1 + run) + 1) :
    OpDoes t ((t.test (decide (off + (1 + run) ≤ t.n))).move off src
      (if off + (1 + run) ≤ t.n then 1 + run else t.n - off)) := by
  have hguard : off + (1 + run) ≤ t.n := by omega
  have hfrom : src + (1 + run) ≤ t.n := by omega
  rw [if_pos hguard]
  have hmove := does_move (t := t.test (decide (off + (1 + run) ≤ t.n)))
    (inBuffer_of_le hn hguard) (inBuffer_of_le hn hfrom)
  refine opDoes_of_n ((does_test (decide_eq_true hguard)).trans hmove) rfl ?_ (by omega) hn
  rw [Traced.entered_move, Traced.entered_test]

/-- **One operation** touches the buffer only, and beyond the length only to extend it. -/
theorem tracedApplyOp_does (t : Traced Part) {off : Nat} (oRng : Rng) (op : Nat)
    (hoff : off < t.n) (hn : t.n ≤ kMaxBlock) : OpDoes t (tracedApplyOp t off oRng op).1 := by
  have hpos : 0 < t.n := by omega
  match op with
  | 0 =>
    have hbyte : InBuffer t.part ⟨off, 1, t.n⟩ := inBuffer_of_le hn hoff
    exact opDoes_of_n ((does_load hbyte).trans (does_store hbyte)) rfl
      ((Traced.entered_store _ _ _).trans (Traced.entered_load _ _)) hpos hn
  | 1 =>
    have hbyte : InBuffer t.part ⟨off, 1, t.n⟩ := inBuffer_of_le hn hoff
    exact opDoes_of_n (does_store hbyte) rfl (Traced.entered_store _ _ _) hpos hn
  | 2 =>
    by_cases hroom : off + 2 ≤ t.n
    · have hop : tracedApplyOp t off oRng 2 = _ := if_pos hroom
      have hhigh : InBuffer t.part ⟨off, 1, t.n⟩ := inBuffer_of_le hn hoff
      have hlow : InBuffer t.part ⟨off + 1, 1, t.n⟩ := inBuffer_of_le hn hroom
      rw [hop]
      exact opDoes_of_n ((does_store hhigh).trans (does_store hlow)) rfl
        ((Traced.entered_store _ _ _).trans (Traced.entered_store _ _ _)) hpos hn
    · have hop : tracedApplyOp t off oRng 2 = _ := if_neg hroom
      rw [hop]
      exact opDoes_of_n (Does.refl t) rfl rfl hpos hn
  | 3 => exact truncate_does (Rng.below_lt oRng hpos) hn
  | 4 =>
    rw [tracedApplyOp_extend t off rfl]
    refine extend_does (Rng.below_lt oRng (by omega)) hpos hn ?_
    intro hroom
    exact tracedAppendJunk_does _ (t.enter .junk) t.n _ rfl hroom
  | 5 =>
    have hrun := Rng.below_lt oRng (show 0 < t.n - off by omega)
    have hsrc := Rng.below_lt (oRng.below (t.n - off)).2
      (show 0 < t.n - (1 + (oRng.below (t.n - off)).1) + 1 by omega)
    exact splice_does hoff hn hrun hsrc
  | _ + 6 => exact opDoes_of_n (Does.refl t) rfl rfl hpos hn

theorem tracedMutateOp_does (t : Traced Part) (oRng : Rng) (hpos : 0 < t.n)
    (hn : t.n ≤ kMaxBlock) : OpDoes t (tracedMutateOp t oRng).1 := by
  have hoff := pickOffset_lt (blockOf t) oRng hpos
  generalize hpick : pickOffset (blockOf t) oRng = off at hoff
  generalize hop : off.2.below 6 = op
  have hstep := tracedApplyOp_does (t.enter (.op op.1)) op.2 op.1 hoff hn
  have hgrown := hstep.grown
  have honce := hstep.once
  -- the operation that begins is not counted
  rw [extensions_enter_op] at hgrown honce
  rw [tracedMutateOp_of_draws hpick hop]
  exact ⟨(does_enter t _).trans hstep.does, hstep.pos, hstep.room, hgrown, honce⟩

/-- A run of `k` operations. -/
structure RunDoes (k : Nat) (t t' : Traced Part) : Prop where
  does : Does InBuffer t t'
  pos : 0 < t'.n
  room : t'.n ≤ kMaxBlock
  grown : t'.n + 64 * extensions t ≤ t.n + 64 * extensions t'
  count : extensions t' ≤ extensions t + k

/-- The loop, by induction on the operations. -/
theorem tracedMutateOps_does (k : Nat) (t : Traced Part) (oRng : Rng) (hpos : 0 < t.n)
    (hn : t.n ≤ kMaxBlock) : RunDoes k t (tracedMutateOps k t oRng).1 := by
  induction k generalizing t oRng with
  | zero => exact ⟨Does.refl t, hpos, hn, Nat.le_refl _, Nat.le_refl _⟩
  | succ k ih =>
    have hop := tracedMutateOp_does t oRng hpos hn
    have hrest := ih (tracedMutateOp t oRng).1 (tracedMutateOp t oRng).2 hop.pos hop.room
    have hgrown₁ := hop.grown
    have hgrown₂ := hrest.grown
    have honce := hop.once
    have hcount := hrest.count
    unfold tracedMutateOps
    rw [if_pos hpos]
    exact ⟨hop.does.trans hrest.does, hrest.pos, hrest.room, by omega, by omega⟩

/-! ## Section 4: The mutator stays inside its buffer -/

/-- What a traced run of `Mutate` on a block shows. -/
structure StaysInside (w : Block) (oRng : Rng) (t : Traced Part) : Prop where
  /-- It is the run of the mutator. -/
  run : blockOf t = (mutate w oRng).1
  /-- Every byte read or written is one of the buffer, and one of the current length
      where no junk is appended. -/
  accesses : ∀ e ∈ t.trace, e.Sat InBuffer
  length : 1 ≤ t.n ∧ t.n ≤ kMaxBlock
  /-- Each extension adds 64 bytes at most, and there are at most four. -/
  grown : t.n ≤ w.n + 64 * extensions t
  atMost : extensions t ≤ 4

theorem staysInside_of_run {w : Block} {oRng : Rng} {t : Traced Part} {k : Nat} (hk : k < 4)
    (hrun : RunDoes (1 + k) (Traced.start .start w.b w.n) t)
    (herase : blockOf t = (mutate w oRng).1) : StaysInside w oRng t := by
  have hfresh : extensions (Traced.start .start w.b w.n) = 0 := rfl
  have hlen : (Traced.start Part.start w.b w.n).n = w.n := rfl
  have hgrown := hrun.grown
  have hcount := hrun.count
  rw [hfresh, hlen] at hgrown
  rw [hfresh] at hcount
  exact {
    run := herase
    accesses := hrun.does.trace_sat
    length := ⟨hrun.pos, hrun.room⟩
    grown := by omega
    atMost := by omega }

/-- **The block mutator stays inside its buffer**, for every block that is not empty and
    every state of the generator. -/
theorem mutate_stays_in_buffer (w : Block) (oRng : Rng) (hpos : 1 ≤ w.n) (hmax : w.n ≤ kMaxBlock) :
    StaysInside w oRng (tracedMutate (Traced.start .start w.b w.n) oRng).1 := by
  have hblock : blockOf (Traced.start .start w.b w.n) = w := rfl
  have herase := (blockOf_mutate (Traced.start .start w.b w.n) oRng).1
  rw [hblock] at herase
  exact staysInside_of_run (Rng.below_lt oRng (by decide))
    (tracedMutateOps_does (1 + (oRng.below 4).1) (Traced.start .start w.b w.n) (oRng.below 4).2
      hpos hmax) herase

theorem mutate_stays_in_buffer_full : StaysInside ⟨fun _ => 0, kMaxBlock⟩ ⟨7⟩
    (tracedMutate (Traced.start .start (fun _ => 0) kMaxBlock) ⟨7⟩).1 :=
  mutate_stays_in_buffer ⟨fun _ => 0, kMaxBlock⟩ ⟨7⟩ (by decide) (Nat.le_refl _)

end FuzzBlock
