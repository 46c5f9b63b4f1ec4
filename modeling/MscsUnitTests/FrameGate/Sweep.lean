import Mathlib.Data.List.Basic
import MscsUnitTests.Lib.Bytes

/-! # The Frame Gate: The Sweep

    `p2p_framegate.cpp` changes one byte of a good frame at a time and asks the gate and
    the receive path about each image. A byte that already has the value is passed over,
    as it is no mutation; but the complement word is repaired behind this test, and with
    it every change of that word is undone.
-/

open ByteMem

namespace FrameGate

/-! ## Section 1: Images -/

/-- `Wire`: the buffer `b`, of which the first `n` bytes count. -/
structure Wire where
  b : Mem
  n : Nat

def Wire.bytes (w : Wire) : List UInt8 := firstBytes w.b w.n

/-- `DeclaredOf`. -/
def declaredOf (p : Mem) : Nat := rdU32 p 0 % 2 ^ 24

/-- `RepairComplement`. -/
def repairComplement (w : Wire) : Wire :=
  if w.n ≥ 8 then { w with b := wrU32 w.b 4 (notU32 (rdU32 w.b 0)) } else w

/-- A frame that declares its length and whose second sync word is the complement of the
    first. -/
structure GoodFrame (oBase : Wire) : Prop where
  header : 8 ≤ oBase.n
  declared : declaredOf oBase.b = oBase.n
  complement : rdU32 oBase.b 4 = notU32 (rdU32 oBase.b 0)

/-! ## Section 2: The sweep -/

/-- `kBytes`. -/
def kBytes : List UInt8 := [0x00, 0x01, 0x80, 0xFF]

/-- `nSpan`. -/
def nSpan (oBase : Wire) : Nat := if oBase.n < 128 then oBase.n else 128

/-- What the loops go over, in order. -/
def pairs (oBase : Wire) : List (Nat × UInt8) :=
  (List.range (nSpan oBase)).flatMap fun off => kBytes.map fun value => (off, value)

/-- The image of a pair, if it gets to `++nTried`. -/
def trial (oBase : Wire) (off : Nat) (value : UInt8) : Option Wire :=
  -- not a mutation
  if oBase.b off = value then none
  else
    let w := repairComplement { oBase with b := Function.update oBase.b off value }
    if declaredOf w.b ≠ w.n then none else some w

inductive Adopt where
  | ok | refused | other
  deriving DecidableEq

inductive Outcome where
  | msg | refused | starved | other
  deriving DecidableEq

/-- What is asked about an image. -/
structure Library (σ : Type) where
  /-- `AdoptImage`: what it answers, and whether the bytes are as they were. -/
  adoptImage : σ → Wire → (Adopt × Bool) × σ
  /-- `Drive`: how it ends, and how many messages there were. -/
  drive : σ → Wire → (Outcome × Nat) × σ

/-- The counters of the sweep. `adopted` and `driven` are history variables: the images
    that were handed over. -/
structure Sweep (σ : Type) where
  io : σ
  nTried : Nat
  nRefused : Nat
  nAccepted : Nat
  nOther : Nat
  nLeaked : Nat
  nEdited : Nat
  nFirstLeakOff : Nat
  nFirstEditOff : Nat
  adopted : List Wire
  driven : List Wire

def Sweep.start {σ : Type} (io : σ) : Sweep σ := ⟨io, 0, 0, 0, 0, 0, 0, 0, 0, [], []⟩

section sweep
variable {σ : Type} (lib : Library σ)

/-- What is done about an image that the gate refuses. -/
def onRefused (off : Nat) (w : Wire) (bIntact : Bool) (s : Sweep σ) : Sweep σ :=
  let r := lib.drive s.io w
  let bLeaked := r.1.1 = .msg ∨ r.1.2 ≠ 0
  { s with
    io := r.2
    nRefused := s.nRefused + 1
    nEdited := if bIntact then s.nEdited else s.nEdited + 1
    nFirstEditOff := if bIntact = false ∧ s.nEdited = 0 then off else s.nFirstEditOff
    nLeaked := if bLeaked then s.nLeaked + 1 else s.nLeaked
    nFirstLeakOff := if bLeaked ∧ s.nLeaked = 0 then off else s.nFirstLeakOff
    driven := s.driven ++ [w] }

/-- The body of the loops. -/
def sweepPair (oBase : Wire) (s : Sweep σ) (pair : Nat × UInt8) : Sweep σ :=
  match trial oBase pair.1 pair.2 with
  | none => s
  | some w =>
    let r := lib.adoptImage s.io w
    let s' := { s with io := r.2, nTried := s.nTried + 1, adopted := s.adopted ++ [w] }
    match r.1.1 with
    | .ok => { s' with nAccepted := s.nAccepted + 1 }
    | .other => { s' with nOther := s.nOther + 1 }
    | .refused => onRefused lib pair.1 w r.1.2 s'

/-- The sweep over a base frame. -/
def sweep (oBase : Wire) (io : σ) : Sweep σ :=
  (pairs oBase).foldl (sweepPair lib oBase) (.start io)

end sweep

/-! ## Section 3: What the repair does to a change -/

section trial
variable {oBase w : Wire} {off : Nat} {value : UInt8}

theorem trial_eq_some (h : trial oBase off value = some w) :
    oBase.b off ≠ value ∧
      w = repairComplement { oBase with b := Function.update oBase.b off value } ∧
      declaredOf w.b = w.n := by
  unfold trial at h
  split at h
  · cases h
  · next hne =>
    dsimp only at h
    split at h
    · cases h
    · next hdeclared =>
      cases h
      exact ⟨hne, rfl, not_not.mp hdeclared⟩

/-- Outside of the complement word the repair leaves all bytes alone. -/
theorem repairComplement_outside (w : Wire) {i : Nat} (hi : i < 4 ∨ 8 ≤ i) :
    (repairComplement w).b i = w.b i := by
  unfold repairComplement
  split
  · exact wrU32_outside _ _ _ _ hi
  · rfl

/-- **A change of the complement word is undone**. -/
theorem repairComplement_undoes (hbase : GoodFrame oBase) (hlow : 4 ≤ off) (hhigh : off < 8)
    (value : UInt8) :
    repairComplement { oBase with b := Function.update oBase.b off value } = oBase := by
  have hfirst : rdU32 (Function.update oBase.b off value) 0 = rdU32 oBase.b 0 := by
    apply rdU32_congr
    intro i _ hi
    exact Function.update_of_ne (by omega) _ _
  have hbytes : wrU32 (Function.update oBase.b off value) 4 (rdU32 oBase.b 4) = oBase.b := by
    funext i
    by_cases hi : 4 ≤ i ∧ i < 8
    · exact wrU32_rdU32 _ _ _ _ hi.1 hi.2
    · rw [wrU32_outside _ _ _ _ (by omega)]
      exact Function.update_of_ne (by omega) _ _
  unfold repairComplement
  rw [if_pos hbase.header]
  dsimp only
  rw [hfirst, ← hbase.complement, hbytes]

/-- **Which images differ from the base**: those of the offsets outside of the complement
    word. -/
theorem bytes_ne_iff (hbase : GoodFrame oBase) (hoff : off < oBase.n)
    (h : trial oBase off value = some w) :
    w.bytes ≠ oBase.bytes ↔ off < 4 ∨ 8 ≤ off := by
  obtain ⟨hne, hw, -⟩ := trial_eq_some h
  by_cases hword : off < 4 ∨ 8 ≤ off
  · refine iff_of_true ?_ hword
    intro heq
    have hn : w.n = oBase.n := by
      have hlength := congrArg List.length heq
      unfold Wire.bytes at hlength
      rwa [firstBytes_length, firstBytes_length] at hlength
    unfold Wire.bytes at heq
    rw [hn, firstBytes_eq_iff] at heq
    -- the byte at the offset has been changed, and not repaired
    have hbyte := heq off hoff
    rw [hw, repairComplement_outside _ hword] at hbyte
    exact hne (hbyte.symm.trans (Function.update_self off value oBase.b))
  · refine iff_of_false ?_ hword
    rw [hw, repairComplement_undoes hbase (by omega) (by omega)]
    exact fun hdiffer => hdiffer rfl

end trial

/-! ## Section 4: The images of the sweep -/

theorem mem_pairs {oBase : Wire} {off : Nat} {value : UInt8} :
    (off, value) ∈ pairs oBase ↔ off < nSpan oBase ∧ value ∈ kBytes := by
  unfold pairs
  simp

theorem nSpan_le (oBase : Wire) : nSpan oBase ≤ oBase.n := by
  unfold nSpan
  split
  · exact Nat.le_refl _
  · omega

section images
variable {σ : Type} (lib : Library σ)

/-- A pair hands its image over, if it has one. -/
theorem sweepPair_adopted (oBase : Wire) (s : Sweep σ) (pair : Nat × UInt8) :
    (sweepPair lib oBase s pair).adopted = s.adopted ++ (trial oBase pair.1 pair.2).toList ∧
      (sweepPair lib oBase s pair).nTried = s.nTried + (trial oBase pair.1 pair.2).toList.length := by
  unfold sweepPair
  split
  · next hnone =>
    rw [hnone]
    exact ⟨(List.append_nil _).symm, rfl⟩
  · next w hsome =>
    rw [hsome]
    dsimp only
    split
    · exact ⟨rfl, rfl⟩
    · exact ⟨rfl, rfl⟩
    · exact ⟨rfl, rfl⟩

/-- The images of a base frame, in the order of the pairs. -/
def images (oBase : Wire) : List Wire :=
  (pairs oBase).filterMap fun pair => trial oBase pair.1 pair.2

/-- What is counted is what is handed over: the images, in order. -/
theorem sweep_adopted (oBase : Wire) (io : σ) :
    (sweep lib oBase io).adopted = images oBase ∧
      (sweep lib oBase io).nTried = (images oBase).length := by
  -- by induction on the pairs that are left
  have hfold : ∀ (ps : List (Nat × UInt8)) (s : Sweep σ),
      (ps.foldl (sweepPair lib oBase) s).adopted =
          s.adopted ++ ps.filterMap (fun pair => trial oBase pair.1 pair.2) ∧
        (ps.foldl (sweepPair lib oBase) s).nTried =
          s.nTried + (ps.filterMap fun pair => trial oBase pair.1 pair.2).length := by
    intro ps
    induction ps with
    | nil => exact fun s => ⟨(List.append_nil _).symm, rfl⟩
    | cons pair ps ih =>
      intro s
      obtain ⟨hadopted, htried⟩ := sweepPair_adopted lib oBase s pair
      obtain ⟨hrest, hcount⟩ := ih (sweepPair lib oBase s pair)
      rw [List.foldl_cons, hrest, hcount, hadopted, htried]
      cases htrial : trial oBase pair.1 pair.2 with
      | none => simp [htrial]
      | some w =>
        simp [htrial]
        omega
  obtain ⟨hadopted, htried⟩ := hfold (pairs oBase) (.start io)
  refine ⟨hadopted, ?_⟩
  rw [sweep, htried]
  exact Nat.zero_add _

end images

/-- What the sweep over a base frame counts. -/
structure CountsMutations (oBase : Wire) : Prop where
  /-- A pair that is counted has another image than the base just when it leaves the
      complement word alone. -/
  pair : ∀ off value w, (off, value) ∈ pairs oBase → trial oBase off value = some w →
    (w.bytes ≠ oBase.bytes ↔ off < 4 ∨ 8 ≤ off)
  /-- And every sweep counts the base itself. -/
  counted : ∀ (σ : Type) (lib : Library σ) (io : σ), oBase ∈ (sweep lib oBase io).adopted

/-- **Which mutations of the sweep are real**: over every good frame, all but those of the
    complement word. -/
theorem sweep_mutates_iff {oBase : Wire} (hbase : GoodFrame oBase) : CountsMutations oBase where
  pair := by
    intro off value w hpair htrial
    have hoff := (mem_pairs.mp hpair).1
    exact bytes_ne_iff hbase (Nat.lt_of_lt_of_le hoff (nSpan_le oBase)) htrial
  counted := by
    intro σ lib io
    rw [(sweep_adopted lib oBase io).1]
    -- one of two values is not the one that stands there
    have hvalue : ∃ value ∈ kBytes, oBase.b 4 ≠ value := by
      by_cases hzero : oBase.b 4 = 0x00
      · refine ⟨0x01, by decide, ?_⟩
        rw [hzero]
        decide
      · exact ⟨0x00, by decide, hzero⟩
    obtain ⟨value, hmem, hne⟩ := hvalue
    have hspan : 4 < nSpan oBase := by
      have hheader := hbase.header
      unfold nSpan
      split <;> omega
    have htrial : trial oBase 4 value = some oBase := by
      unfold trial
      rw [if_neg hne]
      dsimp only
      rw [repairComplement_undoes hbase (Nat.le_refl 4) (by decide)]
      exact if_neg (not_not.mpr hbase.declared)
    exact List.mem_filterMap.mpr ⟨(4, value), mem_pairs.mpr ⟨hspan, hmem⟩, htrial⟩

/-- A frame of nothing but its header. -/
def bareFrame : Wire where
  b := ofBytes [8, 0, 0, 0, 0xF7, 0xFF, 0xFF, 0xFF]
  n := 8

theorem bareFrame_good : GoodFrame bareFrame where
  header := Nat.le_refl 8
  declared := by decide
  complement := by decide

theorem sweep_mutates_iff_bare : CountsMutations bareFrame :=
  sweep_mutates_iff bareFrame_good

/-- **The base is counted as a mutation of itself**. -/
theorem base_is_counted :
    ¬ ∀ (oBase : Wire), GoodFrame oBase → ∀ off value w, (off, value) ∈ pairs oBase →
      trial oBase off value = some w → w.bytes ≠ oBase.bytes := by
  intro hclaim
  have htrial : ∃ w, trial bareFrame 4 0 = some w ∧ w.bytes = bareFrame.bytes := by
    refine ⟨_, if_neg ?_, ?_⟩
    · decide
    · decide
  obtain ⟨w, hsome, hsame⟩ := htrial
  exact hclaim bareFrame bareFrame_good 4 0 w (by decide) hsome hsame

end FrameGate
