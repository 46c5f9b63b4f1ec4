import MscsUnitTests.Lib.Files
import MscsUnitTests.Frame.Drive

/-! # The Framing Harness: the Seed Vectors

    `BuildCorpus` of `p2p_fuzzframe.cpp`: eighteen cases, built from a frame of
    the library's own serializer (`oBase`) and from one sized just under the
    receive limit (`oBig`).
-/

open ByteMem CFiles

namespace FuzzFrame

/-! ## Section 1: Cases -/

/-- What a seed vector must produce. -/
inductive Expect where
  | any | msg1 | msg2 | refuse | nomsg
  deriving DecidableEq

/-- `Case`, without the text that only the summary line prints. -/
structure Case where
  pszName : CStr
  eExpect : Expect
  bSplit : Bool
  oWire : Wire

/-- `kCases`. -/
def kCases : Nat := 18

instance : NeZero kCases := ⟨by decide⟩

/-- `g_aCases`, every slot filled with a case that fits the wire buffer. -/
structure CaseTable where
  cases : List Case
  size : cases.length = kCases
  fits : ∀ oCase ∈ cases, oCase.oWire.n ≤ kMaxWire

/-- The case in a slot. -/
def CaseTable.slot (g : CaseTable) (c : Fin kCases) : Case :=
  g.cases.get (c.cast g.size.symm)

theorem CaseTable.slot_mem (g : CaseTable) (c : Fin kCases) : g.slot c ∈ g.cases :=
  List.get_mem _ _

theorem CaseTable.slot_fits (g : CaseTable) (c : Fin kCases) :
    (g.slot c).oWire.n ≤ kMaxWire :=
  g.fits _ (g.slot_mem c)

/-! ## Section 2: `BuildCorpus` -/

/-- A wire after `memset(&w, 0, sizeof(w))`. -/
def Wire.zero : Wire := ⟨fun _ => 0, 0⟩

/-- `HeaderOnly`: eight bytes that claim `nSizeof`. -/
def headerOnly (sync : VBLockSync) (nSizeof : Nat) : Wire :=
  stampSync sync { Wire.zero with n := 8 } nSizeof vblockAddr32

/-- Case 6: the complement broken, cut to 80 bytes. -/
def syncBroken (oBase : Wire) : Wire :=
  { b := wrU32 oBase.b 4 (rdU32 oBase.b 4 ^^^ 0x00A50000)
    n := if oBase.n > 80 then 80 else oBase.n }

/-- Case 7: seven junk bytes before the frame. -/
def syncSlide (oBase : Wire) : Wire :=
  { b := copyInto (fun i => if i < 7 then UInt8.ofNat (0x5A + i) else 0) 7 oBase.b 0 oBase.n
    n := 7 + oBase.n }

/-- The four bytes of a word in reverse order. -/
def swapU32 (s1 : Nat) : Nat :=
  s1 % 256 * 16777216 + s1 / 256 % 256 * 65536 + s1 / 65536 % 256 * 256 + s1 / 16777216 % 256

/-- Case 8: the header a peer of the other byte order writes. -/
def endianSwapped (oBase : Wire) : Wire :=
  let sw := swapU32 (rdU32 oBase.b 0)
  { oBase with b := wrU32 (wrU32 oBase.b 0 sw) 4 (notU32 sw) }

/-- Cases 11 and 16: a frame twice in one stream. -/
def coalesced (w : Wire) : Wire :=
  { b := copyInto (copyInto Wire.zero.b 0 w.b 0 w.n) w.n w.b 0 w.n
    n := 2 * w.n }

/-- Case 12: forged links in the image's root, the length left honest. -/
def rootChain (oBase : Wire) : Wire :=
  if oBase.n > 44 then
    let alloc := wrU32 (wrU32 (wrU32 oBase.b 12 (oBase.n + 16)) 16 0x00FFFFFF) 20 0x0000FFFF
    { oBase with b := wrU32 (wrU32 alloc 24 (oBase.n - 1)) 32 0xFFFFFFFF }
  else oBase

/-- Case 13: the first block header declares more than the image holds. -/
def blockHdr (oBase : Wire) : Wire :=
  let nRoot := (oBase.b 8).toNat ||| ((oBase.b 9).toNat <<< 8)
  let nBlk := 8 + nRoot
  if nRoot ≥ 4 ∧ nBlk + 5 ≤ oBase.n then
    { oBase with b := wrU32 (Function.update oBase.b nBlk 0xFF) (nBlk + 1) 0x00FFFFFF }
  else oBase

/-- The rows of `AddCase`, in the order of the slots. -/
def seedCases (sync : VBLockSync) (oBase oBig : Wire) : List Case :=
  [ ⟨cstr "valid", .msg1, false, oBase⟩,
    ⟨cstr "c1_undersized_4", .refuse, false, headerOnly sync 4⟩,
    ⟨cstr "c1_zero", .refuse, false, headerOnly sync 0⟩,
    ⟨cstr "c1_boundary_8", .refuse, false, headerOnly sync 8⟩,
    ⟨cstr "c1_boundary_9", .nomsg, false, headerOnly sync 9⟩,
    ⟨cstr "oversize_edge", .refuse, false, headerOnly sync 32769⟩,
    ⟨cstr "sync_broken", .nomsg, false, syncBroken oBase⟩,
    ⟨cstr "sync_slide", .msg1, false, syncSlide oBase⟩,
    ⟨cstr "endian_swapped", .any, false, endianSwapped oBase⟩,
    ⟨cstr "truncated_body", .nomsg, false, { oBase with n := oBase.n - 1 }⟩,
    ⟨cstr "split_reads", .msg1, true, oBase⟩,
    ⟨cstr "coalesced_2", .msg2, true, coalesced oBase⟩,
    ⟨cstr "root_chain", .any, false, rootChain oBase⟩,
    ⟨cstr "block_hdr", .any, false, blockHdr oBase⟩,
    ⟨cstr "big_valid", .msg1, false, oBig⟩,
    ⟨cstr "big_split", .msg1, true, oBig⟩,
    ⟨cstr "big_coalesced", .msg2, true, coalesced oBig⟩,
    ⟨cstr "limit_exact", .nomsg, false, headerOnly sync 32768⟩ ]

@[simp] theorem headerOnly_n (sync : VBLockSync) (nSizeof : Nat) :
    (headerOnly sync nSizeof).n = 8 := by
  simp [headerOnly]

/-- A case is never longer than two of the frames it is built from, a header, or
    a frame behind the junk. -/
theorem seedCases_n_le {sync : VBLockSync} {oBase oBig : Wire} {oCase : Case}
    (h : oCase ∈ seedCases sync oBase oBig) :
    oCase.oWire.n ≤ max (max (2 * oBase.n) (2 * oBig.n)) (max 8 (7 + oBase.n)) := by
  have hbroken : (syncBroken oBase).n ≤ oBase.n := by
    unfold syncBroken
    dsimp only
    split <;> omega
  have hroot : (rootChain oBase).n = oBase.n := by
    unfold rootChain
    split <;> rfl
  have hblk : (blockHdr oBase).n = oBase.n := by
    unfold blockHdr
    dsimp only
    split <;> rfl
  have hslide : (syncSlide oBase).n = 7 + oBase.n := rfl
  have hswap : (endianSwapped oBase).n = oBase.n := rfl
  have hco : ∀ w, (coalesced w).n = 2 * w.n := fun _ => rfl
  simp only [seedCases, List.mem_cons, List.not_mem_nil, or_false] at h
  -- one row after the other
  rcases h with rfl | rfl | rfl | rfl | rfl | rfl | rfl | rfl | rfl | rfl | rfl | rfl | rfl | rfl |
    rfl | rfl | rfl | rfl <;>
    simp only [headerOnly_n, hroot, hblk, hslide, hswap, hco] <;> omega

/-- `BuildCorpus`: `none` when two frames do not fit one wire. -/
def buildCorpus (sync : VBLockSync) (oBase oBig : Wire) : Option CaseTable :=
  if hBase : 2 * oBase.n > kMaxWire then none
  else if hBig : 2 * oBig.n > kMaxWire then none
  else some
    { cases := seedCases sync oBase oBig
      size := rfl
      fits := by
        intro oCase h
        have hn := seedCases_n_le h
        unfold kMaxWire at hBase hBig ⊢
        omega }

theorem buildCorpus_of_le (sync : VBLockSync) (oBase oBig : Wire) (hBase : 2 * oBase.n ≤ kMaxWire)
    (hBig : 2 * oBig.n ≤ kMaxWire) : ∃ g, buildCorpus sync oBase oBig = some g := by
  unfold buildCorpus
  rw [dif_neg (by omega), dif_neg (by omega)]
  exact ⟨_, rfl⟩

theorem buildCorpus_cases {sync : VBLockSync} {oBase oBig : Wire} {g : CaseTable}
    (h : buildCorpus sync oBase oBig = some g) : g.cases = seedCases sync oBase oBig := by
  unfold buildCorpus at h
  split at h
  · cases h
  · split at h
    · cases h
    · cases h
      rfl

theorem buildCorpus_slot {sync : VBLockSync} {oBase oBig : Wire} {g : CaseTable}
    (h : buildCorpus sync oBase oBig = some g) (c : Fin kCases) :
    g.slot c = (seedCases sync oBase oBig).get c :=
  List.getElem_of_eq (buildCorpus_cases h) _

/-- A frame with an honest header and nothing in it. -/
def blankFrame (sync : VBLockSync) (n : Nat) : Wire :=
  stampSync sync { Wire.zero with n := n } n vblockAddr32

@[simp] theorem blankFrame_n (sync : VBLockSync) (n : Nat) : (blankFrame sync n).n = n := by
  simp [blankFrame]

/-- The table of two blank frames. -/
def blankTable : CaseTable where
  cases := seedCases nativeSync (blankFrame nativeSync 40) (blankFrame nativeSync 60)
  size := rfl
  fits := by
    intro oCase h
    have hn := seedCases_n_le h
    rw [blankFrame_n, blankFrame_n] at hn
    unfold kMaxWire
    omega

theorem buildCorpus_blankTable :
    buildCorpus nativeSync (blankFrame nativeSync 40) (blankFrame nativeSync 60)
      = some blankTable := rfl

/-- The case names, in the order of the slots. -/
def caseNames : List CStr :=
  (seedCases nativeSync .zero .zero).map Case.pszName

theorem seedCases_names (sync : VBLockSync) (oBase oBig : Wire) :
    (seedCases sync oBase oBig).map Case.pszName = caseNames := by
  simp only [caseNames, seedCases, List.map_cons, List.map_nil]

/-- No case name has a slash in it. -/
theorem seedCases_name {sync : VBLockSync} {oBase oBig : Wire} {oCase : Case}
    (h : oCase ∈ seedCases sync oBase oBig) : slash ∉ oCase.pszName := by
  have hall : ∀ nm ∈ caseNames, slash ∉ nm := by decide
  apply hall
  rw [← seedCases_names sync oBase oBig]
  exact List.mem_map_of_mem h

end FuzzFrame
