import MscsUnitTests.Frame.Trace

/-! # The Framing Harness: Where a Reproducer Lands

    `EmitRepro` runs under a cursor: in a finding, in the crash handler, in the
    watchdog. The name it gives the file starts with the cursor's, and the
    cursor's name of a saved input is a path.
-/

open ByteMem FuzzRng CFiles FuzzCorpus

namespace FuzzFrame

variable {σ : Type} {B : Build σ} {g : CaseTable} {nSeed : BitVec 32} {s t : Proc σ}

/-! ## Section 1: What is being driven -/

/-- An input of the run: a case with an iteration (negative for the seed vector),
    or an entry of a corpus directory. -/
inductive Input where
  | ofCase (c : Fin kCases) (nIter : Int)
  | saved (pszDir nm : CStr) (hnm : slash ∉ nm) (p : List UInt8)

/-- The bytes that are driven. -/
def Input.bytes (B : Build σ) (g : CaseTable) (nSeed : BitVec 32) : Input → List UInt8
  | .ofCase c nIter => (caseInput B g nSeed c nIter).1.bytes
  | .saved _ _ _ p => p

/-- What the cursor calls the input, before it is cut to its buffer. -/
def Input.label (g : CaseTable) : Input → CStr
  | .ofCase c _ => (g.slot c).pszName
  | .saved pszDir nm _ _ => joinPath pszDir nm

/-- The last component of that. -/
def Input.stem (g : CaseTable) : Input → CStr
  | .ofCase c _ => (g.slot c).pszName
  | .saved _ nm _ _ => nm

/-- The directory a file under the label would be in. -/
def Input.dirUnder (szReproDir : CStr) : Input → CStr
  | .ofCase _ _ => szReproDir
  | .saved pszDir _ _ _ => joinPath szReproDir pszDir

/-- The input is the current one. -/
structure Processing (B : Build σ) (g : CaseTable) (nSeed : BitVec 32) (i : Input)
    (s : Proc σ) : Prop where
  name : s.cur.pszCase = some (match i with
    | .ofCase c _ => (g.slot c).pszName
    | .saved pszDir nm _ _ => fit 512 (entryPath pszDir nm))
  bytes : s.oCurWire.bytes = i.bytes B g nSeed

/-- `SetCursor` makes an input of a case the current one. -/
theorem processing_ofCase (B : Build σ) (g : CaseTable) (nSeed : BitVec 32) (c : Fin kCases)
    (nIter : Int) (s : Proc σ) :
    Processing B g nSeed (.ofCase c nIter)
      (setCursor (g.slot c).pszName c.val nIter nSeed (caseInput B g nSeed c nIter).1 s) :=
  ⟨rfl, rfl⟩

/-- It does the same for a file of the corpus. -/
theorem processing_saved (B : Build σ) (g : CaseTable) (nSeed : BitVec 32) (pszDir nm : CStr)
    (hnm : slash ∉ nm) (p : List UInt8) (s : Proc σ) :
    Processing B g nSeed (.saved pszDir nm hnm p)
      (setCursor (fit 512 (entryPath pszDir nm)) (-1) (-1) nSeed ⟨ofBytes p, p.length⟩ s) :=
  ⟨rfl, firstBytes_ofBytes p⟩

/-- Driving the input, counting it and reporting it do not change which it is. -/
theorem Processing.runDrive {i : Input} (h : Processing B g nSeed i s) (oWire : Wire) (oRng : Rng)
    (bSplit : Bool) : Processing B g nSeed i (runDrive B oWire oRng bSplit s).2 :=
  ⟨h.name, h.bytes⟩

theorem Processing.tally {i : Input} (h : Processing B g nSeed i s) (e : Outcome) :
    Processing B g nSeed i (tally e s) :=
  ⟨h.name, h.bytes⟩

theorem Processing.kept {i : Input} (h : Processing B g nSeed i s) (hk : s.Kept t) :
    Processing B g nSeed i t :=
  ⟨hk.cur ▸ h.name, hk.oCurWire ▸ h.bytes⟩

/-- **Findings are raised under the cursor**: a mutant's is raised while the
    mutant is the current input. -/
theorem mutant_reports (c : Fin kCases) (it0 : Nat) (hbase : 0 ≤ s.nRoundBase) :
    ∃ b pszWhat t, Processing B g nSeed (.ofCase c (s.nRoundBase + it0)) t ∧
      mutant B g nSeed c s it0 = findingIf B b pszWhat (cstr "escape") t := by
  have hin := caseInput_mutant B g nSeed c (show 0 ≤ s.nRoundBase + it0 by omega)
  have hproc := processing_ofCase B g nSeed c (s.nRoundBase + it0) s
  rw [hin] at hproc
  exact ⟨_, _, _, (hproc.runDrive _ _ _).tally _, rfl⟩

/-- Those of a seed vector are, ... -/
theorem seedVector_reports (c : Fin kCases) :
    ∃ oRes t, Processing B g nSeed (.ofCase c (-1)) t ∧
      seedVector B g nSeed c s = checkExpectation B (g.slot c) oRes t := by
  have hin := caseInput_seed B g nSeed c (show (-1 : Int) < 0 by omega)
  have hproc := processing_ofCase B g nSeed c (-1) s
  rw [hin] at hproc
  exact ⟨_, _, (hproc.runDrive _ _ _).tally _, rfl⟩

/-- ... both of them. -/
theorem checkExpectation_reports {i : Input} (h : Processing B g nSeed i s) (oCase : Case)
    (oRes : DriveResult) :
    checkExpectation B oCase oRes s = s ∨
      ∃ (b b' : Bool) (r : Report) (pszWhat : CStr) (t : Proc σ), Processing B g nSeed i t ∧
        t = findingIf B b r.pszWhat r.pszWhy s ∧
        checkExpectation B oCase oRes s = findingIf B b' pszWhat (cstr "escape") t := by
  unfold checkExpectation
  split
  · exact Or.inl rfl
  · exact Or.inr ⟨_, _, expectReport oCase.eExpect, _, _, h.kept (findingIf_kept B _ _ _ _), rfl,
      rfl⟩

/-- That of a saved input is. -/
theorem corpusOne_reports (pszDir nm : CStr) (hnm : slash ∉ nm) {p : List UInt8}
    (hp : p.length ≤ kMaxWire) :
    ∃ b pszWhat t, Processing B g s.nRunSeed (.saved pszDir nm hnm p) t ∧
      corpusOne B (entryPath pszDir nm) p s
        = findingIf B b pszWhat (cstr "corpus-escape") t := by
  have hproc := processing_saved B g s.nRunSeed pszDir nm hnm p s
  unfold corpusOne
  rw [if_neg (by omega)]
  dsimp only
  refine ⟨_, _, _, ?_, rfl⟩
  split
  · exact (hproc.runDrive _ _ _).tally _
  · exact hproc.runDrive _ _ _

/-! ## Section 2: The file -/

/-- Nothing on the way to the file name is cut to its buffer. -/
structure InBuffers (szReproDir label pszWhy : CStr) (p : List UInt8) : Prop where
  tag : (label ++ cstr "-" ++ pszWhy).length < 96
  file : (joinPath szReproDir (reproName (label ++ cstr "-" ++ pszWhy) p)).length < 1024

theorem Processing.label_eq {i : Input} (h : Processing B g nSeed i s) {pszWhy : CStr}
    (hfit : (i.label g ++ cstr "-" ++ pszWhy).length < 96) :
    s.cur.pszCase = some (i.label g) := by
  rw [h.name]
  cases i with
  | ofCase c nIter => rfl
  | saved pszDir nm hnm p =>
    simp only [Input.label, List.append_assoc, List.length_append] at hfit
    have hpath : entryPath pszDir nm = joinPath pszDir nm := fit_of_lt (by omega)
    exact congrArg some ((congrArg (fit 512) hpath).trans (fit_of_lt (by omega)))

/-- The path of the reproducer, split at its last slash. -/
theorem reproPath_split {i : Input} {szReproDir pszWhy : CStr} {p : List UInt8}
    (hfit : InBuffers szReproDir (i.label g) pszWhy p) :
    reproPath szReproDir (i.label g ++ cstr "-" ++ pszWhy) p
      = joinPath (i.dirUnder szReproDir) (reproName (i.stem g ++ cstr "-" ++ pszWhy) p) := by
  rw [reproPath, fit_of_lt hfit.file]
  cases i with
  | ofCase c nIter => rfl
  | saved pszDir nm hnm p' =>
    rw [Input.label, List.append_assoc, reproName_joinPath, joinPath_assoc, ← List.append_assoc]
    rfl

theorem Input.stem_no_slash {oBase oBig : Wire} (hg : buildCorpus B.sync oBase oBig = some g)
    (i : Input) : slash ∉ i.stem g := by
  cases i with
  | ofCase c nIter => exact seedCases_name (buildCorpus_cases hg ▸ g.slot_mem c)
  | saved pszDir nm hnm p => exact hnm

theorem Input.dirUnder_ne_nil {szReproDir : CStr} (h : szReproDir ≠ []) (i : Input) :
    i.dirUnder szReproDir ≠ [] := by
  cases i with
  | ofCase c nIter => exact h
  | saved pszDir nm hnm p => exact joinPath_ne_nil _ _

/-- **Where a reproducer lands**: the reproducer directory holds the bytes that
    were being driven, afterwards, exactly when it did before or the file could
    be created in it. For an input of a case that directory is where the file
    goes; for a saved input it is the directory with the name of the corpus under
    it, which is never made. -/
theorem repro_lands_iff {oBase oBig : Wire} (hg : buildCorpus B.sync oBase oBig = some g)
    {i : Input} (hproc : Processing B g nSeed i s) (pszWhy : CStr) (hwhy : slash ∉ pszWhy)
    (hfit : InBuffers s.szReproDir (i.label g) pszWhy (i.bytes B g nSeed))
    (hdir : s.szReproDir ≠ []) {d : Nat} (hd : s.fs.resolve s.szReproDir = some d) :
    (emitRepro B pszWhy s).fs.Holds d (i.bytes B g nSeed) ↔
      s.fs.Holds d (i.bytes B g nSeed) ∨
        (i.bytes B g nSeed ≠ [] ∧ s.fs.resolve (i.dirUnder s.szReproDir) = some d ∧
          s.fs.Accepts d (reproName (i.stem g ++ cstr "-" ++ pszWhy) (i.bytes B g nSeed))) := by
  have hlen : s.oCurWire.n = (i.bytes B g nSeed).length := by
    rw [← hproc.bytes, Wire.bytes_length]
  by_cases hne : i.bytes B g nSeed = []
  · -- an empty input is not written at all
    have hsame : emitRepro B pszWhy s = s := by
      unfold emitRepro
      rw [if_pos (Or.inr (by rw [hlen, hne]; rfl))]
    simp [hsame, hne]
  · have hpos : s.oCurWire.n ≠ 0 := by
      rw [hlen]
      intro h
      exact hne (List.length_eq_zero_iff.mp h)
    have htag : reproTag s.cur.pszCase pszWhy = i.label g ++ cstr "-" ++ pszWhy := by
      rw [hproc.label_eq hfit.tag, reproTag]
      exact fit_of_lt hfit.tag
    have hwrite : (emitRepro B pszWhy s).fs
        = (s.fs.write (joinPath (i.dirUnder s.szReproDir)
            (reproName (i.stem g ++ cstr "-" ++ pszWhy) (i.bytes B g nSeed)))
            (i.bytes B g nSeed)).getD s.fs := by
      unfold emitRepro
      rw [if_neg (by simp [hdir, hpos])]
      dsimp only
      rw [hproc.bytes, htag, fuzzWriteRepro_of_resolve B.plat hdir hd _ hne, reproPath_split hfit]
    -- every slash of the path is in front of the name
    have hdash : slash ∉ cstr "-" := by decide
    have hleaf : slash ∉ reproName (i.stem g ++ cstr "-" ++ pszWhy) (i.bytes B g nSeed) :=
      slash_not_mem_reproName (by simp [i.stem_no_slash hg, hdash, hwhy]) _
    rw [hwrite, FileSys.holds_write_iff,
      parentOf_joinPath (i.dirUnder_ne_nil hdir) hleaf, leafOf_joinPath hleaf]
    simp [hne]

/-- The unmutated valid frame is being driven, and `r` has one file in it. -/
def seedState : Proc Unit :=
  setCursor (blankTable.slot 0).pszName (0 : Fin kCases).val (-1) 0
    (caseInput refusingBuild blankTable 0 0 (-1)).1
    (.start (.single (cstr "r") (cstr "x") [1]) () (cstr "r") 0)

theorem repro_lands_iff_seedState :
    (emitRepro refusingBuild (cstr "escape") seedState).fs.Holds 0
      (blankFrame nativeSync 40).bytes := by
  have hname : reproName (cstr "valid-escape") (blankFrame nativeSync 40).bytes ≠ cstr "x" := by
    decide +kernel
  refine (repro_lands_iff (B := refusingBuild) buildCorpus_blankTable
    (processing_ofCase refusingBuild blankTable 0 0 (-1) _) (cstr "escape") (by decide)
    ⟨by decide, by decide +kernel⟩ (by decide) (d := 0) rfl).mpr (Or.inr ⟨?_, rfl, rfl, Or.inl ?_⟩)
  · decide +kernel
  · exact if_neg (t := some (.file [1])) hname

/-- A corpus directory `c` and a reproducer directory `r`, both at the top. -/
def corpusAndRepro : FileSys where
  resolve path := if path = cstr "c" then some 0 else if path = cstr "r" then some 1 else none
  node d nm := if d = 0 ∧ nm = cstr "x" then some (.file [1]) else none
  readdir d := if d = 0 then [cstr "x"] else []
  writable _ := true
  nextDir := 2

/-- The file of `c` is being driven. -/
def savedState : Proc Unit :=
  setCursor (fit 512 (entryPath (cstr "c") (cstr "x"))) (-1) (-1) 0 ⟨ofBytes [1], 1⟩
    (.start corpusAndRepro () (cstr "r") 0)

/-- **A saved input leaves nothing behind**: its reproducer is to go to `r/c`, and
    there is no such directory. -/
theorem saved_repro_can_be_lost :
    ¬ ∀ (B : Build Unit) (oBase oBig : Wire) (g : CaseTable) (nSeed : BitVec 32) (i : Input)
        (s : Proc Unit) (pszWhy : CStr) (d : Nat), buildCorpus B.sync oBase oBig = some g →
      Processing B g nSeed i s → slash ∉ pszWhy →
      InBuffers s.szReproDir (i.label g) pszWhy (i.bytes B g nSeed) → s.szReproDir ≠ [] →
      s.fs.resolve s.szReproDir = some d → s.fs.writable d = true →
      0 < (i.bytes B g nSeed).length → (i.bytes B g nSeed).length ≤ kMaxWire →
        (emitRepro B pszWhy s).fs.Holds d (i.bytes B g nSeed) := by
  intro hclaim
  -- `r/c` names no directory, so the one attempt fails
  have hno : (savedState.fs.write (reproPath (cstr "r") (reproTag savedState.cur.pszCase
      (cstr "corpus-escape")) [1]) [1]).isNone = true := by
    decide +kernel
  have hsame : (emitRepro refusingBuild (cstr "corpus-escape") savedState).fs = corpusAndRepro := by
    unfold emitRepro
    rw [if_neg (by decide)]
    dsimp only
    refine (fuzzWriteRepro_of_resolve (d := 1) _ (by decide) rfl _ (by decide)).trans ?_
    exact congrArg (Option.getD · corpusAndRepro) (Option.isNone_iff_eq_none.mp hno)
  obtain ⟨leaf, hleaf⟩ := hclaim refusingBuild _ _ blankTable 0
    (.saved (cstr "c") (cstr "x") (by decide) [1]) savedState (cstr "corpus-escape") 1
    buildCorpus_blankTable (processing_saved _ _ _ _ _ (by decide) _ _) (by decide)
    ⟨by decide, by decide +kernel⟩ (by decide) rfl rfl (by decide) (by decide)
  rw [hsame] at hleaf
  simp [corpusAndRepro] at hleaf

end FuzzFrame
