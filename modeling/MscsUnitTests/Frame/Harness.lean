import MscsUnitTests.Corpus
import MscsUnitTests.Frame.Cases

/-! # The Framing Harness: Cursor, Findings and the Run

    The globals of `p2p_fuzzframe.cpp` and everything that moves them: the
    cursor, the reproducer, the findings, the corpus callback, the expectation
    check, and `main` from the corpus replay to the verdict.

    What the parser answers is a parameter (`Build.parser`), and so is the clock
    of the continuous mode: `extra` is how many more rounds it lets start.
-/

open ByteMem FuzzRng CFiles FuzzCorpus

namespace FuzzFrame

/-! ## Section 1: State -/

/-- `Cursor`: the input being processed right now. -/
structure Cursor where
  pszCase : Option CStr
  nCase : Int
  nIter : Int
  nSeed : BitVec 32
  nWire : Nat
  aHead : List UInt8

/-- One call of `Drive`: the cursor it was made under, its arguments and what
    came of it. -/
structure DriveCall where
  cur : Cursor
  bytes : List UInt8
  oRng : Rng
  bSplit : Bool
  oRes : DriveResult
  nAsserts : Nat
  chunks : List Chunk

/-- A finding: the text and the tag of the reproducer. -/
structure Report where
  pszWhat : CStr
  pszWhy : CStr

/-- The globals. `reports` and `driven` are history variables: the findings
    printed and the calls of `Drive`, in order. -/
structure Proc (σ : Type) where
  cur : Cursor
  oCurWire : Wire
  szReproDir : CStr
  fs : FileSys
  io : σ
  nFindings : Int
  reports : List Report
  nAsserts : Nat
  nAbandoned : Nat
  nProgress : Nat
  aTotals : Outcome → Nat
  oCorpusTotals : Bool
  nRunSeed : BitVec 32
  nRoundBase : Int
  driven : List DriveCall

/-- What is fixed when the harness is built and linked. -/
structure Build (σ : Type) where
  plat : Platform
  sync : VBLockSync
  parser : Parser σ

/-- A parser whose every call ends in the same way. -/
def constantParser (t : Turn) : Parser Unit where
  fresh := id
  recvP2PeerMsg _ oOv := ⟨t, 0, (), oOv⟩

/-- The harness over a parser that refuses whatever it is handed. -/
def refusingBuild : Build Unit := ⟨.posix, nativeSync, constantParser (.event none)⟩

variable {σ : Type}

/-- The globals when `main` starts. -/
def Proc.start (fs : FileSys) (io : σ) (szReproDir : CStr) (nSeed : BitVec 32) : Proc σ where
  cur := ⟨none, 0, 0, 0, 0, []⟩
  oCurWire := .zero
  szReproDir := fit 512 szReproDir
  fs := fs
  io := io
  nFindings := 0
  reports := []
  nAsserts := 0
  nAbandoned := 0
  nProgress := 0
  aTotals := fun _ => 0
  oCorpusTotals := false
  nRunSeed := nSeed
  nRoundBase := 0
  driven := []

/-! ## Section 2: Cursor and findings -/

/-- `SetCursor`. -/
def setCursor (pszCase : CStr) (nCase nIter : Int) (nSeed : BitVec 32) (w : Wire) (s : Proc σ) :
    Proc σ :=
  { s with
    cur := ⟨some pszCase, nCase, nIter, nSeed, w.n, firstBytes w.b (if w.n < 48 then w.n else 48)⟩
    oCurWire := w
    nProgress := s.nProgress + 1 }

/-- The tag of a reproducer, in its 96-byte buffer. -/
def reproTag (pszCase : Option CStr) (pszWhy : CStr) : CStr :=
  fit 96 (pszCase.getD (cstr "case") ++ cstr "-" ++ pszWhy)

/-- `EmitRepro`: write the current input out, if there is somewhere to write to. -/
def emitRepro (B : Build σ) (pszWhy : CStr) (s : Proc σ) : Proc σ :=
  if s.szReproDir = [] ∨ s.oCurWire.n = 0 then s
  else
    { s with fs := (fuzzWriteRepro B.plat s.fs s.szReproDir (some (reproTag s.cur.pszCase pszWhy))
        s.oCurWire.bytes).2 }

/-- `Finding`. -/
def finding (B : Build σ) (pszWhat pszWhy : CStr) (s : Proc σ) : Proc σ :=
  emitRepro B pszWhy
    { s with nFindings := s.nFindings + 1, reports := s.reports ++ [⟨pszWhat, pszWhy⟩] }

/-- A finding under a condition. -/
def findingIf (B : Build σ) (b : Bool) (pszWhat pszWhy : CStr) (s : Proc σ) : Proc σ :=
  if b then finding B pszWhat pszWhy s else s

/-- What there is to say of a call of `Drive` in a state. -/
def driveCall (B : Build σ) (oWire : Wire) (oRng : Rng) (bSplit : Bool) (s : Proc σ) : DriveCall :=
  let d := drive B.parser s.io oWire oRng bSplit
  ⟨s.cur, oWire.bytes, oRng, bSplit, d.oRes, d.nAsserts, d.chunks⟩

/-- A call of `Drive` under the current cursor. -/
def runDrive (B : Build σ) (oWire : Wire) (oRng : Rng) (bSplit : Bool) (s : Proc σ) :
    DriveResult × Proc σ :=
  let d := drive B.parser s.io oWire oRng bSplit
  (d.oRes, { s with
    io := d.io
    nAsserts := s.nAsserts + d.nAsserts
    nAbandoned := if d.oRes.eOutcome = .assert then s.nAbandoned + 1 else s.nAbandoned
    driven := s.driven ++ [driveCall B oWire oRng bSplit s] })

/-- `++aTotals[e]`. -/
def tally (e : Outcome) (s : Proc σ) : Proc σ :=
  { s with aTotals := Function.update s.aTotals e (s.aTotals e + 1) }

/-! ## Section 3: Corpus replay -/

/-- `CorpusOne`: a saved input is driven whole. -/
def corpusOne (B : Build σ) (pszPath : CStr) (p : List UInt8) (s : Proc σ) : Proc σ :=
  -- dropped without a word, although the walker counts it as replayed
  if p.length > kMaxWire then s
  else
    let w : Wire := ⟨ofBytes p, p.length⟩
    -- keyed by the content: there is no iteration to key it by
    let oRng := Rng.seed (iterState s.nRunSeed (-1) ((fuzzContentHash p).setWidth 32).toInt)
    let r := runDrive B w oRng false (setCursor (fit 512 pszPath) (-1) (-1) s.nRunSeed w s)
    let s₁ := if s.oCorpusTotals then tally r.1.eOutcome r.2 else r.2
    findingIf B (r.1.eOutcome == .escaped)
      (cstr "a SAVED CORPUS input made a non-P2Pevent exception escape")
      (cstr "corpus-escape") s₁

/-! ## Section 4: Expectations -/

/-- Does the result do what the seed vector must? -/
def satisfies : Expect → DriveResult → Bool
  | .msg1, oRes => oRes.eOutcome == .msg && oRes.nMsgs == 1
  | .msg2, oRes => oRes.nMsgs == 2
  | .refuse, oRes => oRes.eOutcome == .refused
  | .nomsg, oRes => oRes.nMsgs == 0
  | .any, _ => true

/-- The finding of a seed vector that does not. -/
def expectReport : Expect → Report
  | .msg1 => ⟨cstr ("positive control did not parse - the harness is not " ++
      "driving the parser, so every other PASS here is empty"), cstr "control"⟩
  | .msg2 => ⟨cstr ("two coalesced frames did not both parse - the frame " ++
      "re-entry reset (P2Peerio.cpp:529-532) is not clean"), cstr "reentry"⟩
  | .refuse => ⟨cstr ("a frame that must be REFUSED was not - the stage 2 bound " ++
      "this case pins (see the case comment) is gone"), cstr "unrefused"⟩
  | .nomsg => ⟨cstr ("a frame shorter than it claims produced a P2PeerMsg - " ++
      "the body was parsed out of uninitialised heap"), cstr "shortbody"⟩
  | .any => ⟨[], []⟩

/-- `CheckExpectation`: an input abandoned at an ASSERT is reported as untestable,
    which raises nothing. -/
def checkExpectation (B : Build σ) (oCase : Case) (oRes : DriveResult) (s : Proc σ) : Proc σ :=
  if oRes.eOutcome = .assert then s
  else
    let r := expectReport oCase.eExpect
    findingIf B (oRes.eOutcome == .escaped)
      (cstr "a non-P2Pevent exception escaped RecvP2PeerMsg") (cstr "escape")
      (findingIf B (!satisfies oCase.eExpect oRes) r.pszWhat r.pszWhy s)

/-! ## Section 5: The run -/

/-- What the argument loop leaves behind. -/
structure Args where
  nSeed : BitVec 32 := 0x5EEDF00D
  nIters : Int := 200
  nReplayCse : Int := -1
  nReplayItr : Int := -1
  nSeconds : Int := 0
  pszCorpus : Option CStr := none
  szReproDir : CStr := []
  nAssertBase : Int := -1

/-- The input of a case and an iteration: the seed vector for a negative one, else
    the mutant, and the generator as the mutator leaves it. -/
def caseInput (B : Build σ) (g : CaseTable) (nSeed : BitVec 32) (c : Fin kCases) (nIter : Int) :
    Wire × Rng :=
  let oRng := Rng.seed (iterState nSeed c.val nIter)
  if nIter ≥ 0 then mutate B.sync (g.slot c).oWire oRng else ((g.slot c).oWire, oRng)

/-- The seed vector of a case, its expectation checked. -/
def seedVector (B : Build σ) (g : CaseTable) (nSeed : BitVec 32) (c : Fin kCases) (s : Proc σ) :
    Proc σ :=
  let oCase := g.slot c
  let oRng := Rng.seed (iterState nSeed c.val (-1))
  let r := runDrive B oCase.oWire oRng oCase.bSplit
    (setCursor oCase.pszName c.val (-1) nSeed oCase.oWire s)
  checkExpectation B oCase r.1 (tally r.1.eOutcome r.2)

/-- One mutant of a case. -/
def mutant (B : Build σ) (g : CaseTable) (nSeed : BitVec 32) (c : Fin kCases) (s : Proc σ)
    (it0 : Nat) : Proc σ :=
  let oCase := g.slot c
  let it := s.nRoundBase + it0
  let m := mutate B.sync oCase.oWire (Rng.seed (iterState nSeed c.val it))
  let r := runDrive B m.1 m.2 oCase.bSplit (setCursor oCase.pszName c.val it nSeed m.1 s)
  findingIf B (r.1.eOutcome == .escaped)
    (cstr "a non-P2Pevent exception escaped RecvP2PeerMsg") (cstr "escape")
    (tally r.1.eOutcome r.2)

/-- The seed vector and the mutants of one case. -/
def runCase (B : Build σ) (g : CaseTable) (nSeed : BitVec 32) (nIters : Nat) (s : Proc σ)
    (c : Fin kCases) : Proc σ :=
  (List.range nIters).foldl (mutant B g nSeed c) (seedVector B g nSeed c s)

/-- One round over all cases, from the given iteration on. -/
def runRound (B : Build σ) (g : CaseTable) (nSeed : BitVec 32) (nIters : Nat) (s : Proc σ)
    (nRound : Nat) : Proc σ :=
  (List.finRange kCases).foldl (runCase B g nSeed nIters)
    { s with nRoundBase := nRound * (if nIters > 0 then nIters else 1) }

/-- Replay mode: one input. -/
def replay (B : Build σ) (g : CaseTable) (args : Args) (c : Fin kCases) (s : Proc σ) : Proc σ :=
  let oCase := g.slot c
  let oW := caseInput B g args.nSeed c args.nReplayItr
  let r := runDrive B oW.1 oW.2 oCase.bSplit
    (setCursor oCase.pszName c.val args.nReplayItr args.nSeed oW.1 s)
  let s₁ := tally r.1.eOutcome r.2
  -- only the unmutated vector has an expectation
  let s₂ := if args.nReplayItr < 0 then checkExpectation B oCase r.1 s₁ else s₁
  findingIf B (r.1.eOutcome == .escaped) (cstr "non-P2Pevent exception escaped") (cstr "escape") s₂

/-- The assert budget: the excess over a baseline that was given is counted as
    findings. -/
def assertBudget (nAssertBase : Int) (s : Proc σ) : Proc σ :=
  let nOver := s.nAsserts - nAssertBase
  if nAssertBase ≥ 0 ∧ nOver > 0 then { s with nFindings := s.nFindings + nOver } else s

/-- The corpus replay of `main`. -/
def corpusReplay (B : Build σ) (args : Args) (s : Proc σ) : WalkResult (Proc σ) :=
  match args.pszCorpus with
  | some pszCorpus =>
    if args.nReplayCse < 0 then
      let r := fuzzCorpusRun B.plat Proc.fs (corpusOne B) pszCorpus { s with oCorpusTotals := true }
      { r with user := { r.user with oCorpusTotals := false } }
    else ⟨s, 0, 0, 0⟩
  | none => ⟨s, 0, 0, 0⟩

/-- How many rounds are run. -/
def rounds (args : Args) (extra : Nat) : Nat :=
  if args.nSeconds ≤ 0 then 1 else 1 + extra

/-- The inputs of the run after the corpus: one for a replay, else the rounds.
    `none` is a replay of a case there is not. -/
def mainInputs (B : Build σ) (g : CaseTable) (args : Args) (extra : Nat) (s : Proc σ) :
    Option (Proc σ) :=
  if args.nReplayCse ≥ 0 then
    if h : args.nReplayCse.toNat < kCases then some (replay B g args ⟨args.nReplayCse.toNat, h⟩ s)
    else none
  else some ((List.range (rounds args extra)).foldl
    (runRound B g args.nSeed args.nIters.toNat) s)

/-- How `main` ends: the exit code, whether `RESULT: PASS` was printed, the counts
    of the corpus replay, and the globals. -/
structure RunResult (σ : Type) where
  nExit : Nat
  pass : Bool
  nCorpus : Nat
  nSkipped : Nat
  nUnlisted : Nat
  final : Proc σ

/-- `main`, from the built corpus to the exit code. -/
def mainRun (B : Build σ) (g : CaseTable) (args : Args) (extra : Nat) (fs : FileSys) (io : σ) :
    RunResult σ :=
  let walk := corpusReplay B args (.start fs io args.szReproDir args.nSeed)
  match mainInputs B g args extra walk.user with
  | none => ⟨2, false, walk.nRun, walk.nSkipped, walk.nUnlisted, walk.user⟩
  | some s =>
    let s' := assertBudget args.nAssertBase s
    if s'.nFindings = 0 then ⟨0, true, walk.nRun, walk.nSkipped, walk.nUnlisted, s'⟩
    else ⟨1, false, walk.nRun, walk.nSkipped, walk.nUnlisted, s'⟩

end FuzzFrame
