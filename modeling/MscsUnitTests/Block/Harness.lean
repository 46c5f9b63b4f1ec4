import MscsUnitTests.Corpus
import MscsUnitTests.Block.Blocks

/-! # The Block Harness: Targets, Findings and the Run

    The globals of `p2p_fuzzblock.cpp` and everything that moves them: the
    cursor, the findings, the four targets, one mutated round, the corpus
    callback, and `main` from the positive controls to the verdict.

    The hubs and their four parsers are parameters. A parser may change the hub
    it is called on in any way; of `ApplyRevocationList` the epoch it leaves
    behind can be read off the hub.
-/

open ByteMem FuzzRng CFiles FuzzCorpus

namespace FuzzBlock

/-! ## Section 1: Parsers and hubs -/

/-- `p2pauth::AuthResult`: every other code is a refusal. -/
inductive AuthResult where
  | authOk
  | refused (nCode : Nat)
  deriving DecidableEq

/-- `p2pauth::RevResult`. -/
inductive RevResult where
  | revOk
  | refused (nCode : Nat)
  deriving DecidableEq

/-- How a call of a parser ends: with a code, a `P2Pevent` or another exception. -/
inductive Answer (α : Type) where
  | returned (e : α)
  | event
  | escaped
  deriving DecidableEq

def Answer.map {α β : Type} (f : α → β) : Answer α → Answer β
  | .returned e => .returned (f e)
  | .event => .event
  | .escaped => .escaped

/-- The parsers, for the names and the message that the harness always passes:
    the answer and the hub afterwards. `VerifyRelay` is also handed the buffer for
    the attester's name, and gives it back as it leaves it. -/
structure Parsers (H : Type) where
  authVerifyLogin : H → List UInt8 → Answer AuthResult × H
  authVerifyAck : H → List UInt8 → Answer AuthResult × H
  verifyRelay : H → List UInt8 → List Nat → Answer AuthResult × List Nat × H
  applyRevocationList : H → List UInt8 → Answer RevResult × H
  epoch : H → Nat

/-- `Rig`: the hubs that something is verified on. -/
structure Rig (H : Type) where
  pClient : H
  pServer : H
  pReceiver : H
  pRevMutant : H

/-- What is fixed when the harness is built and linked. -/
structure Build (H : Type) where
  plat : Platform
  layout : AuthLayout
  parsers : Parsers H

/-! ## Section 2: State -/

/-- A finding: the text and the tag of the reproducer. -/
structure Report where
  pszWhat : CStr
  pszWhy : CStr
  deriving DecidableEq

/-- One input offered to a target by `RunMutant` or `CorpusOne`: the epoch of the
    mutants' receiver and the findings as it was offered, the answer, and the
    findings raised for it. -/
structure Offer where
  tgt : Target
  nIter : Int
  bytes : List UInt8
  epoch : Nat
  nFindings : Nat
  answer : Answer Bool
  raised : List Report

/-- The globals. `reports` and `offers` are history variables: the findings
    printed and the inputs offered, in order. -/
structure Proc (H : Type) where
  nCurTgt : Option Target
  nCurIter : Int
  nSeed : BitVec 32
  pszCurSrc : CStr
  oCurInput : Block
  szReproDir : CStr
  fs : FileSys
  rig : Rig H
  nFindings : Nat
  nProgress : Nat
  reports : List Report
  offers : List Offer

variable {H : Type}

/-- The globals when the rig has been set up. -/
def Proc.start (fs : FileSys) (rig : Rig H) (szReproDir : CStr) (nSeed : BitVec 32) : Proc H where
  nCurTgt := none
  nCurIter := -1
  nSeed := nSeed
  pszCurSrc := cstr "(none)"
  oCurInput := ⟨fun _ => 0, 0⟩
  szReproDir := fit 512 szReproDir
  fs := fs
  rig := rig
  nFindings := 0
  nProgress := 0
  reports := []
  offers := []

/-- `kTargetName`. -/
def kTargetName : Target → CStr
  | .login => cstr "login"
  | .ack => cstr "ack"
  | .relay => cstr "relay"
  | .revoke => cstr "revoke"

/-- The cursor and the current input. -/
def setCursor (t : Option Target) (nIter : Int) (pszSrc : CStr) (w : Block) (s : Proc H) :
    Proc H :=
  { s with nCurTgt := t, nCurIter := nIter, pszCurSrc := pszSrc, oCurInput := w }

/-- The tag of a reproducer, in its 64-byte buffer. -/
def reproTag (nCurTgt : Option Target) (pszWhy : CStr) : CStr :=
  fit 64 ((nCurTgt.map kTargetName).getD (cstr "unknown") ++ cstr "-" ++ pszWhy)

/-- `EmitRepro`. -/
def emitRepro (B : Build H) (pszWhy : CStr) (s : Proc H) : Proc H :=
  if s.szReproDir = [] ∨ s.oCurInput.n = 0 then s
  else
    { s with fs := (fuzzWriteRepro B.plat s.fs s.szReproDir (some (reproTag s.nCurTgt pszWhy))
        s.oCurInput.bytes).2 }

/-- `Finding`. -/
def finding (B : Build H) (pszWhat pszWhy : CStr) (s : Proc H) : Proc H :=
  emitRepro B pszWhy
    { s with nFindings := s.nFindings + 1, reports := s.reports ++ [⟨pszWhat, pszWhy⟩] }

/-- A finding under a condition. -/
def findingIf (B : Build H) (b : Bool) (pszWhat pszWhy : CStr) (s : Proc H) : Proc H :=
  if b then finding B pszWhat pszWhy s else s

/-! ## Section 3: The targets -/

/-- `wszAtt` before the call: `#` throughout, and a terminator. -/
def poisonedAtt (K : AuthLayout) : List Nat :=
  List.replicate (K.kRelayAttesterMax + 1) 35 ++ [0]

/-- A relay block was refused, and the attester's name is not empty. -/
def leaks (wszAtt : List Nat) : Answer AuthResult → Bool
  | .returned e => e != .authOk && wszAtt.headD 0 != 0
  | _ => false

/-- `RunTarget`: did the parser accept the input? Mutants of the revocation list
    have a receiver of their own. -/
def runTarget (B : Build H) (t : Target) (p : List UInt8) (bMutant : Bool) (s : Proc H) :
    Answer Bool × Proc H :=
  match t with
  | .login =>
    let r := B.parsers.authVerifyLogin s.rig.pServer p
    (r.1.map (· == .authOk), { s with rig := { s.rig with pServer := r.2 } })
  | .ack =>
    let r := B.parsers.authVerifyAck s.rig.pClient p
    (r.1.map (· == .authOk), { s with rig := { s.rig with pClient := r.2 } })
  | .relay =>
    let r := B.parsers.verifyRelay s.rig.pReceiver p (poisonedAtt B.layout)
    (r.1.map (· == .authOk),
      findingIf B (leaks r.2.1 r.1)
        (cstr "VerifyRelay REFUSED but still published an attester name") (cstr "leak")
        { s with rig := { s.rig with pReceiver := r.2.2 } })
  | .revoke =>
    -- the control and the mutants must not share an epoch
    if bMutant then
      let r := B.parsers.applyRevocationList s.rig.pRevMutant p
      (r.1.map (· == .revOk), { s with rig := { s.rig with pRevMutant := r.2 } })
    else
      let r := B.parsers.applyRevocationList s.rig.pReceiver p
      (r.1.map (· == .revOk), { s with rig := { s.rig with pReceiver := r.2 } })

/-- The texts in which `RunMutant` and `CorpusOne` differ. -/
structure OfferTexts where
  event : CStr
  escaped : CStr
  forged : CStr

def mutantTexts : OfferTexts where
  event := cstr "a block parser raised a P2Pevent instead of returning a code"
  escaped := cstr "a block parser let a non-P2Pevent exception escape"
  forged := cstr "a MUTATED signed block VERIFIED - a forgery was accepted"

def corpusTexts : OfferTexts where
  event := cstr "a corpus input made a block parser raise a P2Pevent"
  escaped := cstr "a corpus input made a block parser throw"
  forged := cstr "a corpus input VERIFIED against a signature it should not have"

/-- The finding for an answer: an exception, or a block that verified although it
    differs from the seed where the parser looks. -/
def judge (B : Build H) (aSeed : Target → Block) (texts : OfferTexts) (t : Target) (w : Block) :
    Answer Bool → Proc H → Proc H
  | .event, s => finding B texts.event (cstr "throw") s
  | .escaped, s => finding B texts.escaped (cstr "escape") s
  | .returned bAccepted, s =>
    -- the boundary is the seed's: the input's own header is not to be trusted
    let nSig := significantLen B.layout t (aSeed t)
    findingIf B (bAccepted && differsWithin w (aSeed t) nSig) texts.forged (cstr "forged") s

/-- What `RunMutant` and `CorpusOne` do with one input. -/
def offer (B : Build H) (aSeed : Target → Block) (texts : OfferTexts) (t : Target) (nIter : Int)
    (pszSrc : CStr) (w : Block) (s : Proc H) : Proc H :=
  let s₁ := setCursor (some t) nIter pszSrc w s
  let r := runTarget B t w.bytes true { s₁ with nProgress := s.nProgress + 1 }
  let s₂ := judge B aSeed texts t w r.1 r.2
  { s₂ with
    offers := s₂.offers ++ [{
      tgt := t
      nIter := nIter
      bytes := w.bytes
      epoch := B.parsers.epoch s.rig.pRevMutant
      nFindings := s.nFindings
      answer := r.1
      raised := s₂.reports.drop s.reports.length }] }

/-! ## Section 4: Mutants and saved inputs -/

/-- `RunMutant`. -/
def runMutant (B : Build H) (aSeed : Target → Block) (t : Target) (nIter : Int) (s : Proc H) :
    Proc H :=
  let oRng := Rng.seed (iterState s.nSeed t.index nIter)
  offer B aSeed mutantTexts t nIter (cstr "(mutated)") (mutate (aSeed t) oRng).1 s

/-- A saved input, cut to the buffer. -/
def savedBlock (p : List UInt8) : Block :=
  ⟨ofBytes p, if p.length < kMaxBlock then p.length else kMaxBlock⟩

/-- `CorpusOne`: a saved input is offered to every target. -/
def corpusOne (B : Build H) (aSeed : Target → Block) (pszPath : CStr) (p : List UInt8)
    (s : Proc H) : Proc H :=
  targets.foldl (fun s t => offer B aSeed corpusTexts t (-1) pszPath (savedBlock p) s) s

/-! ## Section 5: The run -/

/-- What the argument loop leaves behind. -/
structure Args where
  nSeed : BitVec 32 := 0x51CEB00D
  nIters : Int := 400
  nReplayTgt : Int := -1
  nReplayIter : Int := -1
  nSeconds : Int := 0
  pszCorpus : Option CStr := none
  szReproDir : CStr := cstr "fuzz-repro"

/-- One pass over the positive controls. The first part is `bControls`; it is none
    when an exception has ended the process. -/
def control (B : Build H) (aSeed : Target → Block) (acc : Option Bool × Proc H) (t : Target) :
    Option Bool × Proc H :=
  match acc.1 with
  | none => acc
  | some bControls =>
    let r := runTarget B t (aSeed t).bytes false
      (setCursor (some t) (-1) (cstr "(seed)") (aSeed t) acc.2)
    match r.1 with
    | .returned bOk => (some (bControls && bOk), r.2)
    | _ => (none, r.2)

/-- The corpus replay of `main`. -/
def corpusReplay (B : Build H) (aSeed : Target → Block) (args : Args) (s : Proc H) :
    WalkResult (Proc H) :=
  match args.pszCorpus with
  | some pszCorpus => fuzzCorpusRun B.plat Proc.fs (corpusOne B aSeed) pszCorpus s
  | none => ⟨s, 0, 0, 0⟩

/-- One round of mutants. -/
def runRound (B : Build H) (aSeed : Target → Block) (nIters : Int) (s : Proc H) (nRound : Nat) :
    Proc H :=
  targets.foldl (fun s t => (List.range nIters.toNat).foldl
    (fun s (i : Nat) => runMutant B aSeed t (nRound * nIters + i) s) s) s

/-- How many rounds are run; `extra` is how many more the clock lets start. -/
def rounds (args : Args) (extra : Nat) : Nat :=
  if args.nSeconds ≤ 0 then 1 else 1 + extra

/-- The target of a number. -/
def targetOf (n : Int) : Option Target :=
  targets.find? fun t => n == t.index

/-- The mutants of the run: one for a replay, else the rounds. `none` is a replay
    of a target there is not. -/
def mainMutants (B : Build H) (aSeed : Target → Block) (args : Args) (extra : Nat) (s : Proc H) :
    Option (Proc H) :=
  if args.nReplayTgt ≥ 0 then
    (targetOf args.nReplayTgt).map fun t => runMutant B aSeed t args.nReplayIter s
  else some ((List.range (rounds args extra)).foldl (runRound B aSeed args.nIters) s)

/-- How `main` ends: the exit code, none when an exception has ended the process,
    and the globals. -/
structure RunResult (H : Type) where
  nExit : Option Nat
  nCorpusRun : Nat
  nSkipped : Nat
  nUnlisted : Nat
  final : Proc H

/-- The part of `main` behind the controls. -/
def mainInputs (B : Build H) (aSeed : Target → Block) (args : Args) (extra : Nat) (s : Proc H) :
    RunResult H :=
  let walk := corpusReplay B aSeed args s
  match mainMutants B aSeed args extra walk.user with
  | none => ⟨some 2, walk.nRun, walk.nSkipped, walk.nUnlisted, walk.user⟩
  | some s =>
    -- the current input stays, only the cursor is cleared
    let s' := setCursor none (-1) (cstr "(done)") s.oCurInput s
    ⟨some (if s'.nFindings ≠ 0 then 1 else 0), walk.nRun, walk.nSkipped, walk.nUnlisted, s'⟩

/-- `main`, from the positive controls to the exit code. -/
def mainRun (B : Build H) (aSeed : Target → Block) (args : Args) (extra : Nat) (fs : FileSys)
    (rig : Rig H) : RunResult H :=
  let c := targets.foldl (control B aSeed) (some true, .start fs rig args.szReproDir args.nSeed)
  match c.1 with
  | none => ⟨none, 0, 0, 0, c.2⟩
  | some false => ⟨some 2, 0, 0, 0, c.2⟩
  | some true => mainInputs B aSeed args extra c.2

end FuzzBlock
