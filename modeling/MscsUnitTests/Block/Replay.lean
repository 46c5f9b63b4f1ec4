import MscsUnitTests.Block.Script
import MscsUnitTests.Block.Oracle

/-! # The Block Harness: Replaying an Input

    For whatever is being processed, `DumpCursor` prints a command with the seed,
    the target and the iteration. The generator of the mutator is a function of
    these three. The block it works on is not: it was signed by this process, with
    keys that no other process has. This module compares the two processes.
-/

open ByteMem FuzzRng CFiles FuzzCorpus EditScript

namespace FuzzBlock

variable {H : Type} {B : Build H} {aSeed aSeed' : Target → Block} {nSeed : BitVec 32}

/-! ## Section 1: Inputs and their commands -/

/-- The inputs of a run: the seeds as positive controls, mutants, and saved files,
    each of which is offered to every target. -/
inductive Input where
  | control (t : Target)
  | mutant (t : Target) (nIter : Int)
  | saved (t : Target) (p : List UInt8)

/-- The cursor's target. -/
def Input.tgt : Input → Target
  | .control t => t
  | .mutant t _ => t
  | .saved t _ => t

/-- The cursor's iteration. -/
def Input.nIter : Input → Int
  | .mutant _ nIter => nIter
  | _ => -1

/-- What `RunTarget` is handed. -/
def Input.bytes (aSeed : Target → Block) (nSeed : BitVec 32) : Input → List UInt8
  | .control t => (aSeed t).bytes
  | .mutant t nIter => (mutate (aSeed t) (Rng.seed (iterState nSeed t.index nIter))).1.bytes
  | .saved _ p => (savedBlock p).bytes

/-- What `DumpCursor` prints: `p2p_fuzzblock <seed> --replay <target> <iter>`. -/
def replayArgs (nSeed : BitVec 32) (t : Target) (nIter : Int) : Args :=
  { nSeed := nSeed, nReplayTgt := t.index, nReplayIter := nIter }

/-- The input that the command makes. -/
def Input.replayed (x : Input) : Input :=
  .mutant x.tgt x.nIter

/-! ## Section 2: What a run offers -/

/-- The offer is of this input. -/
structure Offer.Of (aSeed : Target → Block) (nSeed : BitVec 32) (o : Offer) (x : Input) : Prop where
  tgt : o.tgt = x.tgt
  nIter : o.nIter = x.nIter
  bytes : o.bytes = x.bytes aSeed nSeed

/-- All that has been offered are mutants and saved files. -/
structure OffersInputs (aSeed : Target → Block) (nSeed : BitVec 32) (s : Proc H) : Prop where
  seed : s.nSeed = nSeed
  offers : ∀ o ∈ s.offers, ∃ x : Input, o.Of aSeed nSeed x

/-- One more offer, of the input it was made for. -/
structure OneMore (aSeed : Target → Block) (nSeed : BitVec 32) (x : Input) (s u : Proc H)
    (o : Offer) : Prop where
  seed : u.nSeed = s.nSeed
  offers : u.offers = s.offers ++ [o]
  input : o.Of aSeed nSeed x

theorem offer_oneMore (texts : OfferTexts) (pszSrc : CStr) (x : Input) (w : Block)
    (hw : w.bytes = x.bytes aSeed nSeed) (s : Proc H) :
    ∃ o, OneMore aSeed nSeed x s (offer B aSeed texts x.tgt x.nIter pszSrc w s) o := by
  obtain ⟨o, ho, ht, hiter, hbytes⟩ := offer_step B aSeed texts x.tgt x.nIter pszSrc w s
  exact ⟨o, ho.nSeed, ho.offers, ht, hiter, hbytes.trans hw⟩

theorem runMutant_oneMore (B : Build H) (aSeed : Target → Block) (t : Target) (nIter : Int)
    (s : Proc H) :
    ∃ o, OneMore aSeed s.nSeed (.mutant t nIter) s (runMutant B aSeed t nIter s) o :=
  offer_oneMore mutantTexts _ (.mutant t nIter) _ rfl s

theorem OneMore.inputs {x : Input} {s u : Proc H} {o : Offer} (h : OneMore aSeed nSeed x s u o)
    (hs : OffersInputs aSeed nSeed s) : OffersInputs aSeed nSeed u := by
  refine ⟨h.seed.trans hs.seed, ?_⟩
  intro o' ho'
  rw [h.offers] at ho'
  rcases List.mem_append.mp ho' with ho' | ho'
  · exact hs.offers o' ho'
  · rw [List.mem_singleton.mp ho']
    exact ⟨x, h.input⟩

theorem runMutant_inputs (t : Target) (nIter : Int) {s : Proc H}
    (hs : OffersInputs aSeed nSeed s) :
    OffersInputs aSeed nSeed (runMutant B aSeed t nIter s) := by
  obtain ⟨o, ho⟩ := runMutant_oneMore B aSeed t nIter s
  rw [hs.seed] at ho
  exact ho.inputs hs

theorem saved_inputs (t : Target) (pszPath : CStr) (p : List UInt8) {s : Proc H}
    (hs : OffersInputs aSeed nSeed s) :
    OffersInputs aSeed nSeed (offer B aSeed corpusTexts t (-1) pszPath (savedBlock p) s) := by
  obtain ⟨o, ho⟩ := offer_oneMore (B := B) corpusTexts pszPath (.saved t p) (savedBlock p) rfl s
  exact ho.inputs hs

/-- Every offer of a run is of a mutant or a saved file. -/
theorem mainRun_offers_inputs (args : Args) (extra : Nat) (fs : FileSys) (rig : Rig H) :
    ∀ o ∈ (mainRun B aSeed args extra fs rig).final.offers,
      ∃ x : Input, o.Of aSeed args.nSeed x := by
  have hrun := mainRun_rule (B := B) (I := OffersInputs aSeed args.nSeed)
    (fun s t nIter hs => runMutant_inputs t nIter hs)
    (fun s t pszPath p hs => saved_inputs t pszPath p hs)
    (fun s t nIter pszSrc w hs => ⟨hs.seed, hs.offers⟩) args extra fs rig ?_
  · rcases hrun with hnone | hinputs
    · intro o ho
      rw [hnone] at ho
      cases ho
    · exact hinputs.offers
  · intro s hs
    refine ⟨hs.nSeed, ?_⟩
    intro o ho
    rw [hs.offers] at ho
    cases ho

/-! ## Section 3: What the command makes -/

theorem targetOf_index (t : Target) : targetOf t.index = some t := by
  cases t with
  | login => decide
  | ack => decide
  | relay => decide
  | revoke => decide

/-- What the controls leave behind. -/
theorem controls_offers (B : Build H) (aSeed : Target → Block) (args : Args) (fs : FileSys)
    (rig : Rig H) :
    (targets.foldl (control B aSeed)
        (some true, .start fs rig args.szReproDir args.nSeed)).2.offers = [] ∧
      (targets.foldl (control B aSeed)
        (some true, .start fs rig args.szReproDir args.nSeed)).2.nSeed = args.nSeed := by
  have hstart : ControlLoop (H := H) B aSeed rig args.nSeed []
      (some true, .start fs rig args.szReproDir args.nSeed) := by
    refine ⟨rfl, rfl, rfl, ?_⟩
    intro _ t ht
    cases ht
  have hloop := controls_loop (B := B) targets [] _ hstart
  exact ⟨hloop.offers, hloop.nSeed⟩

/-- All the command offers is the mutant of the printed target and iteration; and
    nothing when a control fails. -/
theorem replay_offers (t : Target) (nIter : Int) (extra : Nat) (fs : FileSys) (rig : Rig H) :
    ∀ o ∈ (mainRun B aSeed (replayArgs nSeed t nIter) extra fs rig).final.offers,
      o.Of aSeed nSeed (.mutant t nIter) := by
  let args := replayArgs nSeed t nIter
  obtain ⟨hoffers, hseed⟩ := controls_offers B aSeed args fs rig
  generalize hacc : targets.foldl (control B aSeed)
    (some true, .start fs rig args.szReproDir args.nSeed) = acc at hoffers hseed
  -- without a corpus, the one mutant is all
  have hwalk : (corpusReplay B aSeed args acc.2).user = acc.2 := rfl
  have hmutants : mainMutants B aSeed args extra acc.2 =
      some (runMutant B aSeed t nIter acc.2) := by
    have hreplay : args.nReplayTgt ≥ 0 := Int.natCast_nonneg t.index
    have htarget : targetOf args.nReplayTgt = some t := targetOf_index t
    unfold mainMutants
    rw [if_pos hreplay, htarget]
    rfl
  obtain ⟨o', ho'⟩ := runMutant_oneMore B aSeed t nIter acc.2
  intro o ho
  unfold mainRun mainInputs at ho
  dsimp only at ho
  rw [hacc, hwalk, hmutants] at ho
  split at ho
  · rw [hoffers] at ho
    cases ho
  · rw [hoffers] at ho
    cases ho
  · have hone : (runMutant B aSeed t nIter acc.2).offers = [o'] := by
      rw [ho'.offers, hoffers, List.nil_append]
    have hmem : o ∈ (runMutant B aSeed t nIter acc.2).offers := ho
    have hinput := ho'.input
    rw [hone] at hmem
    rw [hseed] at hinput
    rw [List.mem_singleton.mp hmem]
    exact hinput

/-! ## Section 4: Two processes -/

/-- The bytes of an input in terms of the seed block of its target. -/
def Input.cells (aSeed : Target → Block) (nSeed : BitVec 32) : Input → Buf Cell
  | .control t => original (aSeed t).n
  | .mutant t nIter => mutantCells (aSeed t).n (Rng.seed (iterState nSeed t.index nIter))
  | .saved _ p => ⟨fun i => .lit ((savedBlock p).b i), (savedBlock p).n⟩

def bufBytes (w : Buf UInt8) : List UInt8 :=
  firstBytes w.b w.n

theorem Block.bytes_eq_buf (w : Block) : w.bytes = bufBytes w.buf := rfl

theorem bufBytes_eq_iff (w w' : Buf Cell) (a a' : Mem) :
    bufBytes (w.map (Cell.eval a)) = bufBytes (w'.map (Cell.eval a')) ↔ SameBytes w a w' a' := by
  have hcells : ∀ (v : Buf Cell) (c : Mem), bufBytes (v.map (Cell.eval c)) =
      firstBytes (fun i => (v.b i).eval c) v.n := fun _ _ => rfl
  rw [hcells, hcells]
  constructor
  · intro h
    have hlen : w.n = w'.n := by simpa using congrArg List.length h
    refine ⟨hlen, ?_⟩
    rw [← hlen] at h
    exact (firstBytes_eq_iff _ _ w.n).mp h
  · rintro ⟨hlen, h⟩
    rw [← hlen]
    exact (firstBytes_eq_iff _ _ w.n).mpr h

/-- The cells of an input say what its bytes are. -/
theorem Input.bytes_eq_cells (x : Input) :
    x.bytes aSeed nSeed = bufBytes ((x.cells aSeed nSeed).map (Cell.eval (aSeed x.tgt).b)) := by
  cases x with
  | control t =>
    show (aSeed t).bytes = bufBytes ((original (aSeed t).n).map (Cell.eval (aSeed t).b))
    rw [original_eval]
    rfl
  | mutant t nIter =>
    show Block.bytes _ = bufBytes ((mutantCells (aSeed t).n _).map (Cell.eval (aSeed t).b))
    rw [← mutate_eq_cells]
    exact Block.bytes_eq_buf _
  | saved t p => rfl

/-- The input can be had again: the mutant that the second process makes comes out,
    byte for byte, as the input of the first. -/
def Repeatable (aSeed aSeed' : Target → Block) (nSeed : BitVec 32) (x : Input) : Prop :=
  SameBytes (x.cells aSeed nSeed) (aSeed x.tgt).b
    (x.replayed.cells aSeed' nSeed) (aSeed' x.tgt).b

/-- A byte of the seed block that is in the mutant. -/
def SurvivesMutation (oSeed : Block) (nSeed : BitVec 32) (t : Target) (nIter : Int) (j : Nat) :
    Prop :=
  Survives (mutantCells oSeed.n (Rng.seed (iterState nSeed t.index nIter))) j

/-- Such a byte is one of those that count. -/
theorem SurvivesMutation.lt {oSeed : Block} {t : Target} {nIter : Int} {j : Nat}
    (h : SurvivesMutation oSeed nSeed t nIter j) : j < oSeed.n :=
  survives_lt (plan_within oSeed.n _) h

/-- Of blocks of one length, a mutant can be had again exactly when the two blocks
    agree in every byte that survives in it. -/
theorem repeatable_mutant_iff (t : Target) (nIter : Int) (hlen : (aSeed t).n = (aSeed' t).n) :
    Repeatable aSeed aSeed' nSeed (.mutant t nIter) ↔
      ∀ j, SurvivesMutation (aSeed t) nSeed t nIter j → (aSeed t).b j = (aSeed' t).b j := by
  have hcells : (Input.mutant t nIter).cells aSeed' nSeed =
      (Input.mutant t nIter).cells aSeed nSeed := by
    unfold Input.cells
    dsimp only
    rw [hlen]
  unfold Repeatable
  rw [show (Input.mutant t nIter).replayed = .mutant t nIter from rfl, hcells]
  exact sameBytes_self_iff _ _ _

/-- The same keys, nonces and signatures make every mutant repeatable. -/
theorem repeatable_mutant_self (t : Target) (nIter : Int) :
    Repeatable aSeed aSeed nSeed (.mutant t nIter) := by
  apply (repeatable_mutant_iff t nIter rfl).mpr
  intro j _
  rfl

/-- **What the command repeats**: a second process that runs what was printed for an
    input of the first hands the parser the same bytes exactly when the input can be
    had again. Of a mutant, over seed blocks of one length, that is when every byte
    that survives in it is the same in the two blocks. -/
theorem replay_repeats_iff (B : Build H) (aSeed aSeed' : Target → Block) (nSeed : BitVec 32)
    (x : Input) (extra : Nat) (fs : FileSys) (rig : Rig H) {o : Offer}
    (ho : o ∈ (mainRun B aSeed' (replayArgs nSeed x.tgt x.nIter) extra fs rig).final.offers) :
    (o.bytes = x.bytes aSeed nSeed ↔ Repeatable aSeed aSeed' nSeed x) ∧
      ∀ t nIter, x = .mutant t nIter → (aSeed t).n = (aSeed' t).n →
        (o.bytes = x.bytes aSeed nSeed ↔
          ∀ j, SurvivesMutation (aSeed t) nSeed t nIter j → (aSeed t).b j = (aSeed' t).b j) := by
  have hiff : o.bytes = x.bytes aSeed nSeed ↔ Repeatable aSeed aSeed' nSeed x := by
    have hbytes : o.bytes = x.replayed.bytes aSeed' nSeed :=
      (replay_offers x.tgt x.nIter extra fs rig o ho).bytes
    rw [hbytes, x.bytes_eq_cells, x.replayed.bytes_eq_cells, eq_comm]
    exact bufBytes_eq_iff _ _ _ _
  refine ⟨hiff, ?_⟩
  rintro t nIter rfl hlen
  rw [hiff]
  exact repeatable_mutant_iff t nIter hlen

/-! ## Section 5: Other keys -/

/-- The sample blocks with other keys and signatures behind the headers. -/
def rekeyedSeeds (t : Target) : Block :=
  ⟨fun i => if i < 13 then (sampleSeeds t).b i else 1, (sampleSeeds t).n⟩

/-- The process that runs the command for an input, over these blocks. -/
def rekeyedReplay (x : Input) : RunResult Nat :=
  mainRun (idealBuild sampleLayout rekeyedSeeds 7) rekeyedSeeds (replayArgs 66 x.tgt x.nIter) 0
    .empty ⟨0, 0, 0, 0⟩

/-- A mutant that is cut down to a part of the header is had again. -/
theorem replay_repeats_iff_header :
    ∃ o ∈ (rekeyedReplay (.mutant .login 9)).final.offers,
      o.bytes = (Input.mutant .login 9).bytes sampleSeeds 66 ∧
        Repeatable sampleSeeds rekeyedSeeds 66 (.mutant .login 9) := by
  have hsame : ∃ o ∈ (rekeyedReplay (.mutant .login 9)).final.offers,
      o.bytes = (Input.mutant .login 9).bytes sampleSeeds 66 := by
    decide +kernel
  unfold rekeyedReplay at hsame ⊢
  obtain ⟨o, ho, hbytes⟩ := hsame
  have hiff := (replay_repeats_iff (idealBuild sampleLayout rekeyedSeeds 7) sampleSeeds
    rekeyedSeeds 66 (.mutant .login 9) 0 .empty ⟨0, 0, 0, 0⟩ ho).1
  exact ⟨o, ho, hbytes, hiff.mp hbytes⟩

/-- **The printed command can hand the parser something else**: another process has
    other keys in its blocks. -/
theorem replay_command_can_differ :
    ¬ ∀ (B B' : Build Nat) (aSeed aSeed' : Target → Block) (args : Args) (extra extra' : Nat)
      (fs fs' : FileSys) (rig rig' : Rig Nat), (∀ t, (aSeed t).n = (aSeed' t).n) →
      ∀ o ∈ (mainRun B aSeed args extra fs rig).final.offers,
        ∀ o' ∈ (mainRun B' aSeed' (replayArgs args.nSeed o.tgt o.nIter) extra' fs'
          rig').final.offers, o'.bytes = o.bytes := by
  intro hclaim
  have hdiffer : ∃ o ∈ (splicedRun 1).final.offers,
      ∃ o' ∈ (rekeyedReplay (.mutant o.tgt o.nIter)).final.offers, o'.bytes ≠ o.bytes := by
    decide +kernel
  unfold splicedRun rekeyedReplay at hdiffer
  obtain ⟨o, ho, o', ho', hne⟩ := hdiffer
  have hlen : ∀ t, (sampleSeeds t).n = (rekeyedSeeds t).n := fun _ => rfl
  have hcommand : replayArgs 66 (Input.mutant o.tgt o.nIter).tgt (Input.mutant o.tgt o.nIter).nIter
      = replayArgs (Args.nSeed { nSeed := 66, nIters := 1 }) o.tgt o.nIter := rfl
  rw [hcommand] at ho'
  apply hne
  exact hclaim (idealBuild sampleLayout sampleSeeds 7) (idealBuild sampleLayout rekeyedSeeds 7)
    sampleSeeds rekeyedSeeds { nSeed := 66, nIters := 1 } 0 0 .empty .empty ⟨0, 0, 0, 0⟩
    ⟨0, 0, 0, 0⟩ hlen o ho o' ho'

end FuzzBlock
