import MscsUnitTests.Block.Oracle

/-! # The Block Harness: A Saved Forgery in Another Process

    A finding tagged `forged` is about an input, the keys of the process and the
    block that this process has issued. What is saved is the input. This module
    says what becomes of it in a process with other keys and other blocks, when a
    block verifier is a function of the verifying key and the bytes.
-/

open ByteMem FuzzRng CFiles FuzzCorpus

namespace FuzzBlock

variable {H Key : Type} {B : Build H} {aSeed : Target → Block}

/-! ## Section 1: Verifiers -/

/-- The hub that mutants and saved files of a target are verified on. -/
def Rig.hub (rig : Rig H) : Target → H
  | .login => rig.pServer
  | .ack => rig.pClient
  | .relay => rig.pReceiver
  | .revoke => rig.pRevMutant

/-- The call that `RunTarget` makes on a hub. -/
def verifyOn (B : Build H) (h : H) (p : List UInt8) : Target → Answer Bool × H
  | .login => ((B.parsers.authVerifyLogin h p).1.map (· == .authOk),
      (B.parsers.authVerifyLogin h p).2)
  | .ack => ((B.parsers.authVerifyAck h p).1.map (· == .authOk), (B.parsers.authVerifyAck h p).2)
  | .relay => ((B.parsers.verifyRelay h p (poisonedAtt B.layout)).1.map (· == .authOk),
      (B.parsers.verifyRelay h p (poisonedAtt B.layout)).2.2)
  | .revoke => ((B.parsers.applyRevocationList h p).1.map (· == .revOk),
      (B.parsers.applyRevocationList h p).2)

/-- The parsers verify: whether a block is accepted is a function of the verifying
    key that the hub was given and of the bytes, and no call changes the key. -/
structure VerifiedBy (B : Build H) (pub : H → Key) (V : Target → Key → List UInt8 → Bool) :
    Prop where
  answer : ∀ t h p, (verifyOn B h p t).1 = .returned (V t (pub h) p)
  key : ∀ t h p, pub (verifyOn B h p t).2 = pub h

/-- The verifying keys are the same. -/
structure Keyed (pub : H → Key) (rig rig' : Rig H) : Prop where
  pClient : pub rig'.pClient = pub rig.pClient
  pServer : pub rig'.pServer = pub rig.pServer
  pReceiver : pub rig'.pReceiver = pub rig.pReceiver
  pRevMutant : pub rig'.pRevMutant = pub rig.pRevMutant

theorem Keyed.trans {pub : H → Key} {rig₁ rig₂ rig₃ : Rig H} (h : Keyed pub rig₁ rig₂)
    (h' : Keyed pub rig₂ rig₃) : Keyed pub rig₁ rig₃ where
  pClient := h'.pClient.trans h.pClient
  pServer := h'.pServer.trans h.pServer
  pReceiver := h'.pReceiver.trans h.pReceiver
  pRevMutant := h'.pRevMutant.trans h.pRevMutant

theorem Keyed.hub {pub : H → Key} {rig rig' : Rig H} (h : Keyed pub rig rig') (t : Target) :
    pub (rig'.hub t) = pub (rig.hub t) := by
  cases t with
  | login => exact h.pServer
  | ack => exact h.pClient
  | relay => exact h.pReceiver
  | revoke => exact h.pRevMutant

/-! ## Section 2: What is reported for one input -/

/-- A forgery is among what has been reported on the way. -/
def RaisesForged (s u : Proc H) : Prop :=
  ∃ r ∈ u.reports.drop s.reports.length, r.pszWhy = cstr "forged"

/-- What `RunMutant` prints for a forgery is among the findings of the offer. -/
def Offer.Forged (o : Offer) : Prop :=
  ⟨mutantTexts.forged, cstr "forged"⟩ ∈ o.raised

instance (o : Offer) : Decidable o.Forged :=
  inferInstanceAs (Decidable (_ ∈ _))

/-- The input differs from the block of this process where the parser looks. -/
def differsFromSeed (B : Build H) (aSeed : Target → Block) (t : Target) (x : List UInt8) : Bool :=
  differsWithin (savedBlock x) (aSeed t) (significantLen B.layout t (aSeed t))

/-- The keys are kept, and no forgery is reported. -/
structure QuietCall (pub : H → Key) (s u : Proc H) : Prop where
  keyed : Keyed pub s.rig u.rig
  quiet : ∃ rs, u.reports = s.reports ++ rs ∧ ∀ r ∈ rs, r.pszWhy ≠ cstr "forged"

section verifier
variable {pub : H → Key} {V : Target → Key → List UInt8 → Bool} (hV : VerifiedBy B pub V)
include hV

theorem runTarget_call (t : Target) (p : List UInt8) (bMutant : Bool) (s : Proc H) :
    QuietCall pub s (runTarget B t p bMutant s).2 := by
  have hnil : ∃ rs, s.reports = s.reports ++ rs ∧ ∀ r ∈ rs, r.pszWhy ≠ cstr "forged" := by
    refine ⟨[], (List.append_nil _).symm, ?_⟩
    intro e he
    cases he
  cases t with
  | login => exact ⟨⟨rfl, hV.key .login s.rig.pServer p, rfl, rfl⟩, hnil⟩
  | ack => exact ⟨⟨hV.key .ack s.rig.pClient p, rfl, rfl, rfl⟩, hnil⟩
  | relay =>
    have h := relay_reported B p s
    constructor
    · show Keyed pub s.rig (findingIf B _ _ _ _).rig
      rw [h.rig]
      exact ⟨rfl, rfl, hV.key .relay s.rig.pReceiver p, rfl⟩
    · refine ⟨_, h.reports, ?_⟩
      intro e he
      -- the tag of a leak is another one
      cases hleak : leaks (B.parsers.verifyRelay s.rig.pReceiver p (poisonedAtt B.layout)).2.1
        (B.parsers.verifyRelay s.rig.pReceiver p (poisonedAtt B.layout)).1 with
      | true =>
        rw [hleak, if_pos rfl] at he
        rw [List.mem_singleton.mp he]
        decide
      | false =>
        rw [hleak] at he
        cases he
  | revoke =>
    cases bMutant with
    | true => exact ⟨⟨rfl, rfl, rfl, hV.key .revoke s.rig.pRevMutant p⟩, hnil⟩
    | false => exact ⟨⟨rfl, rfl, hV.key .revoke s.rig.pReceiver p, rfl⟩, hnil⟩

/-- A mutant or a saved file is answered by the verifier, for the key of the
    target's hub. -/
theorem runTarget_answer (t : Target) (p : List UInt8) (s : Proc H) :
    (runTarget B t p true s).1 = .returned (V t (pub (s.rig.hub t)) p) := by
  cases t with
  | login => exact hV.answer .login s.rig.pServer p
  | ack => exact hV.answer .ack s.rig.pClient p
  | relay => exact hV.answer .relay s.rig.pReceiver p
  | revoke => exact hV.answer .revoke s.rig.pRevMutant p

/-- **One input, one target**: a forgery is reported exactly when the verifier accepts
    the input for the key of this process and it differs from the block of this
    process. -/
theorem offer_forged (aSeed : Target → Block) (texts : OfferTexts) (t : Target) (nIter : Int)
    (pszSrc : CStr) (w : Block) (s : Proc H) :
    Keyed pub s.rig (offer B aSeed texts t nIter pszSrc w s).rig ∧
      ∃ rs, (offer B aSeed texts t nIter pszSrc w s).reports = s.reports ++ rs ∧
        ((∃ r ∈ rs, r.pszWhy = cstr "forged") ↔ V t (pub (s.rig.hub t)) w.bytes = true ∧
          differsWithin w (aSeed t) (significantLen B.layout t (aSeed t)) = true) := by
  let s₁ : Proc H := { setCursor (some t) nIter pszSrc w s with nProgress := s.nProgress + 1 }
  let bForged := V t (pub (s.rig.hub t)) w.bytes &&
    differsWithin w (aSeed t) (significantLen B.layout t (aSeed t))
  have hcall := runTarget_call hV t w.bytes true s₁
  obtain ⟨rs, hrs, hquiet⟩ := hcall.quiet
  have hanswer : (runTarget B t w.bytes true s₁).1 = .returned (V t (pub (s.rig.hub t)) w.bytes) :=
    runTarget_answer hV t w.bytes s₁
  have hjudge := findingIf_reported B bForged texts.forged (cstr "forged")
    (runTarget B t w.bytes true s₁).2
  have hu : judge B aSeed texts t w (runTarget B t w.bytes true s₁).1
      (runTarget B t w.bytes true s₁).2 =
      findingIf B bForged texts.forged (cstr "forged") (runTarget B t w.bytes true s₁).2 := by
    rw [hanswer]
    rfl
  constructor
  · show Keyed pub s.rig (judge B aSeed texts t w (runTarget B t w.bytes true s₁).1
      (runTarget B t w.bytes true s₁).2).rig
    rw [hu, hjudge.rig]
    exact hcall.keyed
  · refine ⟨rs ++ (if bForged then [⟨texts.forged, cstr "forged"⟩] else []), ?_, ?_⟩
    · show (judge B aSeed texts t w (runTarget B t w.bytes true s₁).1
        (runTarget B t w.bytes true s₁).2).reports = _
      rw [hu, hjudge.reports, hrs, List.append_assoc]
      rfl
    · rw [← Bool.and_eq_true]
      show _ ↔ bForged = true
      constructor
      · rintro ⟨r, hr, hwhy⟩
        rcases List.mem_append.mp hr with hr | hr
        · exact absurd hwhy (hquiet r hr)
        · by_contra hno
          rw [if_neg hno] at hr
          cases hr
      · intro hforged
        refine ⟨⟨texts.forged, cstr "forged"⟩, ?_, rfl⟩
        rw [if_pos hforged]
        exact List.mem_append_right _ (List.mem_singleton_self _)

/-- A saved input is judged by every target. -/
theorem foldl_offer_forged (aSeed : Target → Block) (pszPath : CStr) (w : Block)
    (ts : List Target) (s : Proc H) :
    Keyed pub s.rig
        (ts.foldl (fun s t => offer B aSeed corpusTexts t (-1) pszPath w s) s).rig ∧
      ∃ rs, (ts.foldl (fun s t => offer B aSeed corpusTexts t (-1) pszPath w s) s).reports =
          s.reports ++ rs ∧
        ((∃ r ∈ rs, r.pszWhy = cstr "forged") ↔ ∃ t ∈ ts,
          V t (pub (s.rig.hub t)) w.bytes = true ∧
            differsWithin w (aSeed t) (significantLen B.layout t (aSeed t)) = true) := by
  induction ts generalizing s with
  | nil =>
    refine ⟨⟨rfl, rfl, rfl, rfl⟩, [], (List.append_nil _).symm, ?_⟩
    simp
  | cons t ts ih =>
    obtain ⟨hkeyed, rs, hrs, hforged⟩ := offer_forged hV aSeed corpusTexts t (-1)
      pszPath w s
    obtain ⟨hkeyed', rs', hrs', hforged'⟩ := ih (offer B aSeed corpusTexts t (-1) pszPath w s)
    refine ⟨hkeyed.trans hkeyed', rs ++ rs', ?_, ?_⟩
    · rw [List.foldl_cons, hrs', hrs, List.append_assoc]
    · -- the other targets see the keys they would have seen before
      simp only [hkeyed.hub] at hforged'
      simp only [List.mem_append, List.mem_cons, or_and_right, exists_or, exists_eq_left, hforged,
        hforged']

/-- **A saved input in a process**: the replay of the file reports a forgery exactly
    when some target's verifier accepts it for the key of this process and it differs
    from this process's block. -/
theorem corpusOne_forged (pszPath : CStr) (x : List UInt8) (s : Proc H) :
    Keyed pub s.rig (corpusOne B aSeed pszPath x s).rig ∧
      (RaisesForged s (corpusOne B aSeed pszPath x s) ↔
        ∃ t, V t (pub (s.rig.hub t)) (savedBlock x).bytes = true ∧
          differsFromSeed B aSeed t x = true) := by
  obtain ⟨hkeyed, rs, hrs, hforged⟩ := foldl_offer_forged hV aSeed pszPath
    (savedBlock x) targets s
  refine ⟨hkeyed, ?_⟩
  unfold RaisesForged corpusOne
  rw [hrs, List.drop_left, hforged]
  constructor
  · rintro ⟨t, -, h⟩
    exact ⟨t, h⟩
  · rintro ⟨t, h⟩
    exact ⟨t, mem_targets t, h⟩

end verifier

/-! ## Section 3: The second process -/

/-- The states of a process in which a saved file is handed to `CorpusOne`: behind the
    controls, and behind the files before it. -/
inductive Walked (B : Build H) (aSeed : Target → Block) (args : Args) (fs : FileSys) (rig : Rig H) :
    Proc H → Prop
  | controls {s : Proc H}
      (h : targets.foldl (control B aSeed)
        (some true, .start fs rig args.szReproDir args.nSeed) = (some true, s)) :
      Walked B aSeed args fs rig s
  | saved {s : Proc H} (pszPath : CStr) (p : List UInt8) (h : Walked B aSeed args fs rig s) :
      Walked B aSeed args fs rig (corpusOne B aSeed pszPath p s)

/-- The corpus replay goes through such states only. -/
theorem corpusReplay_walked {args : Args} {fs : FileSys} {rig : Rig H} {s : Proc H}
    (hs : Walked B aSeed args fs rig s) :
    Walked B aSeed args fs rig (corpusReplay B aSeed args s).user := by
  unfold corpusReplay
  split
  · refine fuzzCorpusRun_inv B.plat Proc.fs (corpusOne B aSeed) ?_ _ s hs
    intro s pszPath p hs _ _
    exact .saved pszPath p hs
  · exact hs

section verifier
variable {pub : H → Key} {V : Target → Key → List UInt8 → Bool} (hV : VerifiedBy B pub V)
include hV

theorem controls_keyed (aSeed : Target → Block) (ts : List Target) (acc : Option Bool × Proc H) :
    Keyed pub acc.2.rig (ts.foldl (control B aSeed) acc).2.rig := by
  induction ts generalizing acc with
  | nil => exact ⟨rfl, rfl, rfl, rfl⟩
  | cons t ts ih =>
    have hstep : Keyed pub acc.2.rig (control B aSeed acc t).2.rig := by
      obtain ⟨bControls, s⟩ := acc
      cases bControls with
      | none => exact ⟨rfl, rfl, rfl, rfl⟩
      | some bControls =>
        have hcall := (runTarget_call hV t (aSeed t).bytes false
          (setCursor (some t) (-1) (cstr "(seed)") (aSeed t) s)).keyed
        unfold control
        dsimp only
        split
        · exact hcall
        · exact hcall
    exact hstep.trans (ih (control B aSeed acc t))

/-- The process keeps the keys it was started with. -/
theorem Walked.keyed {args : Args} {fs : FileSys} {rig : Rig H} {s : Proc H}
    (hs : Walked B aSeed args fs rig s) : Keyed pub rig s.rig := by
  induction hs with
  | controls h =>
    have hkeyed := controls_keyed hV aSeed targets
      (some true, .start fs rig args.szReproDir args.nSeed)
    rw [h] at hkeyed
    exact hkeyed
  | saved pszPath p _ ih => exact ih.trans (corpusOne_forged hV pszPath p _).1

end verifier

/-- What fits the buffer is handed on as it is. -/
theorem savedBlock_bytes {x : List UInt8} (hx : x.length ≤ kMaxBlock) :
    (savedBlock x).bytes = x := by
  have hlen : (savedBlock x).n = x.length := by
    unfold savedBlock
    dsimp only
    split <;> omega
  unfold Block.bytes
  rw [hlen]
  exact firstBytes_ofBytes x

/-- **When a saved input accuses**: in any process with this verifier, at any point of
    its corpus replay, `CorpusOne` raises a forgery for a file exactly when some target
    of the process accepts the bytes for the process's own key, and they differ from
    the process's own block where the parser looks. -/
theorem saved_forgery_accuses_iff {pub : H → Key} {V : Target → Key → List UInt8 → Bool}
    (hV : VerifiedBy B pub V) {args : Args} {fs : FileSys} {rig : Rig H} {s : Proc H}
    (hs : Walked B aSeed args fs rig s) (pszPath : CStr) {x : List UInt8}
    (hx : x.length ≤ kMaxBlock) :
    RaisesForged s (corpusOne B aSeed pszPath x s) ↔
      ∃ t, V t (pub (rig.hub t)) x = true ∧ differsFromSeed B aSeed t x = true := by
  rw [(corpusOne_forged hV pszPath x s).2, savedBlock_bytes hx]
  simp only [(hs.keyed hV).hub]

/-! ## Section 4: From one process to another -/

section verifier
variable {pub : H → Key} {V : Target → Key → List UInt8 → Bool} (hV : VerifiedBy B pub V)
include hV

/-- `RunMutant` raises a forgery on the same two conditions, for its own target. -/
theorem runMutant_forged (aSeed : Target → Block) (t : Target) (nIter : Int) (s : Proc H) :
    ∃ w : Block, w = (mutate (aSeed t) (Rng.seed (iterState s.nSeed t.index nIter))).1 ∧
      (RaisesForged s (runMutant B aSeed t nIter s) ↔
        V t (pub (s.rig.hub t)) w.bytes = true ∧
          differsWithin w (aSeed t) (significantLen B.layout t (aSeed t)) = true) := by
  refine ⟨_, rfl, ?_⟩
  obtain ⟨-, rs, hrs, hforged⟩ := offer_forged hV aSeed mutantTexts t nIter
    (cstr "(mutated)") (mutate (aSeed t) (Rng.seed (iterState s.nSeed t.index nIter))).1 s
  unfold RaisesForged runMutant
  rw [hrs, List.drop_left]
  exact hforged

/-- **A forgery that is kept**: a verifier that gives the same answer for the keys of
    both processes is accused again, unless the input happens to be what the second
    process has issued itself. -/
theorem forgery_kept {aSeed' : Target → Block} {args : Args} {fs : FileSys} {rig : Rig H}
    {s s' : Proc H} {t : Target} {nIter : Int} {w : Block}
    (hw : w = (mutate (aSeed t) (Rng.seed (iterState s.nSeed t.index nIter))).1)
    (hn : w.n ≤ kMaxBlock) (hforged : RaisesForged s (runMutant B aSeed t nIter s))
    (hs' : Walked B aSeed' args fs rig s')
    (hsame : V t (pub (rig.hub t)) w.bytes = V t (pub (s.rig.hub t)) w.bytes)
    (hdiff : differsFromSeed B aSeed' t w.bytes = true) (pszPath : CStr) :
    RaisesForged s' (corpusOne B aSeed' pszPath w.bytes s') := by
  obtain ⟨w', hw', hiff⟩ := runMutant_forged hV aSeed t nIter s
  have haccepts := (hiff.mp hforged).1
  rw [hw', ← hw, ← hsame] at haccepts
  have hlen : w.bytes.length ≤ kMaxBlock := by rwa [Block.bytes_length]
  rw [(corpusOne_forged hV pszPath w.bytes s').2, savedBlock_bytes hlen]
  refine ⟨t, ?_, hdiff⟩
  rw [(hs'.keyed hV).hub]
  exact haccepts

end verifier

/-! ## Section 5: A verifier that checks one byte -/

/-- One byte of the block is compared with the key, and nothing else. -/
def oneByteVerifier (_ : Target) (key : UInt8) (p : List UInt8) : Bool :=
  p[13]? == some key

/-- The harness over this verifier. A hub is its verifying key. -/
def oneByteBuild : Build UInt8 where
  plat := .posix
  layout := sampleLayout
  parsers := {
    authVerifyLogin := fun h p =>
      (.returned (if oneByteVerifier .login h p then .authOk else .refused 1), h)
    authVerifyAck := fun h p =>
      (.returned (if oneByteVerifier .ack h p then .authOk else .refused 1), h)
    verifyRelay := fun h p _ =>
      if oneByteVerifier .relay h p then (.returned .authOk, [70, 0], h)
      else (.returned (.refused 1), [0], h)
    applyRevocationList := fun h p =>
      (.returned (if oneByteVerifier .revoke h p then .revOk else .refused 1), h)
    epoch := fun _ => 0 }

/-- An answer that was made from a verdict gives the verdict. -/
theorem map_verdict {α : Type} [DecidableEq α] {ok e : α} (hne : e ≠ ok) (b : Bool) :
    (Answer.returned (if b then ok else e)).map (· == ok) = .returned b := by
  cases b with
  | true => simp [Answer.map]
  | false => simp [Answer.map, hne]

theorem oneByte_verifiedBy : VerifiedBy oneByteBuild id oneByteVerifier := by
  constructor
  · intro t h p
    cases t with
    | login => exact map_verdict (by decide) (oneByteVerifier .login h p)
    | ack => exact map_verdict (by decide) (oneByteVerifier .ack h p)
    | relay =>
      rw [← map_verdict (show AuthResult.refused 1 ≠ .authOk by decide)
        (oneByteVerifier .relay (id h) p)]
      simp only [verifyOn, oneByteBuild, id]
      split
      · rfl
      · rfl
    | revoke => exact map_verdict (by decide) (oneByteVerifier .revoke h p)
  · intro t h p
    cases t with
    | login => rfl
    | ack => rfl
    | relay =>
      simp only [verifyOn, oneByteBuild]
      split
      · rfl
      · rfl
    | revoke => rfl

/-- The sample blocks, signed with a key. -/
def signedSeeds (key : UInt8) (t : Target) : Block :=
  ⟨fun i => if i < 13 then (sampleSeeds t).b i else key, (sampleSeeds t).n⟩

/-- What a process with this key is when its controls have passed. -/
def oneByteControls (key : UInt8) : Option Bool × Proc UInt8 :=
  targets.foldl (control oneByteBuild (signedSeeds key))
    (some true, .start .empty ⟨key, key, key, key⟩ (Args.szReproDir {}) (Args.nSeed {}))

theorem oneByte_walked (key : UInt8) (h : (oneByteControls key).1 = some true) :
    Walked oneByteBuild (signedSeeds key) {} .empty ⟨key, key, key, key⟩ (oneByteControls key).2 :=
  .controls (Prod.ext h rfl)

/-- A file that carries the byte of this process's key behind another header. -/
theorem saved_forgery_accuses_iff_forged :
    RaisesForged (oneByteControls 2).2 (corpusOne oneByteBuild (signedSeeds 2) (cstr "c/x")
        (List.replicate 14 2) (oneByteControls 2).2) ∧
      ∃ t, oneByteVerifier t 2 (List.replicate 14 2) = true ∧
        differsFromSeed oneByteBuild (signedSeeds 2) t (List.replicate 14 2) = true := by
  refine ⟨?_, .login, by decide, by decide⟩
  apply (saved_forgery_accuses_iff oneByte_verifiedBy (oneByte_walked 2 (by decide +kernel))
    (cstr "c/x") (by decide)).mpr
  exact ⟨.login, by decide, by decide⟩

/-- **A saved forgery can be lost**: in a process with another key the verifier
    refuses the file, and nothing is reported. -/
theorem saved_forgery_can_be_lost :
    ¬ ∀ (V : Target → UInt8 → List UInt8 → Bool) (B : Build UInt8) (aSeed aSeed' : Target → Block)
      (args args' : Args) (extra : Nat) (fs fs' : FileSys) (rig rig' : Rig UInt8) (s : Proc UInt8)
      (pszPath : CStr), VerifiedBy B id V →
      ∀ o ∈ (mainRun B aSeed args extra fs rig).final.offers, o.Forged →
        Walked B aSeed' args' fs' rig' s →
        RaisesForged s (corpusOne B aSeed' pszPath o.bytes s) := by
  intro hclaim
  have hlost : ∃ o ∈ (mainRun oneByteBuild (signedSeeds 1) { nSeed := 66, nIters := 1 } 0 .empty
      ⟨1, 1, 1, 1⟩).final.offers, o.Forged ∧
      (corpusOne oneByteBuild (signedSeeds 2) (cstr "c/x") o.bytes
        (oneByteControls 2).2).reports = [] := by
    decide +kernel
  obtain ⟨o, ho, hforged, hquiet⟩ := hlost
  obtain ⟨r, hr, -⟩ := hclaim oneByteVerifier oneByteBuild (signedSeeds 1) (signedSeeds 2)
    { nSeed := 66, nIters := 1 } {} 0 .empty .empty ⟨1, 1, 1, 1⟩ ⟨2, 2, 2, 2⟩
    (oneByteControls 2).2 (cstr "c/x") oneByte_verifiedBy o ho hforged
    (oneByte_walked 2 (by decide +kernel))
  rw [hquiet, List.drop_nil] at hr
  cases hr

end FuzzBlock
