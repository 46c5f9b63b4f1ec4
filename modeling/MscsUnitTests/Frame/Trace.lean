import MscsUnitTests.Lib.History
import MscsUnitTests.Frame.Harness

/-! # The Framing Harness: What a Run Leaves Behind

    Every step of the run is one of three things: a call of `Drive` under a
    cursor of its own, the bookkeeping around it, or a corpus file that is not
    driven. `Trace` says what such a step does to the counters, and the events it
    is labelled with are the calls it makes.
-/

open ByteMem FuzzRng CFiles FuzzCorpus History

namespace FuzzFrame

variable {σ : Type} {B : Build σ} {g : CaseTable} {nSeed : BitVec 32} {s t u : Proc σ}
  {P : DriveCall → Prop} {ds es : List DriveCall}

/-! ## Section 1: Where a call comes from -/

/-- The call is for the unmutated vector of a case. -/
def DriveCall.isSeedOf (d : DriveCall) (c : Fin kCases) : Prop :=
  d.cur.nCase = c.val ∧ d.cur.nIter < 0

/-- What the harness raises a finding for, one input at a time. -/
def DriveCall.failed (g : CaseTable) (d : DriveCall) : Prop :=
  d.oRes.eOutcome = .escaped ∨
    ∃ c, d.isSeedOf c ∧ d.oRes.eOutcome ≠ .assert ∧ satisfies (g.slot c).eExpect d.oRes = false

/-- The call is one of a case and an iteration: it has the input that goes with
    the two, and the result is that of driving it. -/
structure FromCase (B : Build σ) (g : CaseTable) (nSeed : BitVec 32) (c : Fin kCases)
    (d : DriveCall) : Prop where
  ofCase : d.cur.nCase = c.val
  ofSeed : d.cur.nSeed = nSeed
  bytes : d.bytes = (caseInput B g nSeed c d.cur.nIter).1.bytes
  oRng : d.oRng = (caseInput B g nSeed c d.cur.nIter).2
  bSplit : d.bSplit = (g.slot c).bSplit
  run : ∃ io, let r := drive B.parser io (caseInput B g nSeed c d.cur.nIter).1 d.oRng d.bSplit
    d.oRes = r.oRes ∧ d.nAsserts = r.nAsserts ∧ d.chunks = r.chunks

/-- The call is for a saved file. -/
structure FromCorpus (nSeed : BitVec 32) (d : DriveCall) : Prop where
  noCase : d.cur.nCase = -1
  noIter : d.cur.nIter = -1
  ofSeed : d.cur.nSeed = nSeed
  bSplit : d.bSplit = false

/-- The call is one of the cases. -/
def FromCases (B : Build σ) (g : CaseTable) (nSeed : BitVec 32) (d : DriveCall) : Prop :=
  ∃ c, FromCase B g nSeed c d

/-! ## Section 2: Steps -/

/-- The globals that reporting leaves alone: it moves the findings and the file
    system. -/
structure Proc.Kept (s t : Proc σ) : Prop where
  cur : t.cur = s.cur
  oCurWire : t.oCurWire = s.oCurWire
  szReproDir : t.szReproDir = s.szReproDir
  io : t.io = s.io
  nAsserts : t.nAsserts = s.nAsserts
  nRunSeed : t.nRunSeed = s.nRunSeed
  nRoundBase : t.nRoundBase = s.nRoundBase
  oCorpusTotals : t.oCorpusTotals = s.oCorpusTotals
  aTotals : t.aTotals = s.aTotals
  driven : t.driven = s.driven

theorem Proc.Kept.refl (s : Proc σ) : s.Kept s :=
  ⟨rfl, rfl, rfl, rfl, rfl, rfl, rfl, rfl, rfl, rfl⟩

theorem emitRepro_kept (B : Build σ) (pszWhy : CStr) (s : Proc σ) :
    s.Kept (emitRepro B pszWhy s) ∧ (emitRepro B pszWhy s).nFindings = s.nFindings := by
  unfold emitRepro
  split <;> exact ⟨⟨rfl, rfl, rfl, rfl, rfl, rfl, rfl, rfl, rfl, rfl⟩, rfl⟩

theorem findingIf_kept (B : Build σ) (b : Bool) (pszWhat pszWhy : CStr) (s : Proc σ) :
    s.Kept (findingIf B b pszWhat pszWhy s) := by
  cases b with
  | false => exact .refl s
  | true =>
    have h := (emitRepro_kept B pszWhy
      { s with nFindings := s.nFindings + 1, reports := s.reports ++ [⟨pszWhat, pszWhy⟩] }).1
    exact ⟨h.1, h.2, h.3, h.4, h.5, h.6, h.7, h.8, h.9, h.10⟩

/-- A finding raises the counter by one. -/
theorem findingIf_nFindings (B : Build σ) (b : Bool) (pszWhat pszWhy : CStr) (s : Proc σ) :
    (findingIf B b pszWhat pszWhy s).nFindings = s.nFindings + b.toNat := by
  cases b with
  | false => simp [findingIf]
  | true => simp [findingIf, finding, (emitRepro_kept B pszWhy _).2]

theorem Proc.Kept.trans (h₁ : s.Kept t) (h₂ : t.Kept u) : s.Kept u :=
  ⟨h₂.1.trans h₁.1, h₂.2.trans h₁.2, h₂.3.trans h₁.3, h₂.4.trans h₁.4, h₂.5.trans h₁.5,
    h₂.6.trans h₁.6, h₂.7.trans h₁.7, h₂.8.trans h₁.8, h₂.9.trans h₁.9, h₂.10.trans h₁.10⟩

theorem checkExpectation_kept (B : Build σ) (oCase : Case) (oRes : DriveResult) (s : Proc σ) :
    s.Kept (checkExpectation B oCase oRes s) := by
  unfold checkExpectation
  split
  · exact .refl s
  · exact (findingIf_kept _ _ _ _ _).trans (findingIf_kept _ _ _ _ _)

/-- The expectation check raises nothing exactly when the input was abandoned, or
    did what it must and no exception escaped. -/
theorem checkExpectation_nFindings (B : Build σ) (oCase : Case) (oRes : DriveResult)
    (s : Proc σ) :
    ∃ k : Nat, (checkExpectation B oCase oRes s).nFindings = s.nFindings + k ∧
      (k = 0 ↔ oRes.eOutcome = .assert ∨
        (satisfies oCase.eExpect oRes = true ∧ oRes.eOutcome ≠ .escaped)) := by
  unfold checkExpectation
  split
  · next h => exact ⟨0, by simp, by simp [h]⟩
  · next h =>
    refine ⟨(!satisfies oCase.eExpect oRes).toNat + (oRes.eOutcome == .escaped).toNat, ?_, ?_⟩
    · rw [findingIf_nFindings, findingIf_nFindings]
      push_cast
      omega
    · cases satisfies oCase.eExpect oRes <;> simp [h]

/-- What the run does between two states, labelled with the calls of `Drive`, all
    of which are of a given kind. -/
structure Trace (g : CaseTable) (P : DriveCall → Prop) (s : Proc σ) (ds : List DriveCall)
    (t : Proc σ) : Prop where
  driven : t.driven = s.driven ++ ds
  asserts : t.nAsserts = s.nAsserts + (ds.map DriveCall.nAsserts).sum
  findings : ∃ k : Nat, t.nFindings = s.nFindings + k ∧ (k = 0 ↔ ∀ d ∈ ds, ¬ d.failed g)
  origin : ∀ d ∈ ds, P d
  nRunSeed : t.nRunSeed = s.nRunSeed
  nRoundBase : 0 ≤ s.nRoundBase → 0 ≤ t.nRoundBase

/-- Bookkeeping on its own is a step without a call. -/
theorem Trace.quiet (hd : t.driven = s.driven) (ha : t.nAsserts = s.nAsserts)
    (hf : t.nFindings = s.nFindings) (hs : t.nRunSeed = s.nRunSeed)
    (hb : 0 ≤ s.nRoundBase → 0 ≤ t.nRoundBase) : Trace g P s [] t where
  driven := by simpa using hd
  asserts := by simpa using ha
  findings := ⟨0, by simpa using hf⟩
  origin := by simp
  nRunSeed := hs
  nRoundBase := hb

theorem Trace.trans (h₁ : Trace g P s ds t) (h₂ : Trace g P t es u) :
    Trace g P s (ds ++ es) u where
  driven := by rw [h₂.driven, h₁.driven, List.append_assoc]
  asserts := by
    rw [h₂.asserts, h₁.asserts]
    simp
    omega
  findings := by
    -- the counts add up, and a sum is zero when both are
    obtain ⟨k₁, hk₁, hf₁⟩ := h₁.findings
    obtain ⟨k₂, hk₂, hf₂⟩ := h₂.findings
    refine ⟨k₁ + k₂, by rw [hk₂, hk₁]; push_cast; omega, ?_⟩
    have hsum : k₁ + k₂ = 0 ↔ k₁ = 0 ∧ k₂ = 0 := by omega
    rw [hsum, hf₁, hf₂]
    simp only [List.mem_append, or_imp, forall_and]
  origin := by
    intro d hd
    rcases List.mem_append.mp hd with hd | hd
    · exact h₁.origin d hd
    · exact h₂.origin d hd
  nRunSeed := h₂.nRunSeed.trans h₁.nRunSeed
  nRoundBase h := h₂.nRoundBase (h₁.nRoundBase h)

theorem trace_labelled (g : CaseTable) (P : DriveCall → Prop) :
    Labelled fun (s : Proc σ) ds t => Trace g P s ds t :=
  ⟨fun _ => .quiet rfl rfl rfl rfl id, Trace.trans⟩

/-- A trace of calls of one kind is one of calls of a wider kind. -/
theorem Trace.mono {P' : DriveCall → Prop} (h : Trace g P s ds t) (hP : ∀ d, P d → P' d) :
    Trace g P' s ds t :=
  { h with origin := fun d hd => hP d (h.origin d hd) }

/-! ## Section 3: One input -/

theorem failed_of_seed {d : DriveCall} {c : Fin kCases} (h : d.isSeedOf c) :
    d.failed g ↔ d.oRes.eOutcome = .escaped ∨
      (d.oRes.eOutcome ≠ .assert ∧ satisfies (g.slot c).eExpect d.oRes = false) := by
  refine or_congr_right ⟨?_, fun h' => ⟨c, h, h'⟩⟩
  rintro ⟨c', hc', h'⟩
  have : c' = c := by
    have h₁ := hc'.1
    rw [h.1] at h₁
    exact Fin.ext (by omega)
  exact this ▸ h'

theorem failed_of_not_seed {d : DriveCall} (h : ∀ c, ¬ d.isSeedOf c) :
    d.failed g ↔ d.oRes.eOutcome = .escaped := by
  constructor
  · rintro (h' | ⟨c, hc, _⟩)
    · exact h'
    · exact absurd hc (h c)
  · exact Or.inl

theorem not_seed_of_iter {d : DriveCall} (h : 0 ≤ d.cur.nIter) (c : Fin kCases) :
    ¬ d.isSeedOf c := by
  intro hc
  have hiter := hc.2
  omega

theorem FromCorpus.not_seed {d : DriveCall} (h : FromCorpus nSeed d) (c : Fin kCases) :
    ¬ d.isSeedOf c := by
  intro hc
  have hcase := hc.1
  have hnone := h.noCase
  omega

/-- The state after a call and its bookkeeping, before anything is reported. -/
structure After (d : DriveCall) (s t : Proc σ) : Prop where
  driven : t.driven = s.driven ++ [d]
  nAsserts : t.nAsserts = s.nAsserts + d.nAsserts
  nFindings : t.nFindings = s.nFindings
  nRunSeed : t.nRunSeed = s.nRunSeed
  nRoundBase : t.nRoundBase = s.nRoundBase

theorem runDrive_after (B : Build σ) (oWire : Wire) (oRng : Rng) (bSplit : Bool)
    (pszCase : CStr) (nCase nIter : Int) (nSeed : BitVec 32) (w : Wire) (s : Proc σ) :
    After (driveCall B oWire oRng bSplit (setCursor pszCase nCase nIter nSeed w s)) s
      (runDrive B oWire oRng bSplit (setCursor pszCase nCase nIter nSeed w s)).2 :=
  ⟨rfl, rfl, rfl, rfl, rfl⟩

theorem After.tally {d : DriveCall} (h : After d s t) (e : Outcome) : After d s (tally e t) :=
  ⟨h.1, h.2, h.3, h.4, h.5⟩

/-- A call whose findings are counted as they should be is a step of the trace. -/
theorem Trace.of_call {d : DriveCall} (ha : After d s t) (hk : t.Kept u)
    (hfind : ∃ k : Nat, u.nFindings = t.nFindings + k ∧ (k = 0 ↔ ¬ d.failed g))
    (ho : P d) : Trace g P s [d] u where
  driven := by rw [hk.driven, ha.driven]
  asserts := by rw [hk.nAsserts, ha.nAsserts]; simp
  findings := by
    obtain ⟨k, hk', hf⟩ := hfind
    exact ⟨k, by rw [hk', ha.nFindings], by simpa using hf⟩
  origin := by simpa using ho
  nRunSeed := by rw [hk.nRunSeed, ha.nRunSeed]
  nRoundBase h := by rw [hk.nRoundBase, ha.nRoundBase]; exact h

/-- An escape is counted once. -/
theorem findingIf_escaped (B : Build σ) {d : DriveCall} (h : ∀ c, ¬ d.isSeedOf c)
    (pszWhat pszWhy : CStr) (t : Proc σ) :
    ∃ k : Nat, (findingIf B (d.oRes.eOutcome == .escaped) pszWhat pszWhy t).nFindings
      = t.nFindings + k ∧ (k = 0 ↔ ¬ d.failed g) := by
  refine ⟨_, findingIf_nFindings B _ pszWhat pszWhy t, ?_⟩
  rw [failed_of_not_seed h]
  simp

/-- An input that is too long for the wire buffer is not driven. -/
theorem corpusOne_long (B : Build σ) (pszPath : CStr) {p : List UInt8} (hp : kMaxWire < p.length)
    (s : Proc σ) : corpusOne B pszPath p s = s := by
  unfold corpusOne
  rw [if_pos hp]

/-- Any other saved input is driven whole. -/
theorem corpusOne_trace (B : Build σ) (g : CaseTable) (pszPath : CStr) {p : List UInt8}
    (hp : p.length ≤ kMaxWire) (s : Proc σ) :
    ∃ d oRng, Trace g (FromCorpus s.nRunSeed) s [d] (corpusOne B pszPath p s) ∧ d.bytes = p ∧
      d.oRes = (drive B.parser s.io ⟨ofBytes p, p.length⟩ oRng false).oRes := by
  let oRng := Rng.seed (iterState s.nRunSeed (-1) ((fuzzContentHash p).setWidth 32).toInt)
  let w : Wire := ⟨ofBytes p, p.length⟩
  let s₀ := setCursor (fit 512 pszPath) (-1) (-1) s.nRunSeed w s
  have hfrom : FromCorpus s.nRunSeed (driveCall B w oRng false s₀) := ⟨rfl, rfl, rfl, rfl⟩
  refine ⟨driveCall B w oRng false s₀, oRng, ?_, firstBytes_ofBytes p, rfl⟩
  have ha := runDrive_after B w oRng false (fit 512 pszPath) (-1) (-1) s.nRunSeed w s
  unfold corpusOne
  rw [if_neg (by omega)]
  dsimp only
  split
  · exact .of_call (ha.tally _) (findingIf_kept _ _ _ _ _)
      (findingIf_escaped B hfrom.not_seed _ _ _) hfrom
  · exact .of_call ha (findingIf_kept _ _ _ _ _)
      (findingIf_escaped B hfrom.not_seed _ _ _) hfrom

/-- What the loop and the replay branch drive for a case and an iteration. -/
def caseCall (B : Build σ) (g : CaseTable) (nSeed : BitVec 32) (c : Fin kCases) (nIter : Int)
    (s : Proc σ) : DriveCall :=
  let oW := caseInput B g nSeed c nIter
  driveCall B oW.1 oW.2 (g.slot c).bSplit
    (setCursor (g.slot c).pszName c.val nIter nSeed oW.1 s)

@[simp] theorem caseCall_nIter (c : Fin kCases) (nIter : Int) :
    (caseCall B g nSeed c nIter s).cur.nIter = nIter := rfl

theorem caseCall_from (c : Fin kCases) (nIter : Int) :
    FromCase B g nSeed c (caseCall B g nSeed c nIter s) :=
  ⟨rfl, rfl, rfl, rfl, rfl, s.io, rfl, rfl, rfl⟩

theorem caseCall_seed (c : Fin kCases) {nIter : Int} (h : nIter < 0) :
    (caseCall B g nSeed c nIter s).isSeedOf c :=
  ⟨rfl, h⟩

theorem caseInput_seed (B : Build σ) (g : CaseTable) (nSeed : BitVec 32) (c : Fin kCases)
    {nIter : Int} (h : nIter < 0) :
    caseInput B g nSeed c nIter
      = ((g.slot c).oWire, Rng.seed (iterState nSeed c.val nIter)) := by
  unfold caseInput
  rw [if_neg (by omega)]

theorem caseInput_mutant (B : Build σ) (g : CaseTable) (nSeed : BitVec 32) (c : Fin kCases)
    {nIter : Int} (h : 0 ≤ nIter) :
    caseInput B g nSeed c nIter
      = mutate B.sync (g.slot c).oWire (Rng.seed (iterState nSeed c.val nIter)) := by
  unfold caseInput
  exact if_pos h

/-- No input of a case is longer than its seed vector. -/
theorem caseInput_le (B : Build σ) (g : CaseTable) (nSeed : BitVec 32) (c : Fin kCases)
    (nIter : Int) : (caseInput B g nSeed c nIter).1.n ≤ (g.slot c).oWire.n := by
  by_cases h : 0 ≤ nIter
  · rw [caseInput_mutant B g nSeed c h]
    exact mutate_le _ _ _
  · rw [caseInput_seed B g nSeed c (by omega)]

theorem FromCase.length_le {c : Fin kCases} {d : DriveCall} (h : FromCase B g nSeed c d) :
    d.bytes.length ≤ (g.slot c).oWire.n := by
  rw [h.bytes, Wire.bytes_length]
  exact caseInput_le B g nSeed c d.cur.nIter

/-- The expectation check of a seed vector is counted as it should be. -/
theorem checkExpectation_seed {d : DriveCall} {c : Fin kCases} (h : d.isSeedOf c) (t : Proc σ) :
    ∃ k : Nat, (checkExpectation B (g.slot c) d.oRes t).nFindings = t.nFindings + k ∧
      (k = 0 ↔ ¬ d.failed g) := by
  obtain ⟨k, hk, hf⟩ := checkExpectation_nFindings B (g.slot c) d.oRes t
  refine ⟨k, hk, ?_⟩
  rw [hf, failed_of_seed h]
  cases d.oRes.eOutcome <;> simp

/-- **A seed vector** is driven once, and its finding is that of its expectation. -/
theorem seedVector_trace (c : Fin kCases) :
    Trace g (FromCases B g nSeed) s [caseCall B g nSeed c (-1) s] (seedVector B g nSeed c s) := by
  have hseed : (caseCall B g nSeed c (-1) s).isSeedOf c := caseCall_seed c (by omega)
  have ho : FromCases B g nSeed (caseCall B g nSeed c (-1) s) := ⟨c, caseCall_from c (-1)⟩
  have hin := caseInput_seed B g nSeed c (show (-1 : Int) < 0 by omega)
  unfold caseCall at hseed ho ⊢
  rw [hin] at hseed ho ⊢
  exact .of_call ((runDrive_after B _ _ _ _ _ _ _ _ s).tally _) (checkExpectation_kept _ _ _ _)
    (checkExpectation_seed hseed _) ho

/-- **A mutant** is driven once, and only an escape is a finding. -/
theorem mutant_trace (B : Build σ) (g : CaseTable) (nSeed : BitVec 32) (c : Fin kCases)
    (it0 : Nat) (hbase : 0 ≤ s.nRoundBase) :
    Trace g (FromCases B g nSeed) s [caseCall B g nSeed c (s.nRoundBase + it0) s]
      (mutant B g nSeed c s it0) := by
  have hit : 0 ≤ s.nRoundBase + it0 := by omega
  have hnot : ∀ c', ¬ (caseCall B g nSeed c (s.nRoundBase + it0) s).isSeedOf c' :=
    not_seed_of_iter hit
  have ho : FromCases B g nSeed (caseCall B g nSeed c (s.nRoundBase + it0) s) :=
    ⟨c, caseCall_from c _⟩
  unfold caseCall at hnot ho ⊢
  rw [caseInput_mutant B g nSeed c hit] at hnot ho ⊢
  exact .of_call ((runDrive_after B _ _ _ _ _ _ _ _ s).tally _) (findingIf_kept _ _ _ _ _)
    (findingIf_escaped B hnot _ _ _) ho

/-- **Replay mode** drives the input of its two numbers, and checks it as the run
    would. -/
theorem replay_trace (args : Args) (c : Fin kCases) :
    Trace g (FromCases B g args.nSeed) s [caseCall B g args.nSeed c args.nReplayItr s]
      (replay B g args c s) := by
  have ho : FromCases B g args.nSeed (caseCall B g args.nSeed c args.nReplayItr s) :=
    ⟨c, caseCall_from c _⟩
  have hrun := runDrive_after B (caseInput B g args.nSeed c args.nReplayItr).1
    (caseInput B g args.nSeed c args.nReplayItr).2 (g.slot c).bSplit (g.slot c).pszName c.val
    args.nReplayItr args.nSeed (caseInput B g args.nSeed c args.nReplayItr).1 s
  have ha := hrun.tally (caseCall B g args.nSeed c args.nReplayItr s).oRes.eOutcome
  unfold replay
  dsimp only
  by_cases hitr : args.nReplayItr < 0
  · rw [if_pos hitr]
    have hseed : (caseCall B g args.nSeed c args.nReplayItr s).isSeedOf c := caseCall_seed c hitr
    refine .of_call ha ((checkExpectation_kept _ _ _ _).trans (findingIf_kept _ _ _ _ _)) ?_ ho
    -- an escape is counted here for a second time
    obtain ⟨k, hk, hf⟩ := checkExpectation_seed (B := B) (g := g) hseed _
    refine ⟨k + ((caseCall B g args.nSeed c args.nReplayItr s).oRes.eOutcome == .escaped).toNat,
      ?_, ?_⟩
    · rw [Nat.cast_add, ← Int.add_assoc, ← hk]
      exact findingIf_nFindings B _ _ _ _
    · have hesc : (caseCall B g args.nSeed c args.nReplayItr s).oRes.eOutcome = .escaped →
          (caseCall B g args.nSeed c args.nReplayItr s).failed g := Or.inl
      rw [Nat.add_eq_zero_iff, hf]
      simpa using fun h h' => h (hesc h')
  · rw [if_neg hitr]
    have hnot : ∀ c', ¬ (caseCall B g args.nSeed c args.nReplayItr s).isSeedOf c' :=
      not_seed_of_iter (Int.not_lt.mp hitr)
    exact .of_call ha (findingIf_kept _ _ _ _ _) (findingIf_escaped B hnot _ _ _) ho

/-! ## Section 4: The run -/

/-- The seed vector of the case is among the calls. -/
def HasSeed (ds : List DriveCall) (c : Fin kCases) : Prop :=
  ∃ d ∈ ds, d.isSeedOf c

theorem hasSeed_upward (c : Fin kCases) : Upward fun ds => HasSeed ds c :=
  upward_exists fun d : DriveCall => d.isSeedOf c

/-- One call is the seed vector of one case at most. -/
theorem hasSeed_singleton {d : DriveCall} {c c' : Fin kCases} (h : HasSeed [d] c)
    (h' : HasSeed [d] c') : c = c' := by
  obtain ⟨d₁, hd₁, hs₁⟩ := h
  obtain ⟨d₂, hd₂, hs₂⟩ := h'
  rw [List.mem_singleton] at hd₁ hd₂
  subst hd₁ hd₂
  have h12 : (c.val : Int) = (c'.val : Int) := hs₁.1.symm.trans hs₂.1
  exact Fin.ext (by omega)

theorem runCase_trace (B : Build σ) (g : CaseTable) (nSeed : BitVec 32) (nIters : Nat)
    (c : Fin kCases) (hs : 0 ≤ s.nRoundBase) :
    ∃ ds, Trace g (FromCases B g nSeed) s ds (runCase B g nSeed nIters s c) ∧ HasSeed ds c := by
  have hseed : Trace g (FromCases B g nSeed) s _ (seedVector B g nSeed c s) := seedVector_trace c
  obtain ⟨es, hes, -, -⟩ := (trace_labelled g (FromCases B g nSeed)).foldl
    (f := mutant B g nSeed c) (I := fun s => 0 ≤ s.nRoundBase) (Q := fun _ _ => True)
    (fun _ => upward_true)
    (fun s it0 hs => ⟨_, mutant_trace B g nSeed c it0 hs,
      (mutant_trace B g nSeed c it0 hs).nRoundBase hs, trivial⟩)
    (List.range nIters) _ (hseed.nRoundBase hs)
  exact ⟨_, hseed.trans hes, _, List.mem_append_left _ (List.mem_singleton_self _),
    caseCall_seed c (by omega)⟩

/-- **A round** drives the seed vector of every case. -/
theorem runRound_trace (B : Build σ) (g : CaseTable) (nSeed : BitVec 32) (nIters nRound : Nat)
    (s : Proc σ) :
    ∃ ds, Trace g (FromCases B g nSeed) s ds (runRound B g nSeed nIters s nRound) ∧
      ∀ c, HasSeed ds c := by
  let s₁ : Proc σ := { s with nRoundBase := nRound * (if nIters > 0 then nIters else 1) }
  -- the base is a product of two counts
  have hbase : 0 ≤ s₁.nRoundBase := by
    exact Int.mul_nonneg (Int.natCast_nonneg _) (Int.natCast_nonneg _)
  have h₁ : Trace g (FromCases B g nSeed) s [] s₁ := .quiet rfl rfl rfl rfl fun _ => hbase
  obtain ⟨es, hes, -, hQ⟩ := (trace_labelled g (FromCases B g nSeed)).foldl
    (f := runCase B g nSeed nIters) (I := fun s => 0 ≤ s.nRoundBase)
    (Q := fun c es => HasSeed es c) hasSeed_upward
    (fun s c hs => by
      obtain ⟨es, hes, hc⟩ := runCase_trace B g nSeed nIters c hs
      exact ⟨es, hes, hes.nRoundBase hs, hc⟩)
    (List.finRange kCases) s₁ hbase
  exact ⟨es, h₁.trans hes, fun c => hQ c (List.mem_finRange c)⟩

/-- **The corpus replay** drives saved inputs only. -/
theorem corpusReplay_trace (B : Build σ) (g : CaseTable) (args : Args)
    (hs : s.nRunSeed = nSeed) :
    ∃ ds, Trace g (FromCorpus nSeed) s ds (corpusReplay B args s).user := by
  have hR : Labelled fun (s : Proc σ) ds t => Trace g (FromCorpus nSeed) s ds t :=
    trace_labelled g (FromCorpus nSeed)
  unfold corpusReplay
  split
  · next pszCorpus _ =>
    split
    · have hstart : Trace g (FromCorpus nSeed) s [] { s with oCorpusTotals := true } :=
        .quiet rfl rfl rfl rfl id
      obtain ⟨es, hes, -⟩ := fuzzCorpusRun_history B.plat Proc.fs (corpusOne B) hR
        (I := fun s => s.nRunSeed = nSeed)
        (fun s pszPath p hs _ _ => by
          -- a file that is too long is a step without a call
          by_cases hp : p.length ≤ kMaxWire
          · obtain ⟨d, _, hd, -, -⟩ := corpusOne_trace B g pszPath hp s
            rw [hs] at hd
            exact ⟨[d], hd, hd.nRunSeed.trans hs⟩
          · rw [corpusOne_long B pszPath (by omega)]
            exact ⟨[], hR.refl s, hs⟩)
        pszCorpus { s with oCorpusTotals := true } hs
      exact ⟨_, hR.trans (hR.trans hstart hes) (.quiet rfl rfl rfl rfl id)⟩
    · exact ⟨[], hR.refl s⟩
  · exact ⟨[], hR.refl s⟩

/-- Without `--corpus`, and beside `--replay`, nothing of a corpus is replayed. -/
theorem corpusReplay_off {args : Args} (h : args.pszCorpus = none ∨ 0 ≤ args.nReplayCse)
    (s : Proc σ) : (corpusReplay B args s).user = s := by
  unfold corpusReplay
  split
  · next hsome =>
    rcases h with h | h
    · rw [h] at hsome
      cases hsome
    · rw [if_neg (by omega)]
  · rfl

/-- **The inputs of the run**: those of every case, or the one to replay. -/
theorem mainInputs_trace (args : Args) (extra : Nat) (hcase : args.nReplayCse < kCases)
    (hs : 0 ≤ s.nRoundBase) :
    ∃ ds t, mainInputs B g args extra s = some t ∧ Trace g (FromCases B g args.nSeed) s ds t ∧
      (args.nReplayCse < 0 → ∀ c, HasSeed ds c) ∧
      ∀ c : Fin kCases, args.nReplayCse = c.val →
        ds = [caseCall B g args.nSeed c args.nReplayItr s] := by
  unfold mainInputs
  by_cases hmode : 0 ≤ args.nReplayCse
  · have hlt : args.nReplayCse.toNat < kCases := by omega
    rw [if_pos hmode, dif_pos hlt]
    refine ⟨_, _, rfl, replay_trace args ⟨args.nReplayCse.toNat, hlt⟩, by omega, ?_⟩
    intro c hc
    have : c = ⟨args.nReplayCse.toNat, hlt⟩ := Fin.ext (by simp [hc])
    rw [this]
  · rw [if_neg hmode]
    obtain ⟨ds, hds, -, hQ⟩ := (trace_labelled g (FromCases B g args.nSeed)).foldl
      (f := runRound B g args.nSeed args.nIters.toNat) (I := fun s => 0 ≤ s.nRoundBase)
      (Q := fun _ es => ∀ c, HasSeed es c) (fun _ => upward_forall hasSeed_upward)
      (fun s nRound hs => by
        obtain ⟨es, hes, hc⟩ := runRound_trace B g args.nSeed args.nIters.toNat nRound s
        exact ⟨es, hes, hes.nRoundBase hs, hc⟩)
      (List.range (rounds args extra)) s hs
    refine ⟨ds, _, rfl, hds, fun _ => hQ 0 ?_, fun c hc => by omega⟩
    -- there is always a first round
    rw [List.mem_range]
    unfold rounds
    split <;> omega

/-- The assert budget moves the findings only, and raises none within a budget. -/
theorem assertBudget_spec (nAssertBase : Int) (s : Proc σ) :
    (assertBudget nAssertBase s).driven = s.driven ∧
      ∃ k : Nat, (assertBudget nAssertBase s).nFindings = s.nFindings + k ∧
        (k = 0 ↔ ¬ (0 ≤ nAssertBase ∧ nAssertBase < s.nAsserts)) := by
  unfold assertBudget
  dsimp only
  split
  · next h => exact ⟨rfl, (s.nAsserts - nAssertBase).toNat, by simp only; omega, by omega⟩
  · next h => exact ⟨rfl, 0, by simp, by omega⟩

section verdict
variable {args : Args} {extra : Nat} {fs : FileSys} {io : σ}

/-- A replay of a case there is not drives nothing and does not pass. -/
theorem mainRun_setup (hcase : ¬ args.nReplayCse < kCases) :
    (mainRun B g args extra fs io).pass = false ∧
      (mainRun B g args extra fs io).final.driven = [] := by
  unfold mainRun mainInputs
  dsimp only
  rw [if_pos (show args.nReplayCse ≥ 0 by omega),
    dif_neg (show ¬ args.nReplayCse.toNat < kCases by omega)]
  rw [corpusReplay_off (Or.inr (by omega))]
  exact ⟨rfl, rfl⟩

/-- What a run that is set up has done, by its calls: those of the corpus and
    those of the cases. -/
structure RunCalls (B : Build σ) (g : CaseTable) (args : Args) (r : RunResult σ)
    (ds₀ ds : List DriveCall) : Prop where
  driven : r.final.driven = ds₀ ++ ds
  saved : ∀ d ∈ ds₀, FromCorpus args.nSeed d
  unsaved : args.pszCorpus = none ∨ 0 ≤ args.nReplayCse → ds₀ = []
  ofCases : ∀ d ∈ ds, FromCases B g args.nSeed d
  full : args.nReplayCse < 0 → ∀ c, HasSeed ds c
  one : ∀ c : Fin kCases, args.nReplayCse = c.val →
    ∃ s₀, ds = [caseCall B g args.nSeed c args.nReplayItr s₀]
  /-- It passes when no call failed and the ASSERTs they tripped are within a
      baseline that was given. -/
  verdict : r.pass = true ↔ (∀ d ∈ ds₀ ++ ds, ¬ d.failed g) ∧
    ¬ (0 ≤ args.nAssertBase ∧ args.nAssertBase < ((ds₀ ++ ds).map DriveCall.nAsserts).sum)

/-- **The verdict** of a run is a function of its calls. -/
theorem mainRun_calls (B : Build σ) (g : CaseTable) (extra : Nat) (fs : FileSys) (io : σ)
    (hcase : args.nReplayCse < kCases) :
    ∃ ds₀ ds, RunCalls B g args (mainRun B g args extra fs io) ds₀ ds := by
  obtain ⟨ds₀, hds₀⟩ := corpusReplay_trace B g args
    (show (Proc.start fs io args.szReproDir args.nSeed).nRunSeed = args.nSeed from rfl)
  obtain ⟨ds, t, ht, hds, hfull, hone⟩ := mainInputs_trace (B := B) (g := g) args extra hcase
    (hds₀.nRoundBase (Int.le_refl 0))
  have hrun : Trace g (fun _ => True) _ (ds₀ ++ ds) t :=
    (hds₀.mono fun _ _ => trivial).trans (hds.mono fun _ _ => trivial)
  obtain ⟨hkept, k, hk, hover⟩ := assertBudget_spec args.nAssertBase t
  obtain ⟨k', hk', hfail⟩ := hrun.findings
  have hfinal : (mainRun B g args extra fs io).final = assertBudget args.nAssertBase t ∧
      ((mainRun B g args extra fs io).pass = true ↔
        (assertBudget args.nAssertBase t).nFindings = 0) := by
    unfold mainRun
    dsimp only
    rw [ht]
    dsimp only
    split <;> simp_all
  refine ⟨ds₀, ds, ?_, hds₀.origin, ?_, hds.origin, hfull, fun c hc => ⟨_, hone c hc⟩, ?_⟩
  · rw [hfinal.1, hkept, hrun.driven]
    rfl
  · intro hoff
    have hd := hds₀.driven
    rw [corpusReplay_off hoff] at hd
    simpa using hd
  · have hsum : k' + k = 0 ↔ k' = 0 ∧ k = 0 := by omega
    have hn : (assertBudget args.nAssertBase t).nFindings = ((k' + k : Nat) : Int) := by
      rw [hk, hk']
      simp [Proc.start]
    have hasserts : t.nAsserts = ((ds₀ ++ ds).map DriveCall.nAsserts).sum := by
      rw [hrun.asserts]
      simp [Proc.start]
    rw [hfinal.2, hn, Int.natCast_eq_zero, hsum, hfail, hover, hasserts]

end verdict

end FuzzFrame
