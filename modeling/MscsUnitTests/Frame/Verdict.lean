import MscsUnitTests.Frame.Trace

/-! # The Framing Harness: What a PASS Means

    The text of `RESULT: PASS` says that every seed vector behaved as its comment
    says it must. A seed vector that is not driven, or that is abandoned at an
    ASSERT, raises nothing; this module says when a PASS is about all of them.
-/

open ByteMem FuzzRng CFiles

namespace FuzzFrame

variable {σ : Type} {B : Build σ} {g : CaseTable} {oBase oBig : Wire} {args : Args}

/-- What the PASS text says: every seed vector that must do something was driven,
    was not abandoned, and did it. -/
def SeedsBehaved (g : CaseTable) (ds : List DriveCall) : Prop :=
  ∀ c, (g.slot c).eExpect ≠ .any → HasSeed ds c ∧ ∀ d ∈ ds, d.isSeedOf c →
    d.oRes.eOutcome ≠ .assert ∧ satisfies (g.slot c).eExpect d.oRes = true

/-- A seed vector that must do something was abandoned at an ASSERT. -/
def Untestable (g : CaseTable) (ds : List DriveCall) : Prop :=
  ∃ c, (g.slot c).eExpect ≠ .any ∧ ∃ d ∈ ds, d.isSeedOf c ∧ d.oRes.eOutcome = .assert

/-- Calls none of which failed: the seed vectors among them are as they must be,
    up to the ones that were not driven or were abandoned. -/
theorem seedsBehaved_iff {ds : List DriveCall} (hfail : ∀ d ∈ ds, ¬ d.failed g) :
    SeedsBehaved g ds ↔
      (∀ c, (g.slot c).eExpect ≠ .any → HasSeed ds c) ∧ ¬ Untestable g ds := by
  constructor
  · intro h
    refine ⟨fun c hc => (h c hc).1, ?_⟩
    rintro ⟨c, hc, d, hd, hseed, hout⟩
    exact ((h c hc).2 d hd hseed).1 hout
  · rintro ⟨hhas, hun⟩ c hc
    refine ⟨hhas c hc, fun d hd hseed => ?_⟩
    have hout : d.oRes.eOutcome ≠ .assert := fun h => hun ⟨c, hc, d, hd, hseed, h⟩
    refine ⟨hout, ?_⟩
    have hnot := hfail d hd
    rw [failed_of_seed hseed] at hnot
    cases hsat : satisfies (g.slot c).eExpect d.oRes with
    | true => rfl
    | false => exact absurd (Or.inr ⟨hout, hsat⟩) hnot

/-- One call is not all the seed vectors. -/
theorem not_seedsBehaved_one (hg : buildCorpus B.sync oBase oBig = some g) (d : DriveCall) :
    ¬ SeedsBehaved g [d] := by
  intro h
  -- slots 0 and 1 both must do something, and one call is for one slot
  have hc₀ : (g.slot 0).eExpect ≠ .any := by
    rw [buildCorpus_slot hg]
    show Expect.msg1 ≠ .any
    decide
  have hc₁ : (g.slot 1).eExpect ≠ .any := by
    rw [buildCorpus_slot hg]
    show Expect.refuse ≠ .any
    decide
  exact absurd (hasSeed_singleton (h 0 hc₀).1 (h 1 hc₁).1) (by decide)

/-- **When a PASS is not vacuous**: in a run over all cases with no seed vector
    abandoned that must do something. A run that fails, or is not set up, prints
    no PASS. -/
theorem pass_not_vacuous_iff (B : Build σ) (args : Args)
    (hg : buildCorpus B.sync oBase oBig = some g) (extra : Nat) (fs : FileSys) (io : σ) :
    ((mainRun B g args extra fs io).pass = true →
        SeedsBehaved g (mainRun B g args extra fs io).final.driven) ↔
      (args.nReplayCse < 0 ∧ ¬ Untestable g (mainRun B g args extra fs io).final.driven) ∨
      (∃ d ∈ (mainRun B g args extra fs io).final.driven, d.failed g) ∨
      (0 ≤ args.nAssertBase ∧ args.nAssertBase <
        ((mainRun B g args extra fs io).final.driven.map DriveCall.nAsserts).sum) ∨
      (kCases : Int) ≤ args.nReplayCse := by
  by_cases hcase : args.nReplayCse < kCases
  · obtain ⟨ds₀, ds, hr⟩ := mainRun_calls B g extra fs io hcase
    have hverdict := hr.verdict
    rw [← hr.driven] at hverdict
    -- a run in which nothing failed is judged by its mode and its abandoned seeds
    have hjudge : (mainRun B g args extra fs io).pass = true →
        (SeedsBehaved g (mainRun B g args extra fs io).final.driven ↔
          args.nReplayCse < 0 ∧ ¬ Untestable g (mainRun B g args extra fs io).final.driven) := by
      intro hpass
      by_cases hmode : args.nReplayCse < 0
      · have hhas : ∀ c, HasSeed (mainRun B g args extra fs io).final.driven c := by
          intro c
          rw [hr.driven]
          exact hasSeed_upward c (List.subset_append_right ds₀ ds) (hr.full hmode c)
        rw [seedsBehaved_iff (hverdict.mp hpass).1]
        simp [hhas, hmode]
      · have hlt : args.nReplayCse.toNat < kCases := by omega
        obtain ⟨s₀, hds⟩ := hr.one ⟨args.nReplayCse.toNat, hlt⟩ (by simp; omega)
        have hone : ¬ SeedsBehaved g (mainRun B g args extra fs io).final.driven := by
          rw [hr.driven, hr.unsaved (Or.inr (by omega)), hds]
          exact not_seedsBehaved_one hg _
        simp [hone, hmode]
    by_cases hpass : (mainRun B g args extra fs io).pass = true
    · have hno := hverdict.mp hpass
      have hnofail : ¬ ∃ d ∈ (mainRun B g args extra fs io).final.driven, d.failed g := by
        rintro ⟨d, hd, hfail⟩
        exact hno.1 d hd hfail
      have hin : ¬ (kCases : Int) ≤ args.nReplayCse := by omega
      simp only [hpass, forall_const, hjudge hpass, hnofail, hno.2, hin, or_false]
    · have hsome := mt hverdict.mpr hpass
      rw [not_and_or, not_not] at hsome
      push Not at hsome
      simp only [hpass, Bool.false_eq_true, false_implies, true_iff]
      rcases hsome with ⟨d, hd, hfail⟩ | hover
      · exact Or.inr (Or.inl ⟨d, hd, hfail⟩)
      · exact Or.inr (Or.inr (Or.inl hover))
  · -- a case there is not: nothing is driven and no PASS is printed
    simp only [(mainRun_setup hcase).1, Bool.false_eq_true, false_implies, true_iff]
    exact Or.inr (Or.inr (Or.inr (by omega)))

/-- `--replay 0 0` against a parser that refuses everything: one mutant, refused. -/
def refusedReplay : RunResult Unit :=
  mainRun refusingBuild blankTable { nReplayCse := 0, nReplayItr := 0 } 0 .empty ()

theorem pass_not_vacuous_iff_refusing :
    ¬ (refusedReplay.pass = true → SeedsBehaved blankTable refusedReplay.final.driven) := by
  intro h
  have hall : ∀ d ∈ refusedReplay.final.driven, d.oRes.eOutcome = .refused ∧ d.cur.nIter = 0 := by
    decide
  rcases (pass_not_vacuous_iff refusingBuild { nReplayCse := 0, nReplayItr := 0 }
    buildCorpus_blankTable 0 .empty ()).mp h with h | ⟨d, hd, hfail⟩ | h | h
  · exact absurd h.1 (by decide)
  · obtain ⟨hout, hiter⟩ := hall d hd
    rw [failed_of_not_seed (not_seed_of_iter (by omega)), hout] at hfail
    cases hfail
  · exact absurd h.1 (by decide)
  · exact absurd h (by decide)

/-- The harness over a parser that trips an ASSERT on every input. -/
def assertingBuild : Build Unit := ⟨.posix, nativeSync, constantParser .assertTrap⟩

/-- **A PASS can be about nothing**: with no baseline given, a run in which every
    seed vector is abandoned at an ASSERT prints `RESULT: PASS`. -/
theorem pass_can_be_vacuous :
    ¬ ∀ (B : Build Unit) (oBase oBig : Wire) (g : CaseTable) (args : Args) (extra : Nat)
        (fs : FileSys), buildCorpus B.sync oBase oBig = some g →
      (mainRun B g args extra fs ()).pass = true →
        SeedsBehaved g (mainRun B g args extra fs ()).final.driven := by
  intro hclaim
  have hall : ∀ d ∈ (mainRun assertingBuild blankTable { nIters := 0 } 0 .empty ()).final.driven,
      d.oRes.eOutcome = .assert := by
    decide
  obtain ⟨⟨d, hd, hseed⟩, hout⟩ := hclaim assertingBuild _ _ blankTable { nIters := 0 } 0 .empty
    buildCorpus_blankTable rfl 0 (by decide)
  exact (hout d hd hseed).1 (hall d hd)

/-- With the baseline at 0, as `--strict-assert` sets it, a PASS of a run over all
    cases is what its text says. -/
theorem strict_pass_not_vacuous (extra : Nat) (fs : FileSys) (io : σ)
    (hmode : args.nReplayCse < 0) (hstrict : args.nAssertBase = 0)
    (hpass : (mainRun B g args extra fs io).pass = true) :
    SeedsBehaved g (mainRun B g args extra fs io).final.driven := by
  have hcase : args.nReplayCse < kCases := by unfold kCases; omega
  obtain ⟨ds₀, ds, hr⟩ := mainRun_calls B g extra fs io hcase
  obtain ⟨hfail, hbudget⟩ := hr.verdict.mp hpass
  rw [hr.driven, seedsBehaved_iff hfail]
  refine ⟨fun c _ => hasSeed_upward c (List.subset_append_right ds₀ ds) (hr.full hmode c), ?_⟩
  rintro ⟨c, -, d, hd, hseed, hout⟩
  -- an abandoned input has tripped an ASSERT, and none is tolerated
  have hpos : 0 < d.nAsserts := by
    rcases List.mem_append.mp hd with hd | hd
    · exact absurd hseed ((hr.saved d hd).not_seed c)
    · obtain ⟨c', hfrom⟩ := hr.ofCases d hd
      obtain ⟨io', hres, hasserts, -⟩ := hfrom.run
      rw [hasserts]
      exact drive_assert_pos (hres ▸ hout)
  have hsum : 0 < ((ds₀ ++ ds).map DriveCall.nAsserts).sum :=
    List.sum_pos_iff_exists_pos_nat.mpr ⟨_, List.mem_map_of_mem hd, hpos⟩
  omega

end FuzzFrame
