import MscsUnitTests.Frame.Trace

/-! # The Framing Harness: Replaying an Input

    An input can be had again in two ways: by its case and iteration, with the
    command a finding prints, and by its bytes, as a saved file that the corpus
    replay drives. This module says what each of the two repeats.
-/

open ByteMem FuzzRng CFiles FuzzCorpus

namespace FuzzFrame

variable {σ : Type} {B : Build σ} {g : CaseTable} {args : Args} {extra : Nat} {fs : FileSys}
  {io : σ} {d : DriveCall}

/-! ## Section 1: The printed command -/

/-- What `DumpCursor` prints: `p2p_fuzzframe <seed> --replay <case> <iter>`. -/
def replayArgs (cur : Cursor) : Args :=
  { nSeed := cur.nSeed, nReplayCse := cur.nCase, nReplayItr := cur.nIter }

/-- What `Drive` is called with: the wire bytes, the generator and the split flag. -/
def DriveCall.input (d : DriveCall) : List UInt8 × Rng × Bool :=
  (d.bytes, d.oRng, d.bSplit)

/-- Two calls for the same case, iteration and seed have the same input. -/
theorem FromCase.input_eq {c : Fin kCases} {nSeed nSeed' : BitVec 32} {d d' : DriveCall}
    (h : FromCase B g nSeed c d) (h' : FromCase B g nSeed' c d') (hseed : nSeed = nSeed')
    (hiter : d.cur.nIter = d'.cur.nIter) : d.input = d'.input := by
  subst hseed
  unfold DriveCall.input
  rw [h.bytes, h'.bytes, h.oRng, h'.oRng, h.bSplit, h'.bSplit, hiter]

/-- Every call of a run is for a case or for a saved file. -/
theorem driven_cases (hd : d ∈ (mainRun B g args extra fs io).final.driven) :
    FromCases B g args.nSeed d ∨ FromCorpus args.nSeed d := by
  by_cases hcase : args.nReplayCse < kCases
  · obtain ⟨ds₀, ds, hr⟩ := mainRun_calls B g extra fs io hcase
    rw [hr.driven] at hd
    rcases List.mem_append.mp hd with hd | hd
    · exact Or.inr (hr.saved d hd)
    · exact Or.inl (hr.ofCases d hd)
  · rw [(mainRun_setup hcase).2] at hd
    cases hd

/-- **What the command repeats**: run with what was printed for an input, the
    harness drives that input and no other exactly when it was one of a case, of
    whatever round; a saved file has no case, and the command starts a whole
    run. -/
theorem replay_command_iff (hd : d ∈ (mainRun B g args extra fs io).final.driven)
    (extra' : Nat) (fs' : FileSys) (io' : σ) :
    (mainRun B g (replayArgs d.cur) extra' fs' io').final.driven.map DriveCall.input = [d.input] ↔
      0 ≤ d.cur.nCase := by
  rcases driven_cases hd with ⟨c, hfrom⟩ | hfrom
  · -- the replay branch builds the input from the same three numbers
    have hlt : (replayArgs d.cur).nReplayCse < kCases := by
      show d.cur.nCase < kCases
      rw [hfrom.ofCase]
      omega
    obtain ⟨ds₀, ds, hr⟩ := mainRun_calls B g extra' fs' io' hlt
    obtain ⟨s₀, hds⟩ := hr.one c hfrom.ofCase
    have hin : (caseCall B g d.cur.nSeed c d.cur.nIter s₀).input = d.input :=
      (caseCall_from c d.cur.nIter).input_eq hfrom hfrom.ofSeed rfl
    rw [hr.driven, hr.unsaved (Or.inl rfl), hds]
    simp only [replayArgs, List.nil_append, List.map_cons, List.map_nil, hin, true_iff]
    rw [hfrom.ofCase]
    omega
  · have hneg : d.cur.nCase < 0 := by
      rw [hfrom.noCase]
      omega
    have hlt : (replayArgs d.cur).nReplayCse < kCases := by
      show d.cur.nCase < kCases
      omega
    obtain ⟨ds₀, ds, hr⟩ := mainRun_calls B g extra' fs' io' hlt
    refine ⟨fun h => ?_, fun h => by omega⟩
    -- a whole run drives two seed vectors at least
    rw [hr.driven, hr.unsaved (Or.inl rfl)] at h
    have hlen : ds.length = 1 := by simpa using congrArg List.length h
    obtain ⟨d₁, rfl⟩ := List.length_eq_one_iff.mp hlen
    exact absurd (hasSeed_singleton (hr.full hneg 0) (hr.full hneg 1)) (by decide)

/-- The seed vectors alone, against a parser that refuses everything. -/
def seedRun : RunResult Unit :=
  mainRun refusingBuild blankTable { nIters := 0 } 0 .empty ()

theorem replay_command_iff_seedRun :
    ∃ d ∈ seedRun.final.driven, (mainRun refusingBuild blankTable (replayArgs d.cur) 0 .empty
      ()).final.driven.map DriveCall.input = [d.input] := by
  have hcase : ∀ d ∈ seedRun.final.driven, 0 ≤ d.cur.nCase := by decide
  obtain ⟨d, hd⟩ : ∃ d, d ∈ seedRun.final.driven := List.exists_mem_of_length_pos (by decide)
  exact ⟨d, hd, (replay_command_iff hd 0 .empty ()).mpr (hcase d hd)⟩

/-- The same with a corpus: one file, longer than any input of a case. -/
def savedRun : RunResult Unit :=
  mainRun refusingBuild blankTable { nIters := 0, pszCorpus := some (cstr "c") } 0
    (.single (cstr "c") (cstr "x") (List.replicate 121 0)) ()

/-- **A saved file has no command**: what is printed for it starts a run that does
    not drive it at all. -/
theorem saved_input_has_no_command :
    ¬ ∀ (B : Build Unit) (oBase oBig : Wire) (g : CaseTable) (args : Args) (extra extra' : Nat)
        (fs fs' : FileSys), buildCorpus B.sync oBase oBig = some g →
      ∀ d ∈ (mainRun B g args extra fs ()).final.driven,
        d.input ∈ (mainRun B g (replayArgs d.cur) extra' fs' ()).final.driven.map
          DriveCall.input := by
  intro hclaim
  have hsaved : ∃ d ∈ savedRun.final.driven, d.cur.nCase = -1 ∧ d.bytes.length = 121 := by
    decide +kernel
  unfold savedRun at hsaved
  obtain ⟨d, hd, hcase, hlen⟩ := hsaved
  have hlt : (replayArgs d.cur).nReplayCse < kCases := by
    show d.cur.nCase < kCases
    omega
  obtain ⟨ds₀, ds, hr⟩ := mainRun_calls refusingBuild blankTable 0 .empty () hlt
  have hmem := hclaim refusingBuild _ _ blankTable { nIters := 0, pszCorpus := some (cstr "c") } 0 0
    (.single (cstr "c") (cstr "x") (List.replicate 121 0)) .empty buildCorpus_blankTable d hd
  rw [hr.driven, hr.unsaved (Or.inl rfl)] at hmem
  obtain ⟨d', hd', hin⟩ := List.mem_map.mp hmem
  obtain ⟨c, hfrom⟩ := hr.ofCases d' hd'
  -- no input of a case is as long as the saved one
  have hshort : ∀ c, (blankTable.slot c).oWire.n ≤ 120 := by decide
  have hle := hfrom.length_le.trans (hshort c)
  have hbytes : d'.bytes = d.bytes := congrArg Prod.fst hin
  rw [hbytes, hlen] at hle
  omega

/-! ## Section 2: The saved bytes -/

/-- A whole delivery of what was driven gives what was driven. -/
theorem corpusOne_same_result (hdet : B.parser.Deterministic)
    (hd : d ∈ (mainRun B g args extra fs io).final.driven) (hcase : 0 ≤ d.cur.nCase)
    (hwhole : d.bSplit = false ∨ AllFull d.chunks) (pszPath : CStr) (s : Proc σ) :
    ∃ d', (corpusOne B pszPath d.bytes s).driven = s.driven ++ [d'] ∧ d'.bytes = d.bytes ∧
      d'.oRes = d.oRes := by
  rcases driven_cases hd with ⟨c, hfrom⟩ | hfrom
  · have hlen : d.bytes.length ≤ kMaxWire := hfrom.length_le.trans (g.slot_fits c)
    obtain ⟨d', oRng, htrace, hbytes, hres⟩ := corpusOne_trace B g pszPath hlen s
    refine ⟨d', htrace.driven, hbytes, ?_⟩
    obtain ⟨io', hrun, -, hchunks⟩ := hfrom.run
    rw [hres, hrun]
    rw [hchunks] at hwhole
    have hsame : (caseInput B g args.nSeed c d.cur.nIter).1.bytes
        = Wire.bytes ⟨ofBytes d.bytes, d.bytes.length⟩ := by
      rw [← hfrom.bytes]
      exact (firstBytes_ofBytes d.bytes).symm
    have hn : (caseInput B g args.nSeed c d.cur.nIter).1.n < 2 ^ 32 := by
      have h₁ := caseInput_le B g args.nSeed c d.cur.nIter
      have h₂ := g.slot_fits c
      unfold kMaxWire at h₂
      omega
    rw [drive_replays (hdet _ _) hsame hn d.oRng oRng hwhole]
  · have := hfrom.noCase
    omega

/-- **A saved escape escapes again** under a parser that only depends on what it
    is handed, when the input was driven whole, or split without a completion
    being cut short. -/
theorem saved_escape_replays (hdet : B.parser.Deterministic)
    (hd : d ∈ (mainRun B g args extra fs io).final.driven) (hcase : 0 ≤ d.cur.nCase)
    (hwhole : d.bSplit = false ∨ AllFull d.chunks) (hesc : d.oRes.eOutcome = .escaped)
    (pszPath : CStr) (s : Proc σ) :
    ∃ d', (corpusOne B pszPath d.bytes s).driven = s.driven ++ [d'] ∧ d'.bytes = d.bytes ∧
      d'.oRes.eOutcome = .escaped := by
  obtain ⟨d', hdriven, hbytes, hres⟩ := corpusOne_same_result hdet hd hcase hwhole pszPath s
  exact ⟨d', hdriven, hbytes, by rw [hres, hesc]⟩

/-- The harness over a parser that escapes on every input. -/
def escapingBuild : Build Unit := ⟨.posix, nativeSync, constantParser .other⟩

theorem saved_escape_replays_escaping :
    ∃ d ∈ (mainRun escapingBuild blankTable { nIters := 0 } 0 .empty ()).final.driven, ∃ d',
      (corpusOne escapingBuild (cstr "x") d.bytes (.start .empty () [] 0)).driven = [d'] ∧
        d'.bytes = d.bytes ∧ d'.oRes.eOutcome = .escaped := by
  have hall : ∃ d ∈ (mainRun escapingBuild blankTable { nIters := 0 } 0 .empty ()).final.driven,
      0 ≤ d.cur.nCase ∧ d.bSplit = false ∧ d.oRes.eOutcome = .escaped := by
    decide +kernel
  obtain ⟨d, hd, hcase, hwhole, hesc⟩ := hall
  exact ⟨d, hd, saved_escape_replays (fun _ _ => rfl) hd hcase (Or.inl hwhole) hesc (cstr "x")
    (.start .empty () [] 0)⟩

/-- A parser that escapes on a part of a header, and asks for a header on nothing. -/
def partialHeaderParser : Parser Unit where
  fresh := id
  recvP2PeerMsg _ oOv :=
    if oOv.dwBytes = 0 then
      ⟨.event (some szRecv), 0, (), { oOv with pUserDB1 := some fun _ => 0 }⟩
    else if oOv.dwBytes < syncSizeof then ⟨.other, 0, (), oOv⟩
    else ⟨.null, 0, (), oOv⟩

/-- The harness over that parser. -/
def partialHeaderBuild : Build Unit := ⟨.posix, nativeSync, partialHeaderParser⟩

/-- Its seed vectors. -/
def partialHeaderRun : RunResult Unit :=
  mainRun partialHeaderBuild blankTable { nIters := 0 } 0 .empty ()

/-- **The chunks are part of the input**: an escape on a short completion is gone
    when the same bytes are delivered whole. -/
theorem split_escape_can_be_lost :
    ¬ ∀ (B : Build Unit) (oBase oBig : Wire) (g : CaseTable) (args : Args) (extra : Nat)
        (fs : FileSys) (pszPath : CStr) (s : Proc Unit), buildCorpus B.sync oBase oBig = some g →
      B.parser.Deterministic →
      ∀ d ∈ (mainRun B g args extra fs ()).final.driven, 0 ≤ d.cur.nCase →
        d.oRes.eOutcome = .escaped →
        ∃ d', (corpusOne B pszPath d.bytes s).driven = s.driven ++ [d'] ∧ d'.bytes = d.bytes ∧
          d'.oRes.eOutcome = .escaped := by
  intro hclaim
  let s : Proc Unit := .start .empty () [] 0x5EEDF00D
  have hesc : ∃ d ∈ partialHeaderRun.final.driven, 0 ≤ d.cur.nCase ∧ d.oRes.eOutcome = .escaped ∧
      ∀ d' ∈ (corpusOne partialHeaderBuild (cstr "x") d.bytes s).driven,
        d'.oRes.eOutcome = .stalled := by
    decide
  obtain ⟨d, hd, hcase, hout, hwhole⟩ := hesc
  obtain ⟨d', hdriven, -, hout'⟩ := hclaim partialHeaderBuild _ _ blankTable { nIters := 0 } 0
    .empty (cstr "x") s buildCorpus_blankTable (fun _ _ => rfl) d hd hcase hout
  have hmem : d' ∈ (corpusOne partialHeaderBuild (cstr "x") d.bytes s).driven := by
    rw [hdriven]
    simp
  rw [hwhole d' hmem] at hout'
  cases hout'

end FuzzFrame
