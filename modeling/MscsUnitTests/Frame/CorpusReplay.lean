import MscsUnitTests.Frame.Trace

/-! # The Framing Harness: What the Corpus Count Counts

    The walker counts a file as replayed when it hands it to the callback. The
    callback drops a file that is too long for the wire buffer, which is about
    half as long as the buffer the walker reads into.
-/

open ByteMem FuzzRng CFiles FuzzCorpus

namespace FuzzFrame

variable {σ : Type} {B : Build σ} {args : Args} {pszCorpus : CStr}

/-! ## Section 1: One file -/

/-- `nInputs`: the sum of the totals. -/
def Proc.nInputs (s : Proc σ) : Nat :=
  s.aTotals .msg + s.aTotals .refused + s.aTotals .starved + s.aTotals .stalled
    + s.aTotals .escaped + s.aTotals .budget + s.aTotals .assert

theorem tally_nInputs (e : Outcome) (s : Proc σ) : (tally e s).nInputs = s.nInputs + 1 := by
  cases e <;> simp [tally, Proc.nInputs, Function.update] <;> omega

/-- The counts of a walk, as far as they are about what was driven. -/
structure Moved (s t : Proc σ) (n : Nat) : Prop where
  driven : t.driven.length = s.driven.length + n
  totals : t.nInputs = s.nInputs + n
  oCorpusTotals : t.oCorpusTotals = s.oCorpusTotals

/-- A saved input that fits the wire buffer is driven and added to the totals. -/
theorem corpusOne_moved (pszPath : CStr) {p : List UInt8} (hp : p.length ≤ kMaxWire)
    {s : Proc σ} (hs : s.oCorpusTotals = true) : Moved s (corpusOne B pszPath p s) 1 := by
  let w : Wire := ⟨ofBytes p, p.length⟩
  let oRng := Rng.seed (iterState s.nRunSeed (-1) ((fuzzContentHash p).setWidth 32).toInt)
  let r := runDrive B w oRng false (setCursor (fit 512 pszPath) (-1) (-1) s.nRunSeed w s)
  have hk : (tally r.1.eOutcome r.2).Kept (corpusOne B pszPath p s) := by
    unfold corpusOne
    rw [if_neg (by omega)]
    dsimp only
    rw [if_pos hs]
    exact findingIf_kept _ _ _ _ _
  have htotals : r.2.nInputs = s.nInputs := rfl
  refine ⟨?_, ?_, hk.oCorpusTotals⟩
  · rw [hk.driven]
    exact List.length_append
  · unfold Proc.nInputs at htotals ⊢
    rw [hk.aTotals, ← htotals]
    exact tally_nInputs r.1.eOutcome r.2

/-! ## Section 2: The walk -/

/-- The bytes the walker hands over for an entry: none when it skips the file. -/
def handed (pszDir : CStr) (a : Walk (Proc σ)) (nm : CStr) : List UInt8 :=
  fuzzReadFile a.user.fs (entryPath pszDir nm) kFuzzCorpusMax

/-- No file is too long for the wire buffer, each as it is when its turn comes. -/
def WireSized (B : Build σ) (pszDir : CStr) : List CStr → Walk (Proc σ) → Prop
  | [], _ => True
  | nm :: rest, a => (handed pszDir a nm).length ≤ kMaxWire ∧
      WireSized B pszDir rest (visit Proc.fs (corpusOne B) pszDir a nm)

/-- One pass: a file is skipped, driven, or counted without being driven. -/
theorem visit_counts (pszDir nm : CStr) (a : Walk (Proc σ)) (ha : a.user.oCorpusTotals = true) :
    ∃ n k, Moved a.user (visit Proc.fs (corpusOne B) pszDir a nm).user n ∧
      (visit Proc.fs (corpusOne B) pszDir a nm).nRun = a.nRun + n + k ∧
      (k = 0 ↔ (handed pszDir a nm).length ≤ kMaxWire) := by
  unfold visit
  dsimp only
  rw [← handed]
  split
  · next h0 => exact ⟨0, 0, ⟨rfl, rfl, rfl⟩, rfl, by simp [h0]⟩
  · by_cases hp : (handed pszDir a nm).length ≤ kMaxWire
    · exact ⟨1, 0, corpusOne_moved _ hp ha, rfl, by simp [hp]⟩
    · rw [corpusOne_long B _ (by omega)]
      exact ⟨0, 1, ⟨rfl, rfl, rfl⟩, rfl, by simp [hp]⟩

/-- The whole loop: what is counted beyond what was driven are the files that are
    too long. -/
theorem foldl_visit_counts (pszDir : CStr) :
    ∀ (names : List CStr) (a : Walk (Proc σ)), a.user.oCorpusTotals = true →
      ∃ n k, Moved a.user (names.foldl (visit Proc.fs (corpusOne B) pszDir) a).user n ∧
        (names.foldl (visit Proc.fs (corpusOne B) pszDir) a).nRun = a.nRun + n + k ∧
        (k = 0 ↔ WireSized B pszDir names a)
  | [], a, _ => ⟨0, 0, ⟨rfl, rfl, rfl⟩, rfl, by simp [WireSized]⟩
  | nm :: rest, a, ha => by
    obtain ⟨n, k, hmoved, hrun, hk⟩ := visit_counts (B := B) pszDir nm a ha
    obtain ⟨n', k', hmoved', hrun', hk'⟩ :=
      foldl_visit_counts pszDir rest _ (hmoved.oCorpusTotals.trans ha)
    refine ⟨n + n', k + k', ⟨?_, ?_, ?_⟩, ?_, ?_⟩
    · rw [List.foldl_cons, hmoved'.driven, hmoved.driven]
      omega
    · rw [List.foldl_cons, hmoved'.totals, hmoved.totals]
      omega
    · rw [List.foldl_cons, hmoved'.oCorpusTotals, hmoved.oCorpusTotals]
    · rw [List.foldl_cons, hrun', hrun]
      omega
    · rw [Nat.add_eq_zero_iff, hk, hk', WireSized]

/-! ## Section 3: The corpus replay of a run -/

/-- The files the walker hands over fit the wire buffer. -/
def CorpusFits (B : Build σ) (pszDir : CStr) (s : Proc σ) : Prop :=
  WireSized B pszDir (slots B.plat s.fs pszDir) ⟨{ s with oCorpusTotals := true }, 0, 0⟩

/-- What the lines about the corpus say: as many files as are reported replayed
    were driven and added to the totals, and there are no more regular files than
    were driven, skipped and not listed. -/
structure Accounted (s : Proc σ) (w : WalkResult (Proc σ)) (nRegular : Nat) : Prop where
  driven : w.user.driven.length = s.driven.length + w.nRun
  totals : w.user.nInputs = s.nInputs + w.nRun
  others : nRegular ≤ (w.user.driven.length - s.driven.length) + w.nSkipped + w.nUnlisted

theorem corpusReplay_on (hcorpus : args.pszCorpus = some pszCorpus) (hmode : args.nReplayCse < 0)
    (s : Proc σ) :
    corpusReplay B args s =
      let r := fuzzCorpusRun B.plat Proc.fs (corpusOne B) pszCorpus { s with oCorpusTotals := true }
      { r with user := { r.user with oCorpusTotals := false } } := by
  unfold corpusReplay
  rw [hcorpus]
  exact if_pos hmode

/-- What is reported replayed is what was driven, and the files that are too long. -/
theorem corpusReplay_counts (B : Build σ) (args : Args) (hcorpus : args.pszCorpus = some pszCorpus)
    (hmode : args.nReplayCse < 0) (s : Proc σ) :
    ∃ n k, (corpusReplay B args s).user.driven.length = s.driven.length + n ∧
      (corpusReplay B args s).user.nInputs = s.nInputs + n ∧
      (corpusReplay B args s).nRun = n + k ∧ (k = 0 ↔ CorpusFits B pszCorpus s) := by
  obtain ⟨n, k, hmoved, hrun, hk⟩ := foldl_visit_counts (B := B) pszCorpus
    (slots B.plat s.fs pszCorpus) ⟨{ s with oCorpusTotals := true }, 0, 0⟩ rfl
  refine ⟨n, k, ?_, ?_, ?_, hk⟩
  · rw [corpusReplay_on hcorpus hmode, fuzzCorpusRun_eq]
    exact hmoved.driven
  · rw [corpusReplay_on hcorpus hmode, fuzzCorpusRun_eq]
    exact hmoved.totals
  · rw [corpusReplay_on hcorpus hmode, fuzzCorpusRun_eq]
    simpa using hrun

/-- **When the corpus count is right**: when no file the walker hands over is too
    long for the wire buffer, and the walker keeps no fewer entries than the
    directory has regular files. -/
theorem corpus_accounted_iff (B : Build σ) (args : Args) (hcorpus : args.pszCorpus = some pszCorpus)
    (hmode : args.nReplayCse < 0) (s : Proc σ) :
    Accounted s (corpusReplay B args s) (regularEntries s.fs pszCorpus) ↔
      CorpusFits B pszCorpus s ∧
        regularEntries s.fs pszCorpus ≤ (listed B.plat s.fs pszCorpus).length := by
  obtain ⟨n, k, hdriven, htotals, hrun, hk⟩ := corpusReplay_counts B args hcorpus hmode s
  have hcount : (corpusReplay B args s).nRun + (corpusReplay B args s).nSkipped
      + (corpusReplay B args s).nUnlisted = (listed B.plat s.fs pszCorpus).length := by
    rw [corpusReplay_on hcorpus hmode]
    exact fuzzCorpusRun_count Proc.fs (corpusOne B) pszCorpus B.plat
      { s with oCorpusTotals := true }
  rw [← hk]
  constructor
  · rintro ⟨h₁, h₂, h₃⟩
    omega
  · rintro ⟨h₁, h₂⟩
    exact ⟨by omega, by omega, by omega⟩

/-- A corpus of one file that is read and does not fit the wire buffer. -/
def longCorpus : FileSys :=
  .single (cstr "c") (cstr "x") (List.replicate (kMaxWire + 1) 0)

/-- A corpus of one short file. -/
def shortCorpus : FileSys :=
  .single (cstr "c") (cstr "x") [1, 2, 3]

/-- The harness before it replays a corpus. -/
def beforeCorpus (fs : FileSys) : Proc Unit :=
  .start fs () [] 0

theorem corpus_accounted_iff_short :
    Accounted (beforeCorpus shortCorpus)
      (corpusReplay refusingBuild { pszCorpus := some (cstr "c") } (beforeCorpus shortCorpus)) 1 := by
  refine (corpus_accounted_iff refusingBuild { pszCorpus := some (cstr "c") }
    rfl (by decide) (beforeCorpus shortCorpus)).mpr ⟨?_, by decide⟩
  exact ⟨by decide, trivial⟩

/-- **A file can be counted without being driven**: one of 66561 bytes is. -/
theorem corpus_can_be_miscounted :
    ¬ ∀ (B : Build Unit) (args : Args) (pszCorpus : CStr) (s : Proc Unit),
      args.pszCorpus = some pszCorpus → args.nReplayCse < 0 →
        Accounted s (corpusReplay B args s) (regularEntries s.fs pszCorpus) := by
  intro hclaim
  have hacc := hclaim refusingBuild { pszCorpus := some (cstr "c") } (cstr "c")
    (beforeCorpus longCorpus) rfl (by decide)
  obtain ⟨n, k, hdriven, -, hrun, hk⟩ := corpusReplay_counts refusingBuild
    { pszCorpus := some (cstr "c") } rfl (by decide) (beforeCorpus longCorpus)
  have hlong : ¬ CorpusFits refusingBuild (cstr "c") (beforeCorpus longCorpus) := by
    have hslots : slots refusingBuild.plat (beforeCorpus longCorpus).fs (cstr "c")
        = [cstr "x"] := rfl
    have hopen : longCorpus.openRead (entryPath (cstr "c") (cstr "x"))
        = some (List.replicate (kMaxWire + 1) 0) := rfl
    unfold CorpusFits
    rw [hslots]
    rintro ⟨hlen, -⟩
    have hread : handed (cstr "c") ⟨{ beforeCorpus longCorpus with oCorpusTotals := true }, 0, 0⟩
        (cstr "x") = List.replicate (kMaxWire + 1) 0 :=
      fuzzReadFile_of_le hopen (by rw [List.length_replicate]; decide)
    rw [hread, List.length_replicate] at hlen
    omega
  have hcount := hacc.driven
  have hmissed := mt hk.mp hlong
  omega

end FuzzFrame
