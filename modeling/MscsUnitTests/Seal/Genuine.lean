import MscsUnitTests.Seal.SumScheme

/-! # The Seal Vectors: What the Exit Code Means

    `main verify` of `seal_interop.cpp` over all its files.

    * `verify_clean_iff`: a file passes when it holds a genuine vector.
    * `mainVerify_zero_iff`: the exit code is 0 just when every file does.
-/

open CFiles CheckedVectors Unicode

namespace Seal

/-! ## Section 1: When a file passes -/

/-- No key has length 0. -/
structure KeyLens.Positive (K : KeyLens) : Prop where
  ecdsaPriv : K.ecdsaPriv ≠ 0
  ecdsaPub : K.ecdsaPub ≠ 0
  ecdhPriv : K.ecdhPriv ≠ 0
  ecdhPub : K.ecdhPub ≠ 0

theorem fieldBytes_length {oVec : Vec} {pszKey : CStr} {cbExpect : Nat} {p : List UInt8}
    (h : fieldBytes oVec pszKey cbExpect = some p) (hexpect : cbExpect ≠ 0) :
    p.length = cbExpect := by
  unfold fieldBytes at h
  split at h
  · cases h
  · split at h
    · cases h
    · obtain ⟨hlen, hp⟩ := Option.ite_none_left_eq_some.mp h
      cases hp
      by_contra hne
      exact hlen ⟨hexpect, hne⟩

theorem readFields_exact {K : KeyLens} (hK : K.Positive) {oVec : Vec} {f : Fields}
    (h : readFields K oVec = some f) : f.Exact K := by
  obtain ⟨_, hspriv, hspub, hrpub⟩ := readFields_eq_some h
  exact ⟨fieldBytes_length hspriv hK.ecdsaPriv, fieldBytes_length hspub hK.ecdsaPub,
    fieldBytes_length hrpub hK.ecdhPub⟩

theorem utf8_inj {cs cs' : List Char} (h : utf8 cs = utf8 cs') : cs = cs' := by
  have hwide := wideFromUtf8_utf8 .four cs
  rw [h, wideFromUtf8_utf8] at hwide
  have hdenotes := denotes_encode .four cs
  rw [← Option.some.inj hwide, denotes_encode] at hdenotes
  exact (Option.some.inj hdenotes).symm

/-- The addresses of a file, if it has any, are UTF-8 of a text. -/
def WellAddressed (K : KeyLens) (file : VectorFile) : Prop :=
  ∀ text f, file.bytes = some text → readFields K (readVector text) = some f →
    ∃ src dst, f.src = utf8 src ∧ f.dst = utf8 dst ∧ NoNul src ∧ NoNul dst

/-- The file can be read, and its vector is genuine. -/
def Accepted (S : SealScheme) (K : KeyLens) (file : VectorFile) : Prop :=
  file.bWrote = true ∧ ∃ text f src dst, file.bytes = some text ∧
    readFields K (readVector text) = some f ∧ f.src = utf8 src ∧ f.dst = utf8 dst ∧
    Genuine S f src dst

theorem not_clean_setup {s s' : Report} (h : s'.g_fail = s.g_fail) :
    ¬ Clean (pure (2, s') : Checked Vect (Nat × Report)) failures s.g_fail := by
  rw [clean_pure]
  unfold failures
  rw [if_pos rfl]
  dsimp only
  omega

section run
variable {S : SealScheme} {K : KeyLens} {build : Backend} {κ ε : Type} {L : SealLib κ ε}

theorem verify_failures (file : VectorFile) (s : Report) :
    Ends (verify L K build file s) fun q => s.g_fail ≤ failures q :=
  fun q hq => Nat.le_trans (verify_keeps L K build file s q hq) (Nat.le_add_right _ _)

theorem verify_clean_iff (I : Implementation S build.wchar K L) (hK : K.Positive)
    {file : VectorFile} (haddr : WellAddressed K file) (s : Report) :
    Clean (verify L K build file s) failures s.g_fail ↔ Accepted S K file := by
  obtain ⟨pszPath, bytes, bWrote⟩ := file
  unfold verify Accepted
  cases bytes with
  | none =>
    constructor
    · intro h
      exact absurd h (not_clean_setup rfl)
    · intro ⟨_, _, _, _, _, htext, _⟩
      cases htext
  | some text =>
    dsimp only
    cases hread : readFields K (readVector text) with
    | none =>
      constructor
      · intro h
        exact absurd h (not_clean_setup rfl)
      · intro ⟨_, text', f, _, _, htext, hf, _⟩
        cases htext
        rw [hread] at hf
        cases hf
    | some f =>
      obtain ⟨src, dst, hsrc, hdst, hnul, hnul'⟩ := haddr text f rfl hread
      dsimp only
      rw [hsrc, hdst, wideFromUtf8_utf8, wideFromUtf8_utf8]
      refine (verifyFields_clean_iff I (readFields_exact hK hread) hnul hnul' bWrote _).trans ?_
      constructor
      · intro ⟨hwrote, hgenuine⟩
        exact ⟨hwrote, text, f, src, dst, rfl, hread, hsrc, hdst, hgenuine⟩
      · intro ⟨hwrote, text', f', src', dst', htext, hf, hsrc', hdst', hgenuine⟩
        cases htext
        rw [hread] at hf
        cases hf
        rw [hsrc] at hsrc'
        rw [hdst] at hdst'
        rw [utf8_inj hsrc', utf8_inj hdst']
        exact ⟨hwrote, hgenuine⟩

variable (K build L) in
/-- `nSetup` is 0 or 2, and neither it nor the failures are taken back. -/
theorem verifyFiles_failures (files : List VectorFile) {q : Nat × Report}
    (hq : q.1 = 0 ∨ q.1 = 2) :
    Ends (verifyFiles L K build files q) fun q' =>
      failures q ≤ failures q' ∧ (q'.1 = 0 ∨ q'.1 = 2) := by
  induction files generalizing q with
  | nil => exact ends_pure ⟨Nat.le_refl _, hq⟩
  | cons file files ih =>
    unfold verifyFiles
    refine (verify_keeps L K build file q.2).bind fun r hr q' hq' => ?_
    have hnext : (if r.1 = 2 then 2 else q.1) = 0 ∨ (if r.1 = 2 then 2 else q.1) = 2 := by
      split
      · exact Or.inr rfl
      · exact hq
    obtain ⟨hle, hcode⟩ := ih hnext q' hq'
    refine ⟨Nat.le_trans ?_ hle, hcode⟩
    have hkeeps : q.2.g_fail ≤ r.2.g_fail := hr
    unfold failures
    rcases hq with hq | hq
    · simp [hq]
      omega
    · simp [hq]
      omega

/-- By induction on the files: each is verified behind the others, with the failures they
    have left. -/
theorem verifyFiles_clean_iff (I : Implementation S build.wchar K L) (hK : K.Positive)
    {files : List VectorFile} (haddr : ∀ file ∈ files, WellAddressed K file) (s : Report) :
    Clean (verifyFiles L K build files (0, s)) failures s.g_fail ↔
      ∀ file ∈ files, Accepted S K file := by
  induction files generalizing s with
  | nil =>
    unfold verifyFiles
    rw [clean_pure]
    simp [failures]
  | cons file files ih =>
    have hrest := ih fun file' hfile' => haddr file' (List.mem_cons_of_mem _ hfile')
    have hnext : ∀ r : Nat × Report, Ends
        (verifyFiles L K build files (if r.1 = 2 then 2 else 0, r.2))
        fun q => failures r ≤ failures q := by
      intro r q hq
      have hkept := (verifyFiles_failures K build L files (by split <;> simp) q hq).1
      refine Nat.le_trans (Nat.le_of_eq ?_) hkept
      unfold failures
      dsimp only
      by_cases hr : r.1 = 2 <;> simp [hr]
    rw [List.forall_mem_cons]
    unfold verifyFiles
    refine clean_bind_iff (verify_failures file s) hnext
      (verify_clean_iff I hK (haddr file List.mem_cons_self) s) fun _ r hr hclean => ?_
    -- a clean file has set nothing up wrongly
    have hkeeps : s.g_fail ≤ r.2.g_fail := verify_keeps L K build file s r hr
    unfold failures at hclean
    have hcode : r.1 ≠ 2 := by
      intro hsetup
      rw [if_pos hsetup] at hclean
      omega
    rw [if_neg hcode] at hclean
    dsimp only
    rw [if_neg hcode, ← hclean]
    exact hrest r.2

/-- The report that `main verify` begins with. -/
def started (build : Backend) : Report :=
  ⟨[cstr "=== seal_interop verify (this build: " ++ backendTag build ++ cstr ") ==="], 0⟩

variable (K build L) in
/-- Behind the files, only the code and the verdict are left. -/
theorem mainVerify_code (files : List VectorFile) :
    ∃ verdict : Nat × Report → Report,
      mainVerify L K build files = verifyFiles L K build files (0, started build) >>= fun q =>
        pure (if q.1 ≠ 0 then 2 else if q.2.g_fail = 0 then 0 else 1, verdict q) := by
  refine ⟨fun q => if q.1 ≠ 0 then q.2.print (cstr "=== seal_interop: SETUP FAILURE ===") else
    q.2.print (cstr "=== seal_interop: " ++ (if q.2.g_fail = 0 then cstr "ALL PASS" else
      cstr "FAILED") ++ cstr " (" ++ cstr (toString q.2.g_fail) ++ cstr " failure" ++
      (if q.2.g_fail = 1 then cstr "" else cstr "s") ++ cstr ") ==="), ?_⟩
  unfold mainVerify
  dsimp only
  congr 1
  funext q
  obtain ⟨nSetup, s⟩ := q
  dsimp only
  split
  · rfl
  · rfl

/-- The exit code is 0 just when the files were gone through without a failure. -/
theorem mainVerify_zero_iff_clean (files : List VectorFile) :
    (∃ s, mainVerify L K build files = .ok (0, s)) ↔
      Clean (verifyFiles L K build files (0, started build)) failures (started build).g_fail := by
  obtain ⟨verdict, hmain⟩ := mainVerify_code K build L files
  have hfiles := verifyFiles_failures K build L files
    (q := (0, started build)) (Or.inl rfl)
  rw [hmain]
  constructor
  · intro ⟨s, hs⟩
    cases hrun : verifyFiles L K build files (0, started build) with
    | error r =>
      rw [hrun] at hs
      cases hs
    | ok q =>
      rw [hrun] at hs
      have hcode := congrArg Prod.fst (Except.ok.inj hs)
      dsimp only at hcode
      obtain ⟨_, hsetup⟩ := hfiles q hrun
      -- neither a setup that failed nor a check that did
      split at hcode
      · cases hcode
      · next hzero =>
        split at hcode
        · next hfail =>
          refine ⟨q, rfl, ?_⟩
          unfold failures
          rw [hfail, if_neg (by omega)]
          rfl
        · cases hcode
  · intro ⟨q, hrun, hclean⟩
    obtain ⟨_, hsetup⟩ := hfiles q hrun
    have hfail : q.1 = 0 ∧ q.2.g_fail = 0 := by
      have hstart : (started build).g_fail = 0 := rfl
      unfold failures at hclean
      rw [hstart] at hclean
      split at hclean
      · omega
      · exact ⟨by omega, by omega⟩
    refine ⟨verdict q, ?_⟩
    rw [hrun]
    show Except.ok (if q.1 ≠ 0 then 2 else if q.2.g_fail = 0 then 0 else 1, verdict q) = _
    rw [if_neg (by rw [hfail.1]; decide), if_pos hfail.2]

/-- **What the exit code 0 means**: whichever library verifies, as long as it keeps to the
    scheme, the run ends with 0 just when every vector is genuine. -/
theorem mainVerify_zero_iff (I : Implementation S build.wchar K L) (hK : K.Positive)
    (files : List VectorFile) (haddr : ∀ file ∈ files, WellAddressed K file) :
    (∃ s, mainVerify L K build files = .ok (0, s)) ↔ ∀ file ∈ files, Accepted S K file := by
  rw [mainVerify_zero_iff_clean, verifyFiles_clean_iff I hK haddr]

end run

/-- The body of a genuine vector. -/
def sumGenuine : List UInt8 :=
  sumBody [7, 7] [9, 9] ['a', 'l', 'i', 'c', 'e'] ['b', 'o', 'b'] (cstr "hello")

theorem mainVerify_zero_iff_sums :
    (∃ s, mainVerify (schemeLib .two) ⟨3, 2, 3, 2⟩ .windowsCng
        [⟨cstr "sums.vec", some (sumText sumGenuine), true⟩] = .ok (0, s)) ↔
      ∀ file ∈ [(⟨cstr "sums.vec", some (sumText sumGenuine), true⟩ : VectorFile)],
        Accepted sumScheme ⟨3, 2, 3, 2⟩ file := by
  refine mainVerify_zero_iff (schemeImpl .two) ⟨by decide, by decide, by decide, by decide⟩ _ ?_
  intro file hfile text f hbytes hread
  cases List.mem_singleton.mp hfile
  cases hbytes
  have hfields : readFields ⟨3, 2, 3, 2⟩ (readVector (sumText sumGenuine)) =
      some (sumFields sumGenuine) := by
    decide +kernel
  rw [hfields] at hread
  cases hread
  refine ⟨['a', 'l', 'i', 'c', 'e'], ['b', 'o', 'b'], by decide +kernel, by decide +kernel, ?_, ?_⟩
  · exact noNul_of_all (by decide +kernel)
  · exact noNul_of_all (by decide +kernel)

end Seal
