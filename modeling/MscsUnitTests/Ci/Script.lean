import MscsUnitTests.Ci.Attributes
import MscsUnitTests.Ci.Declared
import MscsUnitTests.Ci.PostBuild
import MscsUnitTests.Ci.Sources
import MscsUnitTests.Ci.Status
import MscsUnitTests.Ci.Wiring

/-! # Repository Checks: The Script

    `main` of `check_repo_invariants.py`: the arguments, the checks one after the other, and
    the exit code.

    * `Holds`: what all the checks ask for.
    * `exit_zero_iff`: the script exits with 0 exactly when all of it holds.
-/

open PyText (isSpace)

namespace RepoChecks

/-! ## Section 1: The script -/

/-- What the script reads: whether a path is a file, the entries of the directory,
    `CMakeLists.txt`, `.gitattributes` and `tools/hooks/pre-push`. The first two of these
    files can be read; where one cannot, `open` raises and the script does not judge. -/
structure Repository where
  isFile : Text → Bool
  root : RootDir
  cml : Text
  ga : Text
  hook : Option (List UInt8)

/-- `junit`, from the arguments; nothing where the usage is printed. -/
def junitOf : List Text → Option (Option Text)
  | [] => some none
  | [flag, path] => if flag = text "--ctest-junit" then some (some path) else none
  | _ => none

/-- What a banner declares, as the comparison with a run takes it. -/
def statusValue (value : Text) : Status :=
  if value = text "EXPECTED-FAIL" then .expectedFail else .passes

def declaredStatuses (declared : AList fun _ : Text => Text) : List (Text × Status) :=
  declared.entries.map fun e => (e.1, statusValue e.2)

/-- `os.path.basename`. -/
def basename (path : Text) : Text := path.rtakeWhile (· != '/')

def notComparedText : Text :=
  text ("STATUS declarations NOT compared against a run (pass --ctest-junit to do that; CI here " ++
    "cannot, it builds nothing)")

section script

-- `parse` is `ET.parse` of a path, and `exc` what it says of a file it cannot read
variable (W : WordClass) (parse : Text → Option Elem) (exc : Text → Text)

/-- The check that a run is compared in; `if junit:` is false for an empty path, too. -/
def compareWithRun (junit : Option Text) (d : Declaring) : Report :=
  match junit.filter (· != []) with
  | some path =>
    (checkDeclaredStatusMatchesRun (declaredStatuses d.declared) (parse path)).report
      path (basename path) (exc path) d.report
  | none => d.report.note notComparedText

/-- The checks; `none` is an exception. -/
def runChecks (junit : Option Text) (repo : Repository) : Option Report := do
  let r := checkNamedSourcesExist repo.isFile repo.cml ⟨[], []⟩
  let r := checkEverySourceIsWired repo.root repo.cml r
  let r ← checkNoPostBuildCopy repo.cml r
  let r := checkGitattributesBinary repo.ga r
  let r := checkHookIntact repo.hook repo.ga r
  let d := checkSecurityTestsDeclareStatus W repo.cml r
  some (compareWithRun parse exc junit d)

/-- `main`: the exit code. -/
def main (argv : List Text) (repo : Repository) : Option Nat :=
  match junitOf argv with
  | none => some 2
  | some junit => (runChecks W parse exc junit repo).map fun r => if r.errors = [] then 0 else 1

end script

/-! ## Section 2: What a comparison finds -/

/-- A failure of the comparison: a declaration and the last testcase of its name disagree. -/
def judgeFailures (actual : AList fun _ : Text => Status) (item : Text × Status) :
    List StatusFailure :=
  (judge actual ⟨[], [], []⟩ item).failures

theorem failures_judge (actual : AList fun _ : Text => Status) (acc : Judged)
    (item : Text × Status) :
    (judge actual acc item).failures = acc.failures ++ judgeFailures actual item := by
  unfold judgeFailures judge
  split
  · simp
  · split
    · simp
    · split <;> simp

theorem judgeFailures_eq_nil_iff (actual : AList fun _ : Text => Status) (item : Text × Status) :
    judgeFailures actual item = [] ↔ ∀ got, actual.lookup item.1 = some got → got = item.2 := by
  unfold judgeFailures judge
  split
  · next hnone => simp [hnone]
  · next got hgot =>
    by_cases heq : got = item.2
    · simp [heq, hgot]
    · simp only [if_neg heq, hgot]
      split <;> simp [heq]

theorem failures_foldl (actual : AList fun _ : Text => Status) (items : List (Text × Status))
    (acc : Judged) : (items.foldl (judge actual) acc).failures =
      acc.failures ++ items.flatMap (judgeFailures actual) := by
  induction items generalizing acc with
  | nil => simp
  | cons item items ih =>
    rw [List.foldl_cons, ih, failures_judge, List.flatMap_cons, List.append_assoc]

/-- Nothing is recorded of a run without a named testcase. -/
theorem actualOf_eq_nil_iff (root : Elem) :
    (actualOf root).entries = [] ↔ ∀ name, named root name = [] := by
  constructor
  · intro h name
    have hnone : (actualOf root).lookup name = none := by
      unfold AList.lookup
      rw [h]
      rfl
    rw [lookup_actualOf, Option.map_eq_none_iff, List.getLast?_eq_none_iff] at hnone
    exact hnone
  · intro h
    rw [List.eq_nil_iff_forall_not_mem]
    rintro ⟨name, got⟩ hmem
    have hsome := AList.mem_lookup_iff.mpr hmem
    rw [lookup_actualOf, h name] at hsome
    cases hsome

/-- A run that bears the declarations out: it has testcases, and the last one of a declared
    name, if there is one, has the verdict that was declared. -/
structure BearsOut (root : Elem) (declared : List (Text × Status)) : Prop where
  ran : ∃ name, named root name ≠ []
  agrees : ∀ item ∈ declared, ∀ tc, (named root item.1).getLast? = some tc → verdict tc = item.2

theorem failures_eq_nil_iff (declared : List (Text × Status)) (parsed : Option Elem) :
    (checkDeclaredStatusMatchesRun declared parsed).failures = [] ↔
      ∃ root, parsed = some root ∧ BearsOut root declared := by
  rcases parsed with _ | root
  · simp [checkDeclaredStatusMatchesRun]
  · unfold checkDeclaredStatusMatchesRun
    dsimp only
    by_cases hempty : (actualOf root).entries = []
    · have hnone := (actualOf_eq_nil_iff root).mp hempty
      rw [if_pos (by rw [hempty]; rfl)]
      constructor
      · intro h
        cases h
      · rintro ⟨_, hroot, ⟨name, hname⟩, -⟩
        cases hroot
        exact absurd (hnone name) hname
    · have hsome : ∃ name, named root name ≠ [] := by
        by_contra hno
        push Not at hno
        exact hempty ((actualOf_eq_nil_iff root).mpr hno)
      rw [if_neg (by rwa [List.isEmpty_iff]), failures_foldl, List.nil_append,
        List.flatMap_eq_nil_iff]
      simp only [List.mem_insertionSort, judgeFailures_eq_nil_iff, lookup_actualOf,
        Option.map_eq_some_iff]
      constructor
      · intro h
        exact ⟨root, rfl, hsome, fun item hitem tc htc => h item hitem _ ⟨tc, htc, rfl⟩⟩
      · rintro ⟨_, hroot, -, hagrees⟩ item hitem got ⟨tc, htc, rfl⟩
        cases hroot
        exact hagrees item hitem tc htc

/-! ## Section 3: The exit code -/

section exit
variable (W : WordClass) (parse : Text → Option Elem) (exc : Text → Text)

/-- A test that CMake gives the label `security`, and the one STATUS of its banner. -/
def DeclaresOne (cml name value : Text) : Prop :=
  name ∈ (securityRe W).findall cml ∧
    ∃ banner, bannerOf W cml name = some banner ∧ (statusRe W).findall banner = [value]

/-- **What the script asks for**: the sources that are named exist, all sources are wired,
    no `POST_BUILD` outside of comment lines, `.gitattributes` and the hook are as they
    should be, the security tests have one STATUS each, and the run, if one is given, bears
    them out. -/
structure Holds (junit : Option Text) (repo : Repository) : Prop where
  sources : ∀ tok, NamedSource repo.cml tok → repo.isFile tok = true
  wired : ¬ RaisesFailure repo.root repo.cml
  postBuild : ∀ start ∈ PyText.occurrences postBuild repo.cml,
    isProse (fetched repo.cml start) = true
  binary : AttributeSet repo.ga [text "*.p2p", text "binary"]
  hook : HookIntact repo.hook repo.ga
  declares : ¬ Objects W repo.cml
  run : ∀ path, junit = some path → path ≠ [] → ∃ root, parse path = some root ∧
    (∃ name, named root name ≠ []) ∧
    ∀ name value, DeclaresOne W repo.cml name value →
      ∀ tc, (named root name).getLast? = some tc → verdict tc = statusValue value

/-- Errors are only ever appended. -/
theorem nil_iff_of_append {before after added : List Text} (h : after = before ++ added) :
    after = [] ↔ before = [] ∧ after = before := by
  subst h
  simp

theorem errors_checkGitattributesBinary (ga : Text) (r : Report) :
    ∃ added, (checkGitattributesBinary ga r).errors = r.errors ++ added := by
  unfold checkGitattributesBinary
  split
  · exact ⟨[], (List.append_nil _).symm⟩
  · exact ⟨_, rfl⟩

theorem errors_checkHookIntact (hook : Option (List UInt8)) (ga : Text) (r : Report) :
    ∃ added, (checkHookIntact hook ga r).errors = r.errors ++ added := by
  unfold checkHookIntact
  rcases hook with _ | blob
  · exact ⟨_, rfl⟩
  · generalize attributeFound ga (text "tools/hooks/*") [text "text", text "eol=lf"] = found
    by_cases hcr : crlf <:+: blob
    · cases found <;> simp [hcr]
    · cases found <;> simp [hcr]

theorem errors_checkSecurityTests (cml : Text) (r : Report) :
    ∃ added, (checkSecurityTestsDeclareStatus W cml r).report.errors = r.errors ++ added := by
  obtain ⟨added, hadded, -⟩ :=
    errors_reportMissing (missingOf (securityTests W cml).1 (securityTests W cml).2) r
  unfold checkSecurityTestsDeclareStatus
  dsimp only
  rw [errors_noteDeclared, errors_foldl Declaring.report (declare W) (statusErrors W)
    (errors_declare W)]
  dsimp only
  rw [hadded, List.append_assoc]
  exact ⟨_, rfl⟩

/-- Where every security test has one STATUS, the map has them, and nothing else. -/
theorem mem_declaredStatuses {cml : Text} (hdeclares : ¬ Objects W cml) (r : Report)
    (item : Text × Status) :
    item ∈ declaredStatuses (checkSecurityTestsDeclareStatus W cml r).declared ↔
      ∃ value, DeclaresOne W cml item.1 value ∧ item.2 = statusValue value := by
  have hlookup : ∀ name value,
      (checkSecurityTestsDeclareStatus W cml r).declared.lookup name = some value ↔
        DeclaresOne W cml name value := by
    intro name value
    constructor
    · intro h
      have hfound := found_of_declared W h
      unfold Objects at hdeclares
      push Not at hdeclares
      obtain ⟨banner, hbanner, hone⟩ := hdeclares name hfound
      obtain ⟨value', hvalue⟩ := List.length_eq_one_iff.mp hone
      rw [lookup_declared W r hfound hbanner hvalue] at h
      cases h
      exact ⟨hfound, banner, hbanner, hvalue⟩
    · rintro ⟨hfound, banner, hbanner, hvalue⟩
      exact lookup_declared W r hfound hbanner hvalue
  obtain ⟨name, want⟩ := item
  unfold declaredStatuses
  rw [List.mem_map]
  constructor
  · rintro ⟨⟨n, value⟩, hmem, heq⟩
    cases heq
    exact ⟨value, (hlookup n value).mp (AList.mem_lookup_iff.mpr hmem), rfl⟩
  · rintro ⟨value, hvalue, rfl⟩
    exact ⟨⟨name, value⟩, AList.mem_lookup_iff.mp ((hlookup name value).mpr hvalue), rfl⟩

/-- The comparison adds no error when the run bears the declarations out, or there is none. -/
theorem compareWithRun_iff {cml : Text} (hdeclares : ¬ Objects W cml) (r : Report)
    (junit : Option Text) :
    (compareWithRun parse exc junit (checkSecurityTestsDeclareStatus W cml r)).errors =
        (checkSecurityTestsDeclareStatus W cml r).report.errors ↔
      ∀ path, junit = some path → path ≠ [] → ∃ root, parse path = some root ∧
        (∃ name, named root name ≠ []) ∧
        ∀ name value, DeclaresOne W cml name value →
          ∀ tc, (named root name).getLast? = some tc → verdict tc = statusValue value := by
  unfold compareWithRun
  rcases hpath : junit.filter (· != []) with _ | path
  · rw [Report.errors_note]
    refine iff_of_true rfl fun path hjunit hne => ?_
    simp [hjunit, hne] at hpath
  · obtain ⟨rfl, hne⟩ : junit = some path ∧ path ≠ [] := by
      simpa [Option.filter_eq_some_iff] using hpath
    rw [errors_report, List.append_right_eq_self, List.map_eq_nil_iff, failures_eq_nil_iff]
    constructor
    · rintro ⟨root, hroot, hran, hagrees⟩ path' hpath' _
      cases hpath'
      refine ⟨root, hroot, hran, fun name value hvalue => ?_⟩
      exact hagrees (name, statusValue value)
        ((mem_declaredStatuses W hdeclares r _).mpr ⟨value, hvalue, rfl⟩)
    · intro h
      obtain ⟨root, hroot, hran, hagrees⟩ := h path rfl hne
      refine ⟨root, hroot, hran, ?_⟩
      rintro ⟨name, want⟩ hmem tc htc
      obtain ⟨value, hvalue, hwant⟩ := (mem_declaredStatuses W hdeclares r _).mp hmem
      exact (hagrees name value hvalue tc htc).trans hwant.symm

theorem errors_compareWithRun (junit : Option Text) (d : Declaring) :
    ∃ added, (compareWithRun parse exc junit d).errors = d.report.errors ++ added := by
  unfold compareWithRun
  split
  · exact ⟨_, errors_report _ _ _ _ _⟩
  · exact ⟨[], (List.append_nil _).symm⟩

/-- The checks always come to an end, without an error just when all of it holds. -/
theorem runChecks_iff (junit : Option Text) (repo : Repository) :
    ∃ r, runChecks W parse exc junit repo = some r ∧ (r.errors = [] ↔ Holds W parse junit repo) := by
  let r₁ := checkNamedSourcesExist repo.isFile repo.cml ⟨[], []⟩
  let r₂ := checkEverySourceIsWired repo.root repo.cml r₁
  obtain ⟨r₃, hr₃, hpost⟩ := checkNoPostBuildCopy_errors repo.cml r₂
  let r₄ := checkGitattributesBinary repo.ga r₃
  let r₅ := checkHookIntact repo.hook repo.ga r₄
  let d := checkSecurityTestsDeclareStatus W repo.cml r₅
  refine ⟨compareWithRun parse exc junit d, ?_, ?_⟩
  · show (checkNoPostBuildCopy repo.cml r₂ >>= _) = _
    rw [hr₃]
    rfl
  -- what each of the checks adds, from the last one to the first
  obtain ⟨_, hadded₆⟩ := errors_compareWithRun parse exc junit d
  obtain ⟨_, hadded₅⟩ := errors_checkSecurityTests W repo.cml r₅
  obtain ⟨_, hadded₄⟩ := errors_checkHookIntact repo.hook repo.ga r₄
  obtain ⟨_, hadded₃⟩ := errors_checkGitattributesBinary repo.ga r₃
  have hadded₁ := errors_checkEverySourceIsWired repo.root repo.cml r₁
  have hwired := (raisesFailure_iff repo.root repo.cml r₁).not
  rw [not_not] at hwired
  have hpostNone : r₃.errors = r₂.errors ↔
      ∀ start ∈ PyText.occurrences postBuild repo.cml, isProse (fetched repo.cml start) = true := by
    rw [hpost, List.append_right_eq_self, List.map_eq_nil_iff, List.filter_eq_nil_iff]
    simp
  have hobjects := (objects_iff W repo.cml r₅).not
  rw [not_not] at hobjects
  rw [nil_iff_of_append hadded₆, nil_iff_of_append hadded₅, nil_iff_of_append hadded₄,
    nil_iff_of_append hadded₃, nil_iff_of_append hpost, nil_iff_of_append hadded₁,
    hookIntact_iff, gitattributesBinary_iff, hpostNone, hwired, hobjects]
  have hsources : r₁.errors = [] ↔ _ := namedSources_iff repo.isFile repo.cml ⟨[], []⟩
  rw [hsources]
  constructor
  · rintro ⟨⟨⟨⟨⟨⟨hs, hw⟩, hp⟩, hb⟩, hh⟩, hd⟩, hr⟩
    exact ⟨hs, hw, hp, hb, hh, hd, (compareWithRun_iff W parse exc hd r₅ junit).mp hr⟩
  · rintro ⟨hs, hw, hp, hb, hh, hd, hr⟩
    exact ⟨⟨⟨⟨⟨⟨hs, hw⟩, hp⟩, hb⟩, hh⟩, hd⟩, (compareWithRun_iff W parse exc hd r₅ junit).mpr hr⟩

/-- **The script exits with 0** exactly when its arguments are understood and all that it
    asks for holds; it exits with 2 for arguments it does not understand, and else with 1. -/
theorem exit_zero_iff (argv : List Text) (repo : Repository) :
    (main W parse exc argv repo = some 0 ↔
      ∃ junit, junitOf argv = some junit ∧ Holds W parse junit repo) ∧
    (main W parse exc argv repo = some 2 ↔ junitOf argv = none) ∧
    (main W parse exc argv repo = some 1 ↔
      ∃ junit, junitOf argv = some junit ∧ ¬ Holds W parse junit repo) := by
  unfold main
  rcases junitOf argv with _ | junit
  · simp
  · obtain ⟨r, hr, hiff⟩ := runChecks_iff W parse exc junit repo
    simp only [hr, Option.map_some]
    by_cases hnil : r.errors = []
    · simp [hnil, hiff.mp hnil]
    · have hnot : ¬ Holds W parse junit repo := fun h => hnil (hiff.mpr h)
      simp [hnil, hnot]

end exit

end RepoChecks
