import Mathlib.Data.List.AList
import Mathlib.Data.List.Dedup
import MscsUnitTests.Lib.Regex
import MscsUnitTests.Lib.PyText
import MscsUnitTests.Ci.Wiring

/-! # Repository Checks: Security Tests Declare a STATUS

    `check_security_tests_declare_status` of `check_repo_invariants.py`: a regular
    expression finds the tests with the label `security`, and each of them has to declare
    in the banner above its `add_executable(` what verdict it expects.
-/

open Regex
open PyText (isSpace)

namespace RepoChecks

/-! ## Section 1: The expressions -/

/-- `\w`: given for ASCII, and without white space. -/
structure WordClass where
  isWord : Char → Bool
  ascii : ∀ c : Char, c.toNat < 128 → isWord c = isWordChar c
  space : ∀ c, isSpace c = true → isWord c = false

/-- The word characters of ASCII, and no others. -/
def asciiWords : WordClass where
  isWord := isWordChar
  ascii := fun _ _ => rfl
  space := by
    intro c hc
    have hall : (['\t', '\n', '\x0b', '\x0c', '\r', '\x1c', '\x1d', '\x1e', '\x1f', ' ',
        '\u0085', '\u00a0', '\u1680', '\u2000', '\u2001', '\u2002', '\u2003', '\u2004', '\u2005',
        '\u2006', '\u2007', '\u2008', '\u2009', '\u200a', '\u2028', '\u2029', '\u202f', '\u205f',
        '\u3000'].all fun b => !isWordChar b) = true := by
      decide
    have hnot := List.all_eq_true.mp hall c (of_decide_eq_true hc)
    simpa using hnot

variable (W : WordClass)

/-- `\w+`. -/
def wordRe : Re := .seq (.one W.isWord) (.many W.isWord)

/-- `set_tests_properties\s*\(\s*(\w+)[^)]*LABELS[^)]*\bsecurity\b`. -/
def securityRe : Re :=
  .seq (.lit (text "set_tests_properties")) <| .seq (.many isSpace) <| .seq (.lit (text "(")) <|
  .seq (.many isSpace) <| .seq (.group (wordRe W)) <| .seq (.many (· != ')')) <|
  .seq (.lit (text "LABELS")) <| .seq (.many (· != ')')) <| .seq (.edge W.isWord) <|
  .seq (.lit (text "security")) (.edge W.isWord)

/-- `add_executable\s*\(\s*(\w+)`. -/
def addExecutableRe : Re :=
  .seq (.lit (text "add_executable")) <| .seq (.many isSpace) <| .seq (.lit (text "(")) <|
  .seq (.many isSpace) (.group (wordRe W))

/-- `STATUS_RE` behind its `#`: `\s*STATUS:\s*(PASSES|EXPECTED-FAIL)\b`. -/
def afterHash : Re :=
  .seq (.many isSpace) <| .seq (.lit (text "STATUS:")) <| .seq (.many isSpace) <|
  .seq (.group (.alt (.lit (text "PASSES")) (.lit (text "EXPECTED-FAIL")))) (.edge W.isWord)

/-- `STATUS_RE`: `^\s*#\s*STATUS:\s*(PASSES|EXPECTED-FAIL)\b`, with `re.M`. -/
def statusRe : Re :=
  .seq .lineStart <| .seq (.many isSpace) <| .seq (.lit (text "#")) (afterHash W)

/-! ## Section 2: The check -/

/-- `marks`: the names behind `add_executable(`, and where it stands. -/
def marks (cml : Text) : List (Text × Nat) :=
  ((addExecutableRe W).finditer cml).map fun m => (m.groups.headD [], m.start)

/-- `cml[start:pos]`. -/
def slice (cml : Text) (start pos : Nat) : Text := (cml.take pos).drop start

/-- `setdefault`. -/
def setDefault (banners : AList fun _ : Text => Text) (name banner : Text) :
    AList fun _ : Text => Text :=
  if name ∈ banners then banners else banners.insert name banner

/-- The loop over the marks; a banner starts at the mark before. -/
def bannersFrom (cml : Text) : Nat → List (Text × Nat) → (AList fun _ : Text => Text) →
    AList fun _ : Text => Text
  | _, [], banners => banners
  | start, mark :: rest, banners =>
    bannersFrom cml mark.2 rest (setDefault banners mark.1 (slice cml start mark.2))

/-- `_security_tests`: the tests with their banners, and the labelled names. -/
def securityTests (cml : Text) : List (Text × Text) × List Text :=
  let labelled := ((securityRe W).findall cml).dedup
  let banners := bannersFrom cml 0 (marks W cml) ∅
  ((sorted labelled).filterMap fun n => (banners.lookup n).map fun banner => (n, banner), labelled)

def missingText (missing : List Text) : Text :=
  text "no add_executable() found for security test(s): " ++ commaJoin (sorted missing)

def noStatusText (name : Text) : Text :=
  name ++ text (" is labelled \x60security\x60 but its banner declares no STATUS. Add a line " ++
    "\x27#   STATUS: PASSES\x27 or \x27#   STATUS: EXPECTED-FAIL\x27 above its " ++
    "add_executable(), so a ctest run has something to contradict.")

def manyStatusText (name : Text) (found : List Text) : Text :=
  name ++ text " declares STATUS " ++ decimal found.length ++ text " times (" ++ commaJoin found ++
    text "); exactly one is expected."

def declaredNote (declared : AList fun _ : Text => Text) : Text :=
  decimal declared.entries.length ++ text " security test(s) declare a STATUS (" ++
    decimal (declared.entries.countP fun e => e.2 == text "PASSES") ++ text " PASSES, " ++
    decimal (declared.entries.countP fun e => e.2 == text "EXPECTED-FAIL") ++
    text " EXPECTED-FAIL)"

/-- What the check leaves behind, and what it returns. -/
structure Declaring where
  report : Report
  declared : AList fun _ : Text => Text

/-- One pass of the loop over the tests. -/
def declare (acc : Declaring) (item : Text × Text) : Declaring :=
  match (statusRe W).findall item.2 with
  | [] => { acc with report := acc.report.fail (text "status") (noStatusText item.1) }
  | [value] => { acc with declared := acc.declared.insert item.1 value }
  | found => { acc with report := acc.report.fail (text "status") (manyStatusText item.1 found) }

/-- `missing`. -/
def missingOf (tests : List (Text × Text)) (labelled : List Text) : List Text :=
  labelled.filter fun n => !(tests.map Prod.fst).contains n

def reportMissing (missing : List Text) (r : Report) : Report :=
  if missing = [] then r else r.fail (text "status") (missingText missing)

def noteDeclared (d : Declaring) : Declaring :=
  if d.declared.entries = [] then d
  else { d with report := d.report.note (declaredNote d.declared) }

def checkSecurityTestsDeclareStatus (cml : Text) (r : Report) : Declaring :=
  let tests := (securityTests W cml).1
  let missing := missingOf tests (securityTests W cml).2
  noteDeclared (tests.foldl (declare W) ⟨reportMissing missing r, ∅⟩)

/-! ## Section 3: What the check reports -/

/-- The text between the `add_executable(` of a name, which is the first one if there
    are several, and the one before. -/
def bannerFrom (cml name : Text) : Nat → List (Text × Nat) → Option Text
  | _, [] => none
  | start, mark :: rest =>
    if mark.1 = name then some (slice cml start mark.2) else bannerFrom cml name mark.2 rest

def bannerOf (cml name : Text) : Option Text := bannerFrom cml name 0 (marks W cml)

theorem lookup_bannersFrom (cml name : Text) (start : Nat) (ms : List (Text × Nat))
    (banners : AList fun _ : Text => Text) :
    (bannersFrom cml start ms banners).lookup name =
      (banners.lookup name).or (bannerFrom cml name start ms) := by
  induction ms generalizing start banners with
  | nil => simp [bannersFrom, bannerFrom]
  | cons mark ms ih =>
    rw [bannersFrom, bannerFrom, ih]
    unfold setDefault
    by_cases hname : mark.1 = name
    · subst hname
      rw [if_pos rfl]
      split
      · next hmem =>
        obtain ⟨banner, hbanner⟩ := Option.isSome_iff_exists.mp (AList.lookup_isSome.mpr hmem)
        rw [hbanner]
        rfl
      · next hmem =>
        rw [AList.lookup_insert, AList.lookup_eq_none.mpr hmem]
        rfl
    · rw [if_neg hname]
      split
      · rfl
      · rw [AList.lookup_insert_ne (Ne.symm hname)]

theorem mem_tests (cml name banner : Text) :
    (name, banner) ∈ (securityTests W cml).1 ↔
      name ∈ (securityRe W).findall cml ∧ bannerOf W cml name = some banner := by
  unfold securityTests
  dsimp only
  rw [List.mem_filterMap]
  constructor
  · rintro ⟨n, hn, hsome⟩
    rw [lookup_bannersFrom, AList.lookup_empty, Option.none_or] at hsome
    obtain ⟨b, hb, heq⟩ := Option.map_eq_some_iff.mp hsome
    cases heq
    rw [mem_sorted, List.mem_dedup] at hn
    exact ⟨hn, hb⟩
  · rintro ⟨hn, hb⟩
    refine ⟨name, by rwa [mem_sorted, List.mem_dedup], ?_⟩
    rw [lookup_bannersFrom, AList.lookup_empty, Option.none_or]
    exact Option.map_eq_some_iff.mpr ⟨banner, hb, rfl⟩

/-- The errors a test gives rise to. -/
def statusErrors (item : Text × Text) : List Text :=
  (declare W ⟨⟨[], []⟩, ∅⟩ item).report.errors

theorem errors_declare (acc : Declaring) (item : Text × Text) :
    (declare W acc item).report.errors = acc.report.errors ++ statusErrors W item := by
  unfold statusErrors declare
  split
  · simp
  · simp
  · simp

theorem length_ne_one {l : List Text} (h : ∀ value, l = [value] → False) : l.length ≠ 1 := by
  intro hone
  obtain ⟨value, hvalue⟩ := List.length_eq_one_iff.mp hone
  exact h value hvalue

/-- A test is complained about unless there is one STATUS in its banner. -/
theorem statusErrors_eq_nil_iff (item : Text × Text) :
    statusErrors W item = [] ↔ ((statusRe W).findall item.2).length = 1 := by
  unfold statusErrors declare
  split
  · next h => simp [h]
  · next h => simp [h]
  · next h₀ h₁ =>
    simp [length_ne_one h₁]

/-- The check raises a failure: of the names the expression finds, one has no
    `add_executable(`, or not one STATUS in its banner. -/
def Objects (cml : Text) : Prop :=
  ∃ name ∈ (securityRe W).findall cml, ∀ banner, bannerOf W cml name = some banner →
    ((statusRe W).findall banner).length ≠ 1

@[simp] theorem errors_noteDeclared (d : Declaring) :
    (noteDeclared d).report.errors = d.report.errors := by
  unfold noteDeclared
  split <;> rfl

@[simp] theorem declared_noteDeclared (d : Declaring) : (noteDeclared d).declared = d.declared := by
  unfold noteDeclared
  split <;> rfl

theorem errors_reportMissing (missing : List Text) (r : Report) :
    ∃ added, (reportMissing missing r).errors = r.errors ++ added ∧
      (added = [] ↔ missing = []) := by
  unfold reportMissing
  split
  · next h => exact ⟨[], (List.append_nil _).symm, iff_of_true rfl h⟩
  · next h => exact ⟨_, rfl, iff_of_false (List.cons_ne_nil _ _) h⟩

/-- A name that was found is missing when it has no banner. -/
theorem missing_eq_nil_iff (cml : Text) :
    missingOf (securityTests W cml).1 (securityTests W cml).2 = [] ↔
      ∀ name ∈ (securityRe W).findall cml, ∃ banner, bannerOf W cml name = some banner := by
  have hlabelled : ∀ name, name ∈ (securityTests W cml).2 ↔ name ∈ (securityRe W).findall cml :=
    fun name => List.mem_dedup
  have htests : ∀ name, name ∈ (securityTests W cml).1.map Prod.fst ↔
      name ∈ (securityRe W).findall cml ∧ ∃ banner, bannerOf W cml name = some banner := by
    intro name
    rw [List.mem_map]
    constructor
    · rintro ⟨⟨n, banner⟩, hmem, rfl⟩
      obtain ⟨hfound, hbanner⟩ := (mem_tests W cml n banner).mp hmem
      exact ⟨hfound, banner, hbanner⟩
    · rintro ⟨hfound, banner, hbanner⟩
      exact ⟨⟨name, banner⟩, (mem_tests W cml name banner).mpr ⟨hfound, hbanner⟩, rfl⟩
  unfold missingOf
  rw [List.filter_eq_nil_iff]
  simp only [Bool.not_eq_true', Bool.not_eq_false, List.contains_iff_mem, hlabelled, htests]
  constructor
  · exact fun h name hname => (h name hname).2
  · exact fun h name hname => ⟨hname, h name hname⟩

/-- **When the check raises a failure.** -/
theorem objects_iff (cml : Text) (r : Report) :
    (checkSecurityTestsDeclareStatus W cml r).report.errors ≠ r.errors ↔ Objects W cml := by
  have hloop := errors_foldl Declaring.report (declare W) (statusErrors W) (errors_declare W)
    (securityTests W cml).1
  obtain ⟨added, hadded, hnil⟩ :=
    errors_reportMissing (missingOf (securityTests W cml).1 (securityTests W cml).2) r
  unfold checkSecurityTestsDeclareStatus
  dsimp only
  rw [errors_noteDeclared, hloop]
  dsimp only
  rw [hadded, List.append_assoc, ne_eq, List.append_right_eq_self, List.append_eq_nil_iff, hnil,
    missing_eq_nil_iff, List.flatMap_eq_nil_iff]
  unfold Objects
  constructor
  · intro h
    by_contra hno
    push Not at hno
    apply h
    constructor
    · intro name hname
      obtain ⟨banner, hbanner, -⟩ := hno name hname
      exact ⟨banner, hbanner⟩
    · rintro ⟨name, banner⟩ hmem
      obtain ⟨hname, hbanner⟩ := (mem_tests W cml name banner).mp hmem
      obtain ⟨banner', hbanner', hone⟩ := hno name hname
      rw [hbanner] at hbanner'
      cases hbanner'
      exact (statusErrors_eq_nil_iff W _).mpr hone
  · rintro ⟨name, hname, hall⟩ ⟨hbanners, hone⟩
    obtain ⟨banner, hbanner⟩ := hbanners name hname
    have hmem := (mem_tests W cml name banner).mpr ⟨hname, hbanner⟩
    exact hall banner hbanner ((statusErrors_eq_nil_iff W _).mp (hone _ hmem))

/-! ## Section 4: What the map records -/

theorem lookup_declare (acc : Declaring) (item : Text × Text) (name : Text) :
    (declare W acc item).declared.lookup name =
      if item.1 = name ∧ ((statusRe W).findall item.2).length = 1 then
        ((statusRe W).findall item.2).head?
      else acc.declared.lookup name := by
  unfold declare
  split
  · next h => simp [h]
  · next value h =>
    rw [h]
    by_cases hname : item.1 = name
    · subst hname
      simp
    · simp [hname, Ne.symm hname]
  · next h₀ h₁ =>
    simp [length_ne_one h₁]

/-- The loop, by induction on the tests: a name keeps what one of its passes records. -/
theorem lookup_foldl_declare {name banner value : Text}
    (hvalue : (statusRe W).findall banner = [value]) (tests : List (Text × Text))
    (hbanner : ∀ item ∈ tests, item.1 = name → item.2 = banner) (acc : Declaring)
    (h : acc.declared.lookup name = some value ∨ name ∈ tests.map Prod.fst) :
    (tests.foldl (declare W) acc).declared.lookup name = some value := by
  induction tests generalizing acc with
  | nil =>
    rcases h with h | h
    · exact h
    · cases h
  | cons item tests ih =>
    have hrest : ∀ item' ∈ tests, item'.1 = name → item'.2 = banner := fun item' hmem =>
      hbanner item' (List.mem_cons_of_mem _ hmem)
    rw [List.foldl_cons]
    apply ih hrest
    rw [lookup_declare]
    by_cases hname : item.1 = name
    · left
      rw [hbanner item List.mem_cons_self hname, hvalue, if_pos ⟨hname, rfl⟩]
      rfl
    · rw [if_neg fun hboth => hname hboth.1]
      rcases h with h | h
      · exact Or.inl h
      · rw [List.map_cons, List.mem_cons] at h
        exact Or.inr (h.resolve_left (Ne.symm hname))

/-- A name that is none of the tests is not recorded. -/
theorem lookup_foldl_none {name : Text} (tests : List (Text × Text))
    (hname : name ∉ tests.map Prod.fst) (acc : Declaring) :
    (tests.foldl (declare W) acc).declared.lookup name = acc.declared.lookup name := by
  induction tests generalizing acc with
  | nil => rfl
  | cons item tests ih =>
    rw [List.map_cons, List.mem_cons, not_or] at hname
    rw [List.foldl_cons, ih hname.2, lookup_declare,
      if_neg fun hboth => hname.1 hboth.1.symm]

/-- The map has the one STATUS of every test that was found. -/
theorem lookup_declared {cml name banner value : Text} (r : Report)
    (hfound : name ∈ (securityRe W).findall cml) (hbanner : bannerOf W cml name = some banner)
    (hvalue : (statusRe W).findall banner = [value]) :
    (checkSecurityTestsDeclareStatus W cml r).declared.lookup name = some value := by
  unfold checkSecurityTestsDeclareStatus
  dsimp only
  rw [declared_noteDeclared]
  apply lookup_foldl_declare W hvalue
  · rintro ⟨n, b⟩ hmem hn
    cases hn
    obtain ⟨-, hb⟩ := (mem_tests W cml n b).mp hmem
    rw [hbanner] at hb
    exact (Option.some.inj hb).symm
  · exact Or.inr (List.mem_map.mpr ⟨_, (mem_tests W cml name banner).mpr ⟨hfound, hbanner⟩, rfl⟩)

/-- What the map has was found. -/
theorem found_of_declared {cml name value : Text} {r : Report}
    (h : (checkSecurityTestsDeclareStatus W cml r).declared.lookup name = some value) :
    name ∈ (securityRe W).findall cml := by
  unfold checkSecurityTestsDeclareStatus at h
  dsimp only at h
  rw [declared_noteDeclared] at h
  by_contra hnot
  have hname : name ∉ (securityTests W cml).1.map Prod.fst := by
    rw [List.mem_map]
    rintro ⟨⟨n, b⟩, hmem, rfl⟩
    exact hnot ((mem_tests W cml n b).mp hmem).1
  rw [lookup_foldl_none W _ hname, AList.lookup_empty] at h
  cases h

end RepoChecks
