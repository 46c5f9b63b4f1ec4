import MscsUnitTests.Lib.Shell

/-! # The Sanitizer Runs

    `run_sanitizers.sh` configures, builds and runs the teardown stress under each
    sanitizer of a list. What the commands print and how they exit is up to them, so the
    machine is a function that answers a command at a place of the list. A stress binary
    that an earlier build has left behind answers like any other; one that is not there
    answers 127.

    * `runOne`, `script`: the script.
    * `reports_clean_iff`: when its last word is right. The status of a build goes into a
      pipeline and does not come out of it.
-/

open ShellText

namespace Sanitizers

abbrev Text := List Char

/-! ## Section 1: The script -/

/-- What the script takes from its surroundings. -/
structure Env where
  ROOT : Text
  CONNS : Option Text
  CONC : Option Text
  DELAY : Option Text

/-- A command: a variable that is set for it, and its words. -/
structure Command where
  assign : Option (Text × Text)
  argv : List Text

/-- A heading. -/
def banner (s : Text) : Text :=
  "================ ".toList ++ s ++ " ================".toList

def dir (e : Env) (san : Text) : Text := e.ROOT ++ "/build-".toList ++ san

/-- `cmake -S ..`. -/
def configureCmd (e : Env) (san : Text) : Command where
  assign := none
  argv := ["cmake".toList, "-S".toList, e.ROOT, "-B".toList, dir e san, "-G".toList,
    "Ninja".toList, "-DMSCS_BUILD_LIBS=ON".toList, "-DCMAKE_BUILD_TYPE=Debug".toList,
    "-DCMAKE_CXX_FLAGS=-fsanitize=".toList ++ san ++ " -g -O1 -fno-omit-frame-pointer".toList,
    "-DCMAKE_EXE_LINKER_FLAGS=-fsanitize=".toList ++ san,
    "-DCMAKE_SHARED_LINKER_FLAGS=-fsanitize=".toList ++ san]

/-- `cmake --build ..`. -/
def buildCmd (e : Env) (san : Text) : Command where
  assign := none
  argv := ["cmake".toList, "--build".toList, dir e san, "--target".toList,
    "teardown_stress".toList]

def conns (e : Env) : Text := orDefault e.CONNS "1000".toList

def conc (e : Env) : Text := orDefault e.CONC "8".toList

def delay (e : Env) : Text := orDefault e.DELAY "12".toList

/-- The stress binary, with the options of the sanitizer. -/
def stressCmd (e : Env) (san : Text) : Command where
  assign := some <|
    if san = "address".toList then
      ("ASAN_OPTIONS".toList, "detect_leaks=1:halt_on_error=1:abort_on_error=1".toList)
    else ("TSAN_OPTIONS".toList, "halt_on_error=1:second_deadlock_stack=1".toList)
  argv := [dir e san ++ "/MscsUnitTests/teardown_stress".toList, conns e, conc e, delay e]

/-- `run_one`. -/
def runOne (e : Env) (exec : Command → Ran) (san : Text) : Ran :=
  let head := [banner (san ++ " : configure (".toList ++ dir e san ++ ")".toList)]
  -- its output goes to /dev/null
  if (exec (configureCmd e san)).code ≠ 0 then ⟨head, 2⟩
  else
    let build := pipe (exec (buildCmd e san)) (tail 4)
    let built := head ++ banner (san ++ " : build teardown_stress".toList) :: build.out
    if build.code ≠ 0 then ⟨built, 2⟩
    else
      let run := exec (stressCmd e san)
      let what := san ++ " : run (".toList ++ conns e ++ " conns, conc ".toList ++ conc e ++
        ", delay ".toList ++ delay e ++ ")".toList
      let rc := run.code
      ⟨built ++ banner what :: run.out ++ [banner (san ++ " : exit=".toList ++ Nat.toDigits 10 rc)],
        rc⟩

/-- `SANS="${*:-address thread}"`, and its words. -/
def sans (args : List Text) : List Text :=
  words (orDefault (some ([' '].intercalate args)) "address thread".toList)

def allClean : Text := "ALL SANITIZERS CLEAN".toList

def someFailure : Text := "SANITIZER FAILURE (see above)".toList

/-- The script. `exec` answers the commands of each place of the list. -/
def script (e : Env) (exec : Nat → Command → Ran) (args : List Text) : Ran :=
  let r := runAll (fun p : Text × Nat => runOne e (exec p.2) p.1) (sans args).zipIdx 0
  ⟨r.out ++ [if r.code = 0 then allClean else someFailure], r.code⟩

/-! ## Section 2: What is reported -/

section reports
variable (e : Env) (exec : Nat → Command → Ran) (args : List Text)

/-- The three steps of a place of the list. -/
def Configured (p : Text × Nat) : Prop := (exec p.2 (configureCmd e p.1)).code = 0

def Built (p : Text × Nat) : Prop := (exec p.2 (buildCmd e p.1)).code = 0

def Passed (p : Text × Nat) : Prop := (exec p.2 (stressCmd e p.1)).code = 0

instance (p : Text × Nat) : Decidable (Configured e exec p) :=
  inferInstanceAs (Decidable (_ = 0))

instance (p : Text × Nat) : Decidable (Built e exec p) :=
  inferInstanceAs (Decidable (_ = 0))

instance (p : Text × Nat) : Decidable (Passed e exec p) :=
  inferInstanceAs (Decidable (_ = 0))

/-- The last line says so, and so does the exit status. -/
def ReportsClean : Prop :=
  (script e exec args).out.getLast? = some allClean ∧ (script e exec args).code = 0

/-- Everything has gone well, for every sanitizer of the list. -/
def AllSucceeded : Prop :=
  ∀ p ∈ (sans args).zipIdx, Configured e exec p ∧ Built e exec p ∧ Passed e exec p

/-- The status of a sanitizer is the one of its run, if it was configured. That of the
    build is lost: `tail` has read its output and is content. -/
theorem runOne_code_iff (p : Text × Nat) :
    (runOne e (exec p.2) p.1).code = 0 ↔ Configured e exec p ∧ Passed e exec p := by
  unfold runOne Configured Passed
  by_cases hconf : (exec p.2 (configureCmd e p.1)).code = 0
  · have htail : (pipe (exec p.2 (buildCmd e p.1)) (tail 4)).code = 0 := rfl
    rw [if_neg (not_not.mpr hconf)]
    dsimp only
    rw [if_neg (not_not.mpr htail)]
    exact (and_iff_right hconf).symm
  · rw [if_pos hconf]
    constructor
    · intro h
      cases h
    · intro h
      exact absurd h.1 hconf

/-- So is the report. -/
theorem reportsClean_iff_code : ReportsClean e exec args ↔
    ∀ p ∈ (sans args).zipIdx, Configured e exec p ∧ Passed e exec p := by
  have hloop := runAll_code_iff (fun p : Text × Nat => runOne e (exec p.2) p.1)
    (sans args).zipIdx 0
  simp only [runOne_code_iff, true_and] at hloop
  unfold ReportsClean script
  dsimp only
  rw [List.getLast?_concat, ← hloop]
  constructor
  · intro h
    exact h.2
  · intro h
    exact ⟨by rw [if_pos h], h⟩

/-- **When the last word is right**: something else has failed as well, or no build
    has. -/
theorem reports_clean_iff : (ReportsClean e exec args ↔ AllSucceeded e exec args) ↔
    (∃ p ∈ (sans args).zipIdx, ¬ Configured e exec p ∨ ¬ Passed e exec p) ∨
      ∀ p ∈ (sans args).zipIdx, Built e exec p := by
  rw [reportsClean_iff_code]
  unfold AllSucceeded
  constructor
  · intro h
    by_cases hclean : ∀ p ∈ (sans args).zipIdx, Configured e exec p ∧ Passed e exec p
    · exact Or.inr fun p hp => (h.mp hclean p hp).2.1
    · push Not at hclean
      obtain ⟨p, hp, hfail⟩ := hclean
      refine Or.inl ⟨p, hp, ?_⟩
      by_cases hconf : Configured e exec p
      · exact Or.inr (hfail hconf)
      · exact Or.inl hconf
  · intro h
    constructor
    · intro hclean
      rcases h with ⟨p, hp, hfail⟩ | hbuilt
      · rcases hfail with hfail | hfail
        · exact absurd (hclean p hp).1 hfail
        · exact absurd (hclean p hp).2 hfail
      · exact fun p hp => ⟨(hclean p hp).1, hbuilt p hp, (hclean p hp).2⟩
    · intro hall p hp
      exact ⟨(hall p hp).1, (hall p hp).2.2⟩

end reports

/-- A machine on which nothing builds, and the binaries of yesterday run. -/
def stale (_ : Nat) (c : Command) : Ran :=
  if c.argv[1]? = some "--build".toList then ⟨["FAILED: msgcore.o".toList], 1⟩ else ⟨[], 0⟩

/-- It is reported clean. -/
theorem stale_binary_is_clean :
    ReportsClean ⟨"/src".toList, none, none, none⟩ stale ["address".toList] ∧
    ¬ AllSucceeded ⟨"/src".toList, none, none, none⟩ stale ["address".toList] := by
  have hsans : (sans ["address".toList]).zipIdx = [("address".toList, 0)] := by decide +kernel
  refine ⟨?_, fun h => ?_⟩
  · rw [reportsClean_iff_code, hsans]
    intro p hp
    obtain rfl := List.mem_singleton.mp hp
    exact ⟨by decide +kernel, by decide +kernel⟩
  · have hbuilt := (h ("address".toList, 0) (by rw [hsans]; exact List.mem_singleton_self _)).2.1
    exact absurd hbuilt (by decide +kernel)

end Sanitizers
