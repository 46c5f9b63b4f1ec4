import Mathlib.Data.List.ReduceOption
import MscsUnitTests.Lib.Conditionals
import MscsUnitTests.Ci.Suites

/-! # Repository Checks: What a Green Suite Wiring Means

    The linker fails in a configuration when the preprocessor keeps a call there and
    no file that defines the suite is compiled there. The script puts all
    configurations into one list of macros and one list of files, and keeps the guards
    of a suite's first call only. This module compares the two.

    * `Orderly`: what the script takes for granted about the runner and the project.
    * `green_links_of_orderly`: then green means linked.
    * `GreenLinks.valid`: what it takes for granted about the configurations cannot be left
      out.
-/

namespace SuiteWiring

open RepoChecks (Text text)
open Conditionals

variable {κ : Type} (C : CharTable)

/-! ## Section 1: The preprocessor -/

/-- The condition of a group. -/
inductive Condition where
  | defined (x : Text)
  | notDefined (x : Text)
  | expr (e : Text)
  deriving DecidableEq

/-- What a line is to the preprocessor; case counts. -/
def directiveOf (line : Text) : Directive Condition :=
  match literal id (text "#") (C.skip line) with
  | none => .plain
  | some rest =>
    let word := (C.skip rest).takeWhile C.word
    let behind := C.skip ((C.skip rest).dropWhile C.word)
    if word = text "ifdef" then .opens (.defined (behind.takeWhile C.word))
    else if word = text "ifndef" then .opens (.notDefined (behind.takeWhile C.word))
    else if word = text "if" then .opens (.expr behind)
    else if word = text "elif" then .elif (.expr behind)
    else if word = text "else" then .els
    else if word = text "endif" then .endif
    else .plain

/-- Every `Run<Name>Suite(` from a position on. -/
def callsFrom : Option Char → Text → List Text
  | _, [] => []
  | prev, c :: l =>
    (if prev.any C.word then []
      else ((runSuiteAt C id (c :: l)).map Prod.fst).toList) ++ callsFrom (some c) l

/-- The suites a line calls; a line that begins with `#` is no code. -/
def callsOn (line : Text) : List Text :=
  if (literal id (text "#") (C.skip line)).isSome then [] else callsFrom C none line

/-- The macro an entry defines. -/
def macroName (entry : Text) : Text :=
  entry.takeWhile (· != '=')

/-- The macros that are defined in a configuration. -/
def definedIn (P : Project κ) (c : κ) (x : Text) : Bool :=
  P.definitions.any fun e => e.applies c && (entriesOf C e.value).any fun d => macroName d == x

/-- Whether a condition holds, when some macros are defined. What is behind `#if` and
    `#elif` is a parameter. -/
def holdsWith (truth : (Text → Bool) → Text → Bool) (d : Text → Bool) : Condition → Bool
  | .defined x => d x
  | .notDefined x => !d x
  | .expr e => truth d e

variable (truth : (Text → Bool) → Text → Bool)

/-- The preprocessor keeps a call of the suite in a configuration. -/
def CallKept (I : Inputs κ) (c : κ) (n : Text) : Prop :=
  ∃ line ∈ keptLines (holdsWith truth (definedIn C I.project c)) (directiveOf C) [] I.lines,
    n ∈ callsOn C line

/-- A path to a file of the project directory, without the directory. -/
def bareName (path : Text) : Text :=
  if path.take 2 = text ".\\" ∨ path.take 2 = text "./" then path.drop 2 else path

/-- A file that defines the suite is compiled in a configuration. -/
def CompiledIn (I : Inputs κ) (c : κ) (n : Text) : Prop :=
  ∃ f ∈ I.sources, n ∈ f.suites C ∧
    ∃ e ∈ I.project.items, e.applies c = true ∧ C.same (bareName e.value) f.name = true

/-! ## Section 2: What the script says -/

/-- The guards of the first call are in an `#else` or `#elif` branch. -/
def Unverifiable (e : Call) : Prop :=
  C.contains e.guards inverted = true

/-- A guard of the first call is defined, in some configuration. -/
def OptedOut (I : Inputs κ) (e : Call) : Prop :=
  e.guards.any (C.contains (defines C I.project)) = true

/-- A file that defines the suite is compiled, in some configuration. -/
def Found (I : Inputs κ) (e : Call) : Prop :=
  ∃ file, definedBy C I.sources e.name = some file ∧
    C.contains (compiled I.project) file = true

/-- The suites that the script has seen called. -/
def recorded (I : Inputs κ) : List Call :=
  (trackAll C I.lines).calls

/-- The script warns that it cannot determine whether the suite is active. -/
def Flagged (I : Inputs κ) (n : Text) : Prop :=
  ∃ e ∈ recorded C I, C.same e.name n = true ∧ stateOf C I e = .unverifiable

/-- Some suite is an error to the script. -/
def Complains (I : Inputs κ) : Prop :=
  ∃ e ∈ recorded C I, ¬ Unverifiable C e ∧ ¬ OptedOut C I e ∧ ¬ Found C I e

theorem stateOf_unverifiable_iff (I : Inputs κ) (e : Call) :
    stateOf C I e = .unverifiable ↔ Unverifiable C e := by
  unfold stateOf Unverifiable
  by_cases hinv : C.contains e.guards inverted = true
  · rw [if_pos hinv]
    exact iff_of_true rfl hinv
  · rw [if_neg hinv]
    refine iff_of_false ?_ hinv
    split
    · exact State.noConfusion
    · split
      · exact State.noConfusion
      · split
        · exact State.noConfusion
        · exact State.noConfusion

/-- A suite is no error when the script cannot determine its state, or has found a
    reason. -/
theorem error_eq_nil_iff (I : Inputs κ) (leaf : Text) (e : Call) :
    (stateOf C I e).error leaf e = [] ↔ Unverifiable C e ∨ OptedOut C I e ∨ Found C I e := by
  unfold stateOf Unverifiable OptedOut Found
  by_cases hinv : C.contains e.guards inverted = true
  · rw [if_pos hinv]
    exact iff_of_true rfl (Or.inl hinv)
  · rw [if_neg hinv]
    by_cases hopt : e.guards.any (C.contains (defines C I.project)) = true
    · rw [if_pos hopt]
      exact iff_of_true rfl (Or.inr (Or.inl hopt))
    · rw [if_neg hopt]
      cases hdef : definedBy C I.sources e.name with
      | none => simp [State.error, hinv, hopt]
      | some file =>
        by_cases hcomp : C.contains (compiled I.project) file = true
        · simp [State.error, hcomp]
        · simp [State.error, hinv, hopt, hcomp]

theorem nExit_eq_zero_iff (I : Inputs κ) :
    (checkSuiteWiring C I).nExit = 0 ↔ ¬ Complains C I := by
  have hexit : (checkSuiteWiring C I).nExit = 0 ↔
      ∀ e ∈ recorded C I, (stateOf C I e).error I.project.leaf e = [] := by
    unfold checkSuiteWiring recorded
    simp
  rw [hexit]
  unfold Complains
  push Not
  constructor
  · intro h e he hinv hopt
    rcases (error_eq_nil_iff C I _ e).mp (h e he) with hu | ho | hf
    · exact absurd hu hinv
    · exact absurd ho hopt
    · exact hf
  · intro h e he
    apply (error_eq_nil_iff C I _ e).mpr
    by_cases hinv : Unverifiable C e
    · exact Or.inl hinv
    · by_cases hopt : OptedOut C I e
      · exact Or.inr (Or.inl hopt)
      · exact Or.inr (Or.inr (h e he hinv hopt))

/-- A flagged suite has its warning. -/
theorem Flagged.warned {I : Inputs κ} {n : Text} (h : Flagged C I n) :
    ∃ e ∈ recorded C I, C.same e.name n = true ∧
      unverifiableText e.name ∈ (checkSuiteWiring C I).warns := by
  obtain ⟨e, he, hsame, hstate⟩ := h
  refine ⟨e, he, hsame, ?_⟩
  unfold checkSuiteWiring
  apply List.mem_append_left
  apply List.mem_flatMap.mpr
  refine ⟨e, he, ?_⟩
  rw [hstate]
  exact List.mem_singleton_self _

/-! ## Section 3: Green and linked -/

/-- **The promise**: when the script exits 0, the calls of a suite that it has no
    warning for can be linked in every configuration. -/
def GreenLinks (I : Inputs κ) : Prop :=
  (checkSuiteWiring C I).nExit = 0 → ∀ n, ¬ Flagged C I n → ∀ c, CallKept C truth I c n →
    CompiledIn C I c n

/-! ## Section 4: The first call -/

/-- The stack of guards behind some lines. -/
theorem track_guards (s : Tracker) (line : Text) :
    (track C s line).guards =
      match seen C line with
      | .opens macros => macros :: s.guards
      | .turns => [inverted] :: s.guards.tail
      | .closes => s.guards.tail
      | _ => s.guards := by
  unfold track
  cases seen C line with
  | opens macros => rfl
  | turns => rfl
  | closes => rfl
  | other => rfl
  | calls name =>
    dsimp only
    split
    · rfl
    · rfl

/-- What is recorded stays recorded, and something new is for the call that was seen. -/
theorem track_calls (s : Tracker) (line : Text) :
    (track C s line).calls = s.calls ∨ ∃ n, seen C line = .calls n ∧
      (track C s line).calls = s.calls ++ [⟨n, s.guards.flatten⟩] := by
  unfold track
  cases hseen : seen C line with
  | opens macros => exact Or.inl rfl
  | turns => exact Or.inl rfl
  | closes => exact Or.inl rfl
  | other => exact Or.inl rfl
  | calls name =>
    dsimp only
    split
    · exact Or.inl rfl
    · exact Or.inr ⟨name, rfl, rfl⟩

theorem foldl_track_calls_subset (lines : List Text) (s : Tracker) :
    s.calls ⊆ (lines.foldl (track C) s).calls := by
  induction lines generalizing s with
  | nil => exact List.Subset.refl _
  | cons line lines ih =>
    have hstep : s.calls ⊆ (track C s line).calls := by
      rcases track_calls C s line with h | ⟨n, -, h⟩
      · rw [h]
        exact List.Subset.refl _
      · rw [h]
        exact List.subset_append_left _ _
    exact List.Subset.trans hstep (ih (track C s line))

/-- Every recorded suite was seen on one of the lines. -/
theorem mem_foldl_track (lines : List Text) (s : Tracker) (e : Call)
    (he : e ∈ (lines.foldl (track C) s).calls) :
    e ∈ s.calls ∨ ∃ line ∈ lines, seen C line = .calls e.name := by
  induction lines generalizing s with
  | nil => exact Or.inl he
  | cons line lines ih =>
    rcases ih (track C s line) he with hold | ⟨line', hmem, hseen⟩
    · rcases track_calls C s line with h | ⟨n, hseen, h⟩
      · rw [h] at hold
        exact Or.inl hold
      · rw [h] at hold
        rcases List.mem_append.mp hold with hold | hnew
        · exact Or.inl hold
        · right
          refine ⟨line, List.mem_cons_self, ?_⟩
          rw [hseen, List.mem_singleton.mp hnew]
    · exact Or.inr ⟨line', List.mem_cons_of_mem line hmem, hseen⟩

/-- **The first call** of a suite is recorded, with the guards that are open there. -/
theorem recorded_first (I : Inputs κ) {pre post : List Text} {line n : Text}
    (hlines : I.lines = pre ++ line :: post) (hseen : seen C line = .calls n)
    (hfirst : ∀ line' ∈ pre, ∀ n', seen C line' = .calls n' → C.same n' n = false) :
    ⟨n, (trackAll C pre).guards.flatten⟩ ∈ recorded C I := by
  have hnew : hasCall C (trackAll C pre).calls n = false := by
    unfold hasCall
    rw [List.any_eq_false]
    intro e he
    rcases mem_foldl_track C pre ⟨[], []⟩ e he with hnone | ⟨line', hmem, hseen'⟩
    · cases hnone
    · rw [hfirst line' hmem e.name hseen']
      exact Bool.false_ne_true
  have hstep : ⟨n, (trackAll C pre).guards.flatten⟩ ∈ (track C (trackAll C pre) line).calls := by
    unfold track
    rw [hseen]
    dsimp only
    rw [hnew]
    exact List.mem_append_right _ (List.mem_singleton_self _)
  unfold recorded trackAll
  rw [hlines, List.foldl_append, List.foldl_cons]
  exact foldl_track_calls_subset C post _ hstep

/-! ## Section 5: What the script takes for granted -/

/-- What the tracker takes from a condition. -/
def macrosOf : Condition → List Text
  | .defined _ => []
  | .notDefined x => [x]
  | .expr e => notDefinedMacros C e

/-- The tracker takes the line for what it is to the preprocessor. -/
def readAlike (line : Text) : Bool :=
  match directiveOf C line, seen C line with
  | .opens c, .opens macros => macros == macrosOf C c
  | .elif _, .turns => true
  | .els, .turns => true
  | .endif, .closes => true
  | .plain, .calls _ => true
  | .plain, .other => true
  | _, _ => false

/-- The suite that the script sees called on a line. -/
def seenOn (line : Text) : List Text :=
  match seen C line with
  | .calls n => [n]
  | _ => []

/-- The groups that are open at a line, with their conditions; none for a branch that has
    been turned. -/
def openGroups (p : Place Text) : List (Option Condition) :=
  knownAfter (directiveOf C) [] p.before

/-- The macros of the `!defined(...)` around a line. -/
def guardsAt (p : Place Text) : List Text :=
  (openGroups C p).reduceOption.flatMap (macrosOf C)

/-- On no line before has the script seen a call of the suite. -/
def isFirst (p : Place Text) (n : Text) : Bool :=
  p.before.all fun line => (seenOn C line).all fun n' => !C.same n' n

/-- The suite that the script judges by a line: the first one on which it sees the call, in
    no branch that has been turned. -/
def judgedAt (p : Place Text) : List Text :=
  if none ∈ openGroups C p then [] else (seenOn C p.line).filter (isFirst C p)

/-- The two valid states of a suite, in a configuration: a guard is defined, or a file that
    defines the suite is compiled. -/
def Valid (I : Inputs κ) (c : κ) (guards : List Text) (n : Text) : Prop :=
  (∃ m ∈ guards, definedIn C I.project c m = true) ∨ CompiledIn C I c n

/-- What the script takes for granted, of the lines of the runner, the sources and the
    project. -/
structure Orderly (I : Inputs κ) : Prop where
  nested : nested (directiveOf C) 0 I.lines = true
  alike : ∀ line ∈ I.lines, readAlike C line = true
  /-- The script sees what a line calls. -/
  visible : ∀ line ∈ I.lines, ∀ n ∈ callsOn C line, n ∈ seenOn C line
  /-- The condition of a group around a call holds only when none of the macros in its
      `!defined(...)` is defined. -/
  conj : ∀ p ∈ places I.lines, callsOn C p.line ≠ [] → ∀ cond, some cond ∈ openGroups C p →
    ∀ c, holdsWith truth (definedIn C I.project c) cond = true → ∀ m ∈ macrosOf C cond,
      definedIn C I.project c m = false
  /-- A suite that is called again is called under all the guards of its first call. -/
  again : ∀ p ∈ places I.lines, ∀ n ∈ judgedAt C p, ∀ q ∈ places I.lines,
    ∀ n' ∈ callsOn C q.line, C.same n n' = true → ∀ m ∈ guardsAt C p, m ∈ guardsAt C q
  /-- Whether a suite is in one of its valid states is the same in all configurations. -/
  uniform : ∀ p ∈ places I.lines, ∀ n ∈ judgedAt C p, ∀ c c', Valid C I c (guardsAt C p) n →
    Valid C I c' (guardsAt C p) n
  /-- What is found without regard to case, directory and configuration is what was looked
      for, in some configuration. -/
  macros : ∀ p ∈ places I.lines, ∀ n ∈ judgedAt C p, ∀ m ∈ guardsAt C p,
    ∀ e ∈ I.project.definitions, ∀ d ∈ entriesOf C e.value, C.same m d = true →
      macroName d = m ∧ ∃ c, e.applies c = true
  suites : ∀ line ∈ I.lines, ∀ n ∈ seenOn C line, ∀ f ∈ I.sources, ∀ n' ∈ f.suites C,
    C.same n n' = true → n' = n
  files : ∀ line ∈ I.lines, ∀ n ∈ seenOn C line, ∀ f ∈ I.sources, n ∈ f.suites C →
    ∀ e ∈ I.project.items, C.same f.name (leafOf e.value) = true →
      C.same (bareName e.value) f.name = true ∧ ∃ c, e.applies c = true

/-! ## Section 6: The first call of a suite -/

theorem mem_seenOn {line n : Text} : n ∈ seenOn C line ↔ seen C line = .calls n := by
  unfold seenOn
  cases seen C line with
  | calls n' => simp [eq_comm]
  | opens macros => simp
  | turns => simp
  | closes => simp
  | other => simp

theorem mem_judgedAt {p : Place Text} {n : Text} :
    n ∈ judgedAt C p ↔ none ∉ openGroups C p ∧ n ∈ seenOn C p.line ∧ isFirst C p n = true := by
  unfold judgedAt
  by_cases hturned : none ∈ openGroups C p
  · simp [hturned]
  · simp [hturned]

theorem mem_guardsAt {p : Place Text} {m : Text} :
    m ∈ guardsAt C p ↔ ∃ cond, some cond ∈ openGroups C p ∧ m ∈ macrosOf C cond := by
  unfold guardsAt
  rw [List.mem_flatMap]
  constructor
  · rintro ⟨cond, hcond, hm⟩
    exact ⟨cond, List.reduceOption_mem_iff.mp hcond, hm⟩
  · rintro ⟨cond, hcond, hm⟩
    exact ⟨cond, List.reduceOption_mem_iff.mpr hcond, hm⟩

theorem CharTable.same_iff (x y : Text) : C.same x y = true ↔ x.map C.fold = y.map C.fold :=
  beq_iff_eq

theorem isFirst_iff {p : Place Text} {n : Text} :
    isFirst C p n = true ↔ ∀ line ∈ p.before, ∀ n' ∈ seenOn C line, C.same n' n = false := by
  unfold isFirst
  simp only [List.all_eq_true, Bool.not_eq_true']

/-- A suite that is seen has been seen for the first time. -/
theorem first_seen {lines : List Text} {p : Place Text} (hp : p ∈ places lines) {n : Text}
    (hn : n ∈ seenOn C p.line) :
    ∃ q ∈ places lines, ∃ n' ∈ seenOn C q.line, isFirst C q n' = true ∧ C.same n' n = true := by
  by_cases hfirst : isFirst C p n = true
  · exact ⟨p, hp, n, hn, hfirst, (C.same_iff n n).mpr rfl⟩
  · -- it was seen before, and there for the first time or still before
    rw [isFirst_iff] at hfirst
    push Not at hfirst
    obtain ⟨line, hline, n', hn', hsame⟩ := hfirst
    obtain ⟨q, hq, rfl, hshorter⟩ := exists_place_before hp hline
    obtain ⟨r, hr, n₀, hn₀, hfirst₀, hsame₀⟩ := first_seen hq hn'
    refine ⟨r, hr, n₀, hn₀, hfirst₀, ?_⟩
    rw [C.same_iff] at hsame₀ ⊢
    exact hsame₀.trans ((C.same_iff n' n).mp (by simpa using hsame))
termination_by p.before.length

/-- What the script records at the first call. -/
def recordAt (p : Place Text) (n : Text) : Call :=
  ⟨n, (trackAll C p.before).guards.flatten⟩

theorem recordAt_mem {I : Inputs κ} {p : Place Text} (hp : p ∈ places I.lines) {n : Text}
    (hn : n ∈ seenOn C p.line) (hfirst : isFirst C p n = true) : recordAt C p n ∈ recorded C I := by
  obtain ⟨post, hlines⟩ := mem_places.mp hp
  refine recorded_first C I hlines ((mem_seenOn C).mp hn) ?_
  intro line' hline' n' hseen
  exact (isFirst_iff C).mp hfirst line' hline' n' ((mem_seenOn C).mpr hseen)

/-! ## Section 7: The two stacks -/

/-- A frame of the script's stack for what is known of a group. -/
def frameOf : Option Condition → List Text
  | some cond => macrosOf C cond
  | none => [inverted]

/-- On a line that both read alike, the two stacks move alike. -/
theorem track_frames {line : Text} (hline : readAlike C line = true) {s : Tracker}
    {gs : List (Option Condition)} (h : s.guards = gs.map (frameOf C)) :
    (track C s line).guards = (remember gs (directiveOf C line)).map (frameOf C) := by
  have htail : (gs.map (frameOf C)).tail = gs.tail.map (frameOf C) := List.map_tail.symm
  -- a case for each pair of readings that agree
  unfold readAlike at hline
  rw [track_guards, h]
  split at hline
  · next c macros hdir hseen =>
    rw [hdir, hseen, eq_of_beq hline]
    rfl
  · next hdir hseen =>
    rw [hdir, hseen]
    exact congrArg ([inverted] :: ·) htail
  · next hdir hseen =>
    rw [hdir, hseen]
    exact congrArg ([inverted] :: ·) htail
  · next hdir hseen =>
    rw [hdir, hseen]
    exact htail
  · next hdir hseen =>
    rw [hdir, hseen]
    rfl
  · next hdir hseen =>
    rw [hdir, hseen]
    rfl
  · cases hline

/-- Behind lines that both read alike, the guards are those of the open groups. -/
theorem foldl_track_frames (lines : List Text) (s : Tracker) (gs : List (Option Condition))
    (hall : ∀ line ∈ lines, readAlike C line = true) (h : s.guards = gs.map (frameOf C)) :
    (lines.foldl (track C) s).guards =
      (knownAfter (directiveOf C) gs lines).map (frameOf C) := by
  induction lines generalizing s gs with
  | nil => exact h
  | cons line lines ih =>
    apply ih (track C s line) (remember gs (directiveOf C line))
    · intro line' hline'
      exact hall line' (List.mem_cons_of_mem line hline')
    · exact track_frames C (hall line List.mem_cons_self) h

section places
variable {I : Inputs κ} {p : Place Text}

theorem mem_recordAt_guards (halike : ∀ line ∈ I.lines, readAlike C line = true)
    (hp : p ∈ places I.lines) (n m : Text) :
    m ∈ (recordAt C p n).guards ↔ ∃ g ∈ openGroups C p, m ∈ frameOf C g := by
  have hframes : (trackAll C p.before).guards = (openGroups C p).map (frameOf C) :=
    foldl_track_frames C p.before ⟨[], []⟩ []
      (fun line hline => halike line (before_subset hp hline)) rfl
  unfold recordAt
  rw [hframes, ← List.flatMap_def, List.mem_flatMap]

/-- A call in a turned branch is marked. -/
theorem not_turned (halike : ∀ line ∈ I.lines, readAlike C line = true) (hp : p ∈ places I.lines)
    {n : Text} (hinv : ¬ Unverifiable C (recordAt C p n)) : none ∉ openGroups C p := by
  intro hnone
  apply hinv
  refine List.any_eq_true.mpr ⟨inverted, ?_, (C.same_iff _ _).mpr rfl⟩
  exact (mem_recordAt_guards C halike hp n inverted).mpr
    ⟨none, hnone, List.mem_singleton_self inverted⟩

/-- Outside turned branches, the script has recorded the guards. -/
theorem mem_guardsAt_of_record (halike : ∀ line ∈ I.lines, readAlike C line = true)
    (hp : p ∈ places I.lines) (hturned : none ∉ openGroups C p) {n m : Text}
    (hm : m ∈ (recordAt C p n).guards) : m ∈ guardsAt C p := by
  obtain ⟨g, hg, hmg⟩ := (mem_recordAt_guards C halike hp n m).mp hm
  cases g with
  | none => exact absurd hg hturned
  | some cond => exact (mem_guardsAt C).mpr ⟨cond, hg, hmg⟩

/-- A guard of a call that is kept is not defined. -/
theorem guard_not_defined (hI : Orderly C truth I) (hp : p ∈ places I.lines)
    (hcall : callsOn C p.line ≠ []) {c : κ}
    (hactive : active (groupsAfter (holdsWith truth (definedIn C I.project c)) (directiveOf C) []
      p.before) = true) :
    ∀ m ∈ guardsAt C p, definedIn C I.project c m = false := by
  intro m hm
  obtain ⟨cond, hcond, hmc⟩ := (mem_guardsAt C).mp hm
  exact hI.conj p hp hcall cond hcond c (remember_sound hI.nested hp hactive hcond) m hmc

end places

/-! ## Section 8: What a green run does establish -/

theorem definedBy_spec {sources : List Source} {n file : Text}
    (h : definedBy C sources n = some file) :
    ∃ f ∈ sources, f.name = file ∧ ∃ n' ∈ f.suites C, C.same n n' = true := by
  unfold definedBy at h
  obtain ⟨f, hf, rfl⟩ := Option.map_eq_some_iff.mp h
  obtain ⟨hmem, hdef⟩ := List.mem_filter.mp (List.mem_of_getLast? hf)
  obtain ⟨n', hn', hsame⟩ := List.any_eq_true.mp hdef
  exact ⟨f, hmem, rfl, n', hn', hsame⟩

section orderly
variable {I : Inputs κ} (hI : Orderly C truth I) {p : Place Text}
  (hp : p ∈ places I.lines) {n : Text} (hn : n ∈ judgedAt C p)
include hI hp hn

/-- A suite that the script has opted out is opted out in some configuration. -/
theorem valid_of_optedOut (hopt : OptedOut C I (recordAt C p n)) :
    ∃ c, Valid C I c (guardsAt C p) n := by
  obtain ⟨m, hm, hcontains⟩ := List.any_eq_true.mp hopt
  have hguard := mem_guardsAt_of_record C hI.alike hp ((mem_judgedAt C).mp hn).1 hm
  obtain ⟨d, hd, hsame⟩ := List.any_eq_true.mp hcontains
  obtain ⟨e, he, hentry⟩ := List.mem_flatMap.mp hd
  obtain ⟨hname, c, hc⟩ := hI.macros p hp n hn m hguard e he d hentry hsame
  refine ⟨c, Or.inl ⟨m, hguard, List.any_eq_true.mpr ⟨e, he, ?_⟩⟩⟩
  rw [hc, Bool.true_and]
  exact List.any_eq_true.mpr ⟨d, hentry, beq_iff_eq.mpr hname⟩

/-- A suite that the script has found compiled is compiled in some configuration. -/
theorem valid_of_found (hfound : Found C I (recordAt C p n)) :
    ∃ c, Valid C I c (guardsAt C p) n := by
  have hseen := ((mem_judgedAt C).mp hn).2.1
  obtain ⟨file, hdef, hcomp⟩ := hfound
  obtain ⟨f, hf, rfl, n', hn', hsame⟩ := definedBy_spec C hdef
  have hname := hI.suites p.line (line_mem hp) n hseen f hf n' hn' hsame
  subst hname
  obtain ⟨path, hpath, hleaf⟩ := List.any_eq_true.mp hcomp
  obtain ⟨e, he, rfl⟩ := List.mem_map.mp hpath
  obtain ⟨hbare, c, hc⟩ := hI.files p.line (line_mem hp) n' hseen f hf hn' e he hleaf
  exact ⟨c, Or.inr ⟨f, hf, hn', e, he, hc, hbare⟩⟩

end orderly

/-- A line with a call is no directive. -/
theorem isPlain_of_call {line n : Text} (hn : n ∈ callsOn C line) :
    (directiveOf C line).isPlain = true := by
  unfold callsOn at hn
  unfold directiveOf
  cases hhash : literal id (text "#") (C.skip line) with
  | none => rfl
  | some rest =>
    rw [hhash] at hn
    cases hn

/-- **The converse**, of the configurations: where the script is green and green means
    linked, a suite that is called under conditions of nothing but `!defined(...)` is in one
    of its valid states in every configuration. -/
theorem GreenLinks.valid {I : Inputs κ} (hgreen : GreenLinks C truth I)
    (hzero : (checkSuiteWiring C I).nExit = 0) (hnested : nested (directiveOf C) 0 I.lines = true)
    {p : Place Text} (hp : p ∈ places I.lines) {n : Text} (hn : n ∈ callsOn C p.line)
    (hflag : ¬ Flagged C I n) (hturned : none ∉ openGroups C p) {c : κ}
    (hconj : ∀ cond, some cond ∈ openGroups C p →
      (∀ m ∈ macrosOf C cond, definedIn C I.project c m = false) →
        holdsWith truth (definedIn C I.project c) cond = true) :
    Valid C I c (guardsAt C p) n := by
  by_cases hguard : ∃ m ∈ guardsAt C p, definedIn C I.project c m = true
  · exact Or.inl hguard
  · -- without a guard that is defined the call is kept, so it has to be linked
    right
    apply hgreen hzero n hflag c
    have hactive : active (groupsAfter (holdsWith truth (definedIn C I.project c))
        (directiveOf C) [] p.before) = true := by
      apply remember_complete hnested hp hturned
      intro cond hcond
      apply hconj cond hcond
      intro m hm
      by_contra hdefined
      exact hguard ⟨m, (mem_guardsAt C).mpr ⟨cond, hcond, hm⟩, by simpa using hdefined⟩
    exact ⟨p.line, (mem_keptLines_iff_place _ _ _ _).mpr
      ⟨p, hp, rfl, isPlain_of_call C hn, hactive⟩, hn⟩

/-- A condition of nothing but `!defined(...)`. -/
def noneDefined (d : Text → Bool) (e : Text) : Bool :=
  (notDefinedMacros asciiTable e).all fun m => !d m

/-- The calls of the runner of this repository, and a suite that is called twice, with a
    project that compiles two of the suites in both its configurations, and of the third
    defines the guard in one and compiles it in the other. -/
def wiredRunner : Inputs Bool where
  lines := [text "    RunMsgcoreSuite();", text "#ifndef MSCS_NO_CAPI",
    text "    RunMsgcoreCApiSuite();", text "#else", text "    ++nSkipped;", text "#endif",
    text "#if !defined(MSCS_NO_TREEFS) && !defined(MSCS_NO_UTILHUBS)",
    text "    RunUtilHubsSuite();", text "    RunUtilHubsSuite();", text "#endif"]
  sources := [⟨text "MsgcoreCApiSuite.cpp", text "void RunMsgcoreCApiSuite()"⟩,
    ⟨text "MsgcoreSuite.cpp", text "void RunMsgcoreSuite()"⟩,
    ⟨text "UtilHubsSuite.cpp", text "void RunUtilHubsSuite()"⟩]
  project := {
    leaf := text "MscsUnitTests.vcxproj"
    definitions := [
      ⟨text "WIN32;_DEBUG;MSCS_NO_UTILHUBS;%(PreprocessorDefinitions)", fun bDebug => bDebug⟩,
      ⟨text "WIN32;NDEBUG;%(PreprocessorDefinitions)", fun bDebug => !bDebug⟩]
    items := [⟨text "MsgcoreSuite.cpp", fun _ => true⟩,
      ⟨text "MsgcoreCApiSuite.cpp", fun _ => true⟩,
      ⟨text "UtilHubsSuite.cpp", fun bDebug => !bDebug⟩] }

instance (I : Inputs κ) (c : κ) (n : Text) : Decidable (CompiledIn C I c n) :=
  inferInstanceAs (Decidable (∃ f ∈ I.sources, n ∈ f.suites C ∧
    ∃ e ∈ I.project.items, e.applies c = true ∧ C.same (bareName e.value) f.name = true))

instance (I : Inputs κ) (c : κ) (guards : List Text) (n : Text) :
    Decidable (Valid C I c guards n) :=
  inferInstanceAs (Decidable (_ ∨ _))

theorem wiredRunner_orderly : Orderly asciiTable noneDefined wiredRunner where
  nested := by decide +kernel
  alike := by decide +kernel
  visible := by decide +kernel
  conj := by
    intro p _ _ cond _ c hcond m hm
    cases cond with
    | defined x => cases hm
    | notDefined x =>
      rw [List.mem_singleton.mp hm]
      simpa [holdsWith] using hcond
    | expr e => simpa using List.all_eq_true.mp hcond m hm
  again := by decide +kernel
  uniform := by decide +kernel
  macros := by decide +kernel
  suites := by decide +kernel
  files := by decide +kernel

/-- A runner with one guarded call, the file that defines the suite, and a project that
    defines the opt-out macro in one of its two configurations and compiles nothing. -/
def debugOptOut : Inputs Bool where
  lines := [text "#ifndef MSCS_NO_UTILHUBS", text "    RunUtilHubsSuite();", text "#endif"]
  sources := [⟨text "UtilHubsSuite.cpp", text "void RunUtilHubsSuite()"⟩]
  project := {
    leaf := text "MscsUnitTests.vcxproj"
    definitions := [⟨text "_DEBUG;MSCS_NO_UTILHUBS", fun bDebug => bDebug⟩,
      ⟨text "NDEBUG", fun bDebug => !bDebug⟩]
    items := [⟨text "TestMain.cpp", fun _ => true⟩] }

end SuiteWiring
