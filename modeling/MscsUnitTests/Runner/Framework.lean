import Mathlib.Data.List.Count
import Mathlib.Data.List.DropRight

/-! # The Unit Test Runner: Cases, Checks and the Exit Code

    The bookkeeping of `TestFramework.cpp` and the macros of `TestFramework.h`. What a
    suite does to it is a sequence of events, well bracketed because a case is a scope.

    * `step`, `run`: the code, one event at a time.
    * `Script`: the well-bracketed sequences.
    * `accounts_iff`: when the counters and the exit code say what happened. The
      baseline of a case is a single global, so the beginning of an inner case makes
      the outer one forget what it has seen.
-/

namespace TestRunner

/-! ## Section 1: The counters -/

structure TestStats where
  checks : Nat
  failures : Nat
  cases : Nat
  caseFailures : Nat
  deriving DecidableEq

/-- `g_tf` and the baseline. -/
structure State where
  g_tf : TestStats
  s_caseFailureBaseline : Nat

/-- Before `main`. -/
def State.initial : State :=
  ⟨⟨0, 0, 0, 0⟩, 0⟩

/-- `tf_begin_case`. -/
def tfBeginCase (s : State) : State :=
  { g_tf := { s.g_tf with cases := s.g_tf.cases + 1 }
    s_caseFailureBaseline := s.g_tf.failures }

/-- `tf_end_case`. -/
def tfEndCase (s : State) : State :=
  if s.g_tf.failures > s.s_caseFailureBaseline then
    { s with g_tf := { s.g_tf with caseFailures := s.g_tf.caseFailures + 1 } }
  else s

/-- `tf_fail`. -/
def tfFail (s : State) : State :=
  { s with g_tf := { s.g_tf with failures := s.g_tf.failures + 1 } }

/-- `TF_CHECK`. -/
def tfCheck (cond : Bool) (s : State) : State :=
  let s' := { s with g_tf := { s.g_tf with checks := s.g_tf.checks + 1 } }
  if cond = false then tfFail s' else s'

/-- `TF_CHECK_EQ`, `equal` being what `==` says. -/
def tfCheckEq (equal : Bool) (s : State) : State :=
  tfCheck equal s

/-- `_CRT_WARN`, `_CRT_ERROR`, `_CRT_ASSERT`. -/
inductive ReportType where
  | warn | error | assert
  deriving DecidableEq

/-- `AssertReportHook`: whether the report is handled, and what it does. -/
def assertReportHook (nReportType : ReportType) (s : State) : Bool × State :=
  if nReportType = .assert then
    (true, { s with g_tf := { s.g_tf with failures := s.g_tf.failures + 1 } })
  else (false, s)

/-- `tf_runner_finish`: the exit code. -/
def tfRunnerFinish (nSkipped : Int) (s : State) : Int :=
  if s.g_tf.failures ≠ 0 then 1 else if nSkipped ≠ 0 then 2 else 0

/-! ## Section 2: Events -/

/-- What the runner is told. -/
inductive Event where
  | beginCase
  | endCase
  | check (cond : Bool)
  | checkEq (equal : Bool)
  | fail
  | report (nReportType : ReportType)
  deriving DecidableEq

def step (s : State) : Event → State
  | .beginCase => tfBeginCase s
  | .endCase => tfEndCase s
  | .check cond => tfCheck cond s
  | .checkEq equal => tfCheckEq equal s
  | .fail => tfFail s
  | .report nReportType => (assertReportHook nReportType s).2

def run (s : State) (es : List Event) : State :=
  es.foldl step s

/-- A check that does not hold. -/
def Event.failedCheck : Event → Bool
  | .check cond => !cond
  | .checkEq equal => !equal
  | _ => false

/-- An ASSERT that trips. -/
def Event.trip : Event → Bool
  | .report nReportType => nReportType = .assert
  | _ => false

/-- A failure is recorded. -/
def Event.records (e : Event) : Bool :=
  e.failedCheck || e = .fail || e.trip

/-- The events of a case behind the last beginning of a case within it. -/
def sinceBegin (es : List Event) : List Event :=
  es.rtakeWhile (· ≠ .beginCase)

/-! ## Section 3: What an event does -/

@[simp] theorem run_nil (s : State) : run s [] = s := rfl

@[simp] theorem run_cons (s : State) (e : Event) (es : List Event) :
    run s (e :: es) = run (step s e) es := rfl

theorem run_append (s : State) (es es' : List Event) : run s (es ++ es') = run (run s es) es' :=
  List.foldl_append

/-- The end of a case counts it as failed, and does nothing else. -/
theorem endCase_keeps (s : State) :
    (tfEndCase s).g_tf.failures = s.g_tf.failures ∧ (tfEndCase s).g_tf.cases = s.g_tf.cases ∧
      (tfEndCase s).s_caseFailureBaseline = s.s_caseFailureBaseline := by
  unfold tfEndCase
  split
  · exact ⟨rfl, rfl, rfl⟩
  · exact ⟨rfl, rfl, rfl⟩

/-- What an event does to all but the failed cases. -/
theorem step_effect (s : State) (e : Event) :
    (step s e).g_tf.failures = s.g_tf.failures + (if e.records then 1 else 0) ∧
    (step s e).g_tf.cases = s.g_tf.cases + (if e = .beginCase then 1 else 0) ∧
    (step s e).s_caseFailureBaseline =
      if e = .beginCase then s.g_tf.failures else s.s_caseFailureBaseline := by
  cases e with
  | beginCase => exact ⟨rfl, rfl, rfl⟩
  | endCase => exact endCase_keeps s
  | check cond => cases cond <;> exact ⟨rfl, rfl, rfl⟩
  | checkEq equal => cases equal <;> exact ⟨rfl, rfl, rfl⟩
  | fail => exact ⟨rfl, rfl, rfl⟩
  | report nReportType => cases nReportType <;> exact ⟨rfl, rfl, rfl⟩

/-- A failure is recorded by what is a failure. -/
theorem step_failures (s : State) (e : Event) :
    (step s e).g_tf.failures = s.g_tf.failures + if e.records then 1 else 0 :=
  (step_effect s e).1

/-- Only the beginning of a case is one more case. -/
theorem step_cases (s : State) (e : Event) :
    (step s e).g_tf.cases = s.g_tf.cases + if e = .beginCase then 1 else 0 :=
  (step_effect s e).2.1

/-- Only the beginning of a case moves the baseline. -/
theorem step_baseline (s : State) (e : Event) :
    (step s e).s_caseFailureBaseline =
      if e = .beginCase then s.g_tf.failures else s.s_caseFailureBaseline :=
  (step_effect s e).2.2

/-- Only the end of a case counts it as failed. -/
theorem step_caseFailures (s : State) {e : Event} (h : e ≠ .endCase) :
    (step s e).g_tf.caseFailures = s.g_tf.caseFailures := by
  cases e with
  | beginCase => rfl
  | endCase => exact absurd rfl h
  | check cond => cases cond <;> rfl
  | checkEq equal => cases equal <;> rfl
  | fail => rfl
  | report nReportType => cases nReportType <;> rfl

theorem run_failures (s : State) (es : List Event) :
    (run s es).g_tf.failures = s.g_tf.failures + es.countP Event.records := by
  induction es generalizing s with
  | nil => rfl
  | cons e es ih =>
    rw [run_cons, ih, step_failures, List.countP_cons]
    omega

theorem run_cases (s : State) (es : List Event) :
    (run s es).g_tf.cases = s.g_tf.cases + es.count .beginCase := by
  induction es generalizing s with
  | nil => rfl
  | cons e es ih =>
    rw [run_cons, ih, step_cases, List.count_cons]
    simp only [beq_iff_eq]
    omega

/-- **What is compared at the end of a case**: the failures since the last time a case
    began, this one or one within it. -/
theorem run_since_begin (s : State) (hs : s.g_tf.failures = s.s_caseFailureBaseline)
    (es : List Event) : (run s es).g_tf.failures =
      (run s es).s_caseFailureBaseline + (sinceBegin es).countP Event.records := by
  induction es using List.reverseRecOn with
  | nil => exact hs
  | append_singleton es e ih =>
    have hlast : run s (es ++ [e]) = step (run s es) e := by
      rw [run_append]
      rfl
    rw [hlast, step_failures, step_baseline]
    unfold sinceBegin at ih ⊢
    by_cases he : e = .beginCase
    · subst he
      rw [List.rtakeWhile_concat_neg _ _ _ (by decide)]
      rfl
    · rw [if_neg he, List.rtakeWhile_concat_pos _ _ _ (by simpa using he), List.countP_append,
        List.countP_singleton, ih]
      omega

/-! ## Section 4: Well-bracketed sequences -/

/-- The two ends of a case. -/
def Event.bracket : Event → Bool
  | .beginCase => true
  | .endCase => true
  | _ => false

/-- What a suite does: a case is a scope, and between its braces there may be checks,
    failures of other kinds and further cases. -/
inductive Script where
  | nil
  | event (e : Event) (he : e.bracket = false) (rest : Script)
  | scope (body rest : Script)

/-- `TfCaseGuard`: the constructor, the body and the destructor. -/
def Script.events : Script → List Event
  | .nil => []
  | .event e _ rest => e :: rest.events
  | .scope body rest => .beginCase :: (body.events ++ .endCase :: rest.events)

/-- A failure is recorded between two moments. -/
def Recorded (es : List Event) : Prop :=
  ∃ e ∈ es, e.records = true

instance (es : List Event) : Decidable (Recorded es) :=
  inferInstanceAs (Decidable (∃ e ∈ es, e.records = true))

theorem recorded_iff_countP (es : List Event) : Recorded es ↔ 0 < es.countP Event.records :=
  List.countP_pos_iff.symm

/-- How many cases there are of which the events meet a condition. -/
def Script.casesThat (p : List Event → Prop) [DecidablePred p] : Script → Nat
  | .nil => 0
  | .event _ _ rest => rest.casesThat p
  | .scope body rest =>
    (if p body.events then 1 else 0) + body.casesThat p + rest.casesThat p

/-- Every case meets a condition. -/
def Script.AllCases (p : List Event → Prop) : Script → Prop
  | .nil => True
  | .event _ _ rest => rest.AllCases p
  | .scope body rest => p body.events ∧ body.AllCases p ∧ rest.AllCases p

/-- A failure is still seen at the end of a case: one was recorded since the last
    beginning of a case. -/
def SeenAtEnd (es : List Event) : Prop :=
  Recorded (sinceBegin es)

instance (es : List Event) : Decidable (SeenAtEnd es) :=
  inferInstanceAs (Decidable (Recorded _))

/-- Nothing is seen that was not recorded. -/
theorem recorded_of_seenAtEnd {es : List Event} (h : SeenAtEnd es) : Recorded es := by
  obtain ⟨e, he, hrec⟩ := h
  exact ⟨e, (List.rtakeWhile_suffix _ _).subset he, hrec⟩

/-- The end of a case counts it when a failure is still seen. -/
theorem endCase_caseFailures (s : State) (es : List Event) :
    (tfEndCase (run (tfBeginCase s) es)).g_tf.caseFailures =
      (run (tfBeginCase s) es).g_tf.caseFailures + if SeenAtEnd es then 1 else 0 := by
  have hsince := run_since_begin (tfBeginCase s) rfl es
  unfold tfEndCase
  by_cases hseen : SeenAtEnd es
  · have hpos := (recorded_iff_countP _).mp hseen
    rw [if_pos hseen, if_pos (by omega)]
  · have hzero : (sinceBegin es).countP Event.records = 0 := by
      by_contra hne
      exact hseen ((recorded_iff_countP _).mpr (Nat.pos_of_ne_zero hne))
    rw [if_neg hseen, if_neg (by omega)]
    rfl

/-- **Run lemma**: a well-bracketed sequence raises `caseFailures` by the number of its
    cases that still see a failure at their end. -/
theorem run_caseFailures (t : Script) (s : State) :
    (run s t.events).g_tf.caseFailures = s.g_tf.caseFailures + t.casesThat SeenAtEnd := by
  induction t generalizing s with
  | nil => rfl
  | event e he rest ih =>
    have hend : e ≠ .endCase := by
      intro h
      subst h
      cases he
    rw [Script.events, run_cons, ih, step_caseFailures s hend]
    rfl
  | scope body rest ihbody ihrest =>
    rw [Script.events, run_cons, run_append, run_cons, ihrest]
    show (tfEndCase (run (tfBeginCase s) body.events)).g_tf.caseFailures + _ = _
    rw [endCase_caseFailures, ihbody]
    show s.g_tf.caseFailures + _ + _ + _ = s.g_tf.caseFailures + (_ + _ + _)
    omega

/-! ## Section 5: The accounting -/

theorem casesThat_le {p q : List Event → Prop} [DecidablePred p] [DecidablePred q]
    (h : ∀ es, p es → q es) (t : Script) : t.casesThat p ≤ t.casesThat q := by
  induction t with
  | nil => exact Nat.le_refl 0
  | event e he rest ih => exact ih
  | scope body rest ihbody ihrest =>
    have hone : (if p body.events then 1 else 0) ≤ if q body.events then 1 else 0 := by
      by_cases hp : p body.events
      · rw [if_pos hp, if_pos (h _ hp)]
      · rw [if_neg hp]
        exact Nat.zero_le _
    show (if p body.events then 1 else 0) + _ + _ ≤ (if q body.events then 1 else 0) + _ + _
    omega

/-- Two conditions, one of which implies the other, count the same cases just when they
    agree on every case. -/
theorem casesThat_eq_iff {p q : List Event → Prop} [DecidablePred p] [DecidablePred q]
    (h : ∀ es, p es → q es) (t : Script) :
    t.casesThat p = t.casesThat q ↔ t.AllCases fun es => q es → p es := by
  induction t with
  | nil => exact ⟨fun _ => trivial, fun _ => rfl⟩
  | event e he rest ih => exact ih
  | scope body rest ihbody ihrest =>
    have hbody := casesThat_le h body
    have hrest := casesThat_le h rest
    show (if p body.events then 1 else 0) + _ + _ = (if q body.events then 1 else 0) + _ + _ ↔
      (q body.events → p body.events) ∧ _ ∧ _
    rw [← ihbody, ← ihrest]
    by_cases hp : p body.events
    · have hq := h _ hp
      rw [if_pos hp, if_pos hq]
      constructor
      · intro heq
        exact ⟨fun _ => hp, by omega, by omega⟩
      · intro ⟨_, h₁, h₂⟩
        omega
    · by_cases hq : q body.events
      · rw [if_neg hp, if_pos hq]
        constructor
        · intro heq
          omega
        · intro ⟨hqp, _, _⟩
          exact absurd (hqp hq) hp
      · rw [if_neg hp, if_neg hq]
        constructor
        · intro heq
          exact ⟨fun hq' => absurd hq' hq, by omega, by omega⟩
        · intro ⟨_, h₁, h₂⟩
          omega

/-- Every case is one that is entered. -/
theorem casesThat_le_count (p : List Event → Prop) [DecidablePred p] (t : Script) :
    t.casesThat p ≤ t.events.count .beginCase := by
  induction t with
  | nil => exact Nat.le_refl 0
  | event e he rest ih => exact ih.trans (List.count_le_count_cons)
  | scope body rest ihbody ihrest =>
    show (if p body.events then 1 else 0) + body.casesThat p + rest.casesThat p ≤
      (Event.beginCase :: (body.events ++ Event.endCase :: rest.events)).count .beginCase
    rw [List.count_cons_self, List.count_append, List.count_cons_of_ne (by decide)]
    have hone : (if p body.events then 1 else 0) ≤ 1 := by
      split <;> omega
    omega

/-- The three kinds of failures. -/
theorem countP_records (es : List Event) : es.countP Event.records =
    es.countP Event.failedCheck + es.count .fail + es.countP Event.trip := by
  induction es with
  | nil => rfl
  | cons e es ih =>
    have hone : (if e.records = true then 1 else 0) = (if e.failedCheck = true then 1 else 0)
        + (if (e == .fail) = true then 1 else 0) + if e.trip = true then 1 else 0 := by
      cases e with
      | beginCase => rfl
      | endCase => rfl
      | check cond => cases cond <;> rfl
      | checkEq equal => cases equal <;> rfl
      | fail => rfl
      | report nReportType => cases nReportType <;> rfl
    rw [List.countP_cons, List.countP_cons, List.countP_cons, List.count_cons, ih, hone]
    omega

/-- What the summary and the exit code are to say of a sequence. -/
structure Accounts (t : Script) (nSkipped : Int) : Prop where
  /-- The cases during which a failure was recorded. -/
  caseFailures : (run .initial t.events).g_tf.caseFailures = t.casesThat Recorded
  le_cases : (run .initial t.events).g_tf.caseFailures ≤ (run .initial t.events).g_tf.cases
  /-- Failed checks, direct calls of `tf_fail`, and ASSERTs that tripped. -/
  failures : (run .initial t.events).g_tf.failures =
    t.events.countP Event.failedCheck + t.events.count .fail + t.events.countP Event.trip
  exit : tfRunnerFinish nSkipped (run .initial t.events) =
    if Recorded t.events then 1 else if nSkipped > 0 then 2 else 0

/-- **When the accounting is right**: every case that has seen a failure has seen one
    since the last case began within it, as any case has that has none within it; and
    the number of skipped suites is one. -/
theorem accounts_iff (t : Script) (nSkipped : Int) :
    Accounts t nSkipped ↔
      (t.AllCases fun es => Recorded es → SeenAtEnd es) ∧ (Recorded t.events ∨ 0 ≤ nSkipped) := by
  have hcase := run_caseFailures t .initial
  have hfail := run_failures .initial t.events
  have hcases := run_cases .initial t.events
  have hinit : State.initial.g_tf = ⟨0, 0, 0, 0⟩ := rfl
  rw [hinit, Nat.zero_add] at hcase hfail hcases
  have hseen : ∀ es, SeenAtEnd es → Recorded es := fun _ hend => recorded_of_seenAtEnd hend
  have hiff := casesThat_eq_iff hseen t
  have hexit : tfRunnerFinish nSkipped (run .initial t.events) =
      if Recorded t.events then 1 else if nSkipped ≠ 0 then 2 else 0 := by
    unfold tfRunnerFinish
    rw [hfail]
    by_cases hrec : Recorded t.events
    · have hpos := (recorded_iff_countP _).mp hrec
      rw [if_pos hrec, if_pos (by omega)]
    · have hzero : t.events.countP Event.records = 0 := by
        by_contra hne
        exact hrec ((recorded_iff_countP _).mpr (Nat.pos_of_ne_zero hne))
      rw [if_neg hrec, hzero, if_neg (by simp)]
  constructor
  · intro h
    refine ⟨hiff.mp (hcase.symm.trans h.caseFailures), ?_⟩
    by_cases hrec : Recorded t.events
    · exact Or.inl hrec
    · -- a negative number would be reported as a reduced run
      have hcode := hexit.symm.trans h.exit
      rw [if_neg hrec, if_neg hrec] at hcode
      by_contra hneg
      rw [if_pos (by omega), if_neg (by omega)] at hcode
      exact absurd hcode (by decide)
  · intro ⟨hall, hskip⟩
    refine ⟨hcase.trans (hiff.mpr hall), ?_, hfail.trans (countP_records _), ?_⟩
    · rw [hcase, hcases]
      exact casesThat_le_count SeenAtEnd t
    · rw [hexit]
      by_cases hrec : Recorded t.events
      · rw [if_pos hrec, if_pos hrec]
      · have hle : 0 ≤ nSkipped := hskip.resolve_left hrec
        rw [if_neg hrec, if_neg hrec]
        by_cases hzero : nSkipped = 0
        · rw [if_neg (by omega), if_neg (by omega)]
        · rw [if_pos hzero, if_pos (by omega)]

/-- A case that fails a check and then calls a helper with a case of its own. -/
def outerFails : Script :=
  .scope (.event (.check false) rfl (.scope (.event (.check true) rfl .nil) .nil)) .nil

/-- Its failure is forgotten. -/
theorem outer_failure_is_forgotten :
    (run .initial outerFails.events).g_tf = ⟨2, 1, 2, 0⟩ ∧ outerFails.casesThat Recorded = 1 ∧
      ¬ Accounts outerFails 0 := by
  refine ⟨by decide, by decide, fun h => ?_⟩
  exact absurd h.caseFailures (by decide)

end TestRunner
