import Mathlib.Data.List.AList
import Mathlib.Data.List.Induction
import MscsUnitTests.Ci.Report

/-! # Repository Checks: Declared STATUS Against a Run

    `check_declared_status_matches_run` of `check_repo_invariants.py`: the map of
    declared statuses is compared with the testcases of a ctest JUnit file. The
    file is given parsed, as the tree `ElementTree` makes of it.
-/

namespace RepoChecks

/-! ## Section 1: The tree -/

/-- `xml.etree.ElementTree.Element`, without its text. -/
inductive Elem where
  | node (tag : Text) (attrs : List (Text × Text)) (children : List Elem)

def Elem.tag : Elem → Text
  | .node tag _ _ => tag

def Elem.children : Elem → List Elem
  | .node _ _ children => children

/-- `get`. -/
def Elem.get (key : Text) : Elem → Option Text
  | .node _ attrs _ => (attrs.find? fun kv => kv.1 == key).map Prod.snd

/-- `find(tag) is not None`. -/
def Elem.hasChild (tag : Text) (e : Elem) : Bool :=
  e.children.any fun c => c.tag == tag

mutual

/-- `iter`: the element and all below it, in document order. -/
def Elem.iter (tag : Text) : Elem → List Elem
  | .node t attrs children =>
    if t = tag then .node t attrs children :: iterAll tag children else iterAll tag children

/-- The same of a list of elements. -/
def iterAll (tag : Text) : List Elem → List Elem
  | [] => []
  | e :: rest => e.iter tag ++ iterAll tag rest

end

/-! ## Section 2: The check -/

/-- What a banner can declare, and what the check reads off a testcase. -/
inductive Status where
  | passes | expectedFail
  deriving DecidableEq

/-- The name of a testcase; an empty one is as good as none. -/
def testName (tc : Elem) : Option Text :=
  match tc.get (text "name") with
  | none => none
  | some name => if name = [] then none else some name

/-- A testcase that visibly failed (`bad`). -/
def bad (tc : Elem) : Bool :=
  tc.hasChild (text "failure") || tc.hasChild (text "error") ||
    [some (text "fail"), some (text "failed"), some (text "error")].contains
      (tc.get (text "status"))

/-- What is recorded for a testcase: anything that did not fail has passed. -/
def verdict (tc : Elem) : Status :=
  if bad tc then .expectedFail else .passes

/-- One pass of the loop that fills `actual`. -/
def record (actual : AList fun _ : Text => Status) (tc : Elem) : AList fun _ : Text => Status :=
  match testName tc with
  | none => actual
  | some name => actual.insert name (verdict tc)

/-- `actual`: the verdict of each name. -/
def actualOf (root : Elem) : AList fun _ : Text => Status :=
  (root.iter (text "testcase")).foldl record ∅

/-- The failures the check can report. -/
inductive StatusFailure where
  | unreadable
  | noTestcase
  | runPassed (name : Text)
  | runFailed (name : Text)
  deriving DecidableEq

/-- What the check has found: the declarations that were counted as matched, the
    names absent from the run, and the failures. -/
structure Judged where
  matched : List (Text × Status)
  unseen : List Text
  failures : List StatusFailure

/-- One pass of the comparison. -/
def judge (actual : AList fun _ : Text => Status) (acc : Judged) (item : Text × Status) : Judged :=
  match actual.lookup item.1 with
  | none => { acc with unseen := acc.unseen ++ [item.1] }
  | some got =>
    if got = item.2 then { acc with matched := acc.matched ++ [item] }
    else
      match item.2 with
      | .expectedFail => { acc with failures := acc.failures ++ [.runPassed item.1] }
      | .passes => { acc with failures := acc.failures ++ [.runFailed item.1] }

/-- `check_declared_status_matches_run`: `none` is a file that cannot be parsed. -/
def checkDeclaredStatusMatchesRun (declared : List (Text × Status)) : Option Elem → Judged
  | none => ⟨[], [], [.unreadable]⟩
  | some root =>
    let actual := actualOf root
    if actual.entries.isEmpty then ⟨[], [], [.noTestcase]⟩
    else (declared.insertionSort fun a b => a.1 ≤ b.1).foldl (judge actual) ⟨[], [], []⟩

/-- The texts of `fail`; `exc` is what `ElementTree` says of an unreadable file. -/
def StatusFailure.message (junitPath exc : Text) : StatusFailure → Text
  | .unreadable =>
    text "cannot read ctest JUnit XML " ++ junitPath ++ text ": " ++ exc
  | .noTestcase => junitPath ++ text " contained no <testcase> elements"
  | .runPassed name =>
    name ++ text (" declares STATUS: EXPECTED-FAIL but the run PASSED. The finding was fixed -- " ++
      "update the banner to STATUS: PASSES and say what closed it, or the next reader will treat " ++
      "a closed hole as open.")
  | .runFailed name =>
    name ++ text (" declares STATUS: PASSES but the run FAILED. Either it is a regression, or " ++
      "the banner was optimistic; do not 'fix' it by relaxing the assertion.")

/-- The closing notes; without testcases the check has returned before them. -/
def statusNotes (junitBase : Text) (j : Judged) (r : Report) : Report :=
  let r :=
    if j.unseen = [] then r
    else r.note (decimal j.unseen.length ++ text " declared test(s) absent from this run (" ++
      commaJoin j.unseen ++ text ") -- platform-gated, or the run was filtered")
  r.note (decimal j.matched.length ++ text " declared STATUS(es) matched the ctest run in " ++
    junitBase)

/-- What the check leaves behind. -/
def Judged.report (junitPath junitBase exc : Text) (j : Judged) (r : Report) : Report :=
  let r := j.failures.foldl
    (fun r f => r.fail (text "status-run") (f.message junitPath exc)) r
  if .unreadable ∈ j.failures ∨ .noTestcase ∈ j.failures then r
  else statusNotes junitBase j r

/-- The errors are those of the failures, in order. -/
theorem errors_report (junitPath junitBase exc : Text) (j : Judged) (r : Report) :
    (j.report junitPath junitBase exc r).errors =
      r.errors ++ j.failures.map fun f =>
        text "[" ++ text "status-run" ++ text "] " ++ f.message junitPath exc := by
  have hfold := errors_foldl id
    (fun r f => r.fail (text "status-run") (StatusFailure.message junitPath exc f))
    (fun f => [text "[" ++ text "status-run" ++ text "] " ++ f.message junitPath exc])
    (fun _ _ => rfl) j.failures r
  rw [List.map_eq_flatMap]
  refine Eq.trans ?_ hfold
  unfold Judged.report statusNotes
  dsimp only
  split_ifs <;> rfl

/-! ## Section 3: What the check reads off the tree -/

/-- The testcases of a name, in document order. -/
def named (root : Elem) (name : Text) : List Elem :=
  (root.iter (text "testcase")).filter fun tc => testName tc == some name

theorem lookup_record (actual : AList fun _ : Text => Status) (tc : Elem) (name : Text) :
    (record actual tc).lookup name =
      if testName tc = some name then some (verdict tc) else actual.lookup name := by
  unfold record
  cases htc : testName tc with
  | none => simp
  | some n =>
    by_cases hn : n = name
    · subst hn
      simp
    · have hne : ¬ name = n := fun h => hn h.symm
      simp [AList.lookup_insert_ne hne, hn]

/-- The last testcase of a name decides. -/
theorem lookup_foldl_record (tcs : List Elem) (name : Text) :
    (tcs.foldl record ∅).lookup name =
      ((tcs.filter fun tc => testName tc == some name).getLast?).map verdict := by
  -- the map is overwritten, so the induction is on the last testcase
  induction tcs using List.reverseRecOn with
  | nil => rfl
  | append_singleton tcs tc ih =>
    rw [List.foldl_append, List.foldl_cons, List.foldl_nil, lookup_record, List.filter_append]
    by_cases htc : testName tc = some name
    · simp [htc]
    · simp [htc, ih]

theorem lookup_actualOf (root : Elem) (name : Text) :
    (actualOf root).lookup name = ((named root name).getLast?).map verdict :=
  lookup_foldl_record _ name

/-- One pass counts its own declaration as matched, when the recorded verdict is the
    declared one. -/
theorem mem_matched_judge (actual : AList fun _ : Text => Status) (item : Text × Status)
    (acc : Judged) (it : Text × Status) :
    item ∈ (judge actual acc it).matched ↔
      item ∈ acc.matched ∨ (item = it ∧ actual.lookup item.1 = some item.2) := by
  unfold judge
  cases hlook : actual.lookup it.1 with
  | none =>
    have hno : ¬ (item = it ∧ actual.lookup item.1 = some item.2) := by
      rintro ⟨rfl, h⟩
      rw [hlook] at h
      cases h
    simp [hno]
  | some got =>
    by_cases hgot : got = it.2
    · simp only [hgot, if_true, List.mem_append, List.mem_singleton]
      refine or_congr_right ⟨fun h => ⟨h, ?_⟩, And.left⟩
      rw [h, hlook, hgot]
    · have hno : ¬ (item = it ∧ actual.lookup item.1 = some item.2) := by
        rintro ⟨rfl, h⟩
        rw [hlook] at h
        exact hgot (Option.some.inj h)
      simp only [hgot, if_false, hno, or_false]
      -- a mismatch is a failure, whichever way round it is
      cases it.2 <;> rfl

/-- One pass reports its own expected failure as passed, when that is the recorded
    verdict. -/
theorem mem_runPassed_judge (actual : AList fun _ : Text => Status) (name : Text)
    (acc : Judged) (it : Text × Status) :
    .runPassed name ∈ (judge actual acc it).failures ↔
      .runPassed name ∈ acc.failures ∨
        ((name, .expectedFail) = it ∧ actual.lookup name = some .passes) := by
  obtain ⟨n, want⟩ := it
  unfold judge
  dsimp only
  cases hlook : actual.lookup n with
  | none =>
    have hno : ¬ ((name, Status.expectedFail) = (n, want) ∧
        actual.lookup name = some .passes) := by
      rintro ⟨h, h'⟩
      rw [(Prod.mk.inj h).1, hlook] at h'
      cases h'
    simp only [hno, or_false]
  | some got =>
    by_cases hn : name = n
    · subst hn
      cases got <;> cases want <;> simp [hlook]
    · cases got <;> cases want <;> simp [hn]

/-! ## Section 4: A run that did not happen -/

/-- The test was executed, as ctest writes it. -/
def Executed (tc : Elem) : Prop :=
  tc.get (text "status") = some (text "run") ∨ tc.get (text "status") = some (text "fail")

instance (tc : Elem) : Decidable (Executed tc) :=
  inferInstanceAs (Decidable (_ ∨ _))

/-- Some testcase of the name was executed, and none of them failed. -/
def RanClean (root : Elem) (name : Text) : Prop :=
  (∃ tc ∈ named root name, Executed tc) ∧ ∀ tc ∈ named root name, bad tc = false

instance (root : Elem) (name : Text) : Decidable (RanClean root name) :=
  inferInstanceAs (Decidable (_ ∧ _))

/-- What is counted as matched and what is reported as passed has run clean. -/
structure NoFalsePass (root : Elem) (r : Judged) : Prop where
  matched : ∀ name, (name, .passes) ∈ r.matched → RanClean root name
  runPassed : ∀ name, .runPassed name ∈ r.failures → RanClean root name

/-- What the check makes of a tree, declaration by declaration. -/
theorem check_spec (declared : List (Text × Status)) (root : Elem) (name : Text) :
    ((name, .passes) ∈ (checkDeclaredStatusMatchesRun declared (some root)).matched ↔
      (name, .passes) ∈ declared ∧ (actualOf root).lookup name = some .passes) ∧
    (.runPassed name ∈ (checkDeclaredStatusMatchesRun declared (some root)).failures ↔
      (name, .expectedFail) ∈ declared ∧ (actualOf root).lookup name = some .passes) := by
  unfold checkDeclaredStatusMatchesRun
  dsimp only
  split
  · next hempty =>
    -- no name is recorded, so none is recorded as passed
    have hnone : (actualOf root).lookup name = none := by
      unfold AList.lookup
      rw [List.isEmpty_iff.mp hempty]
      rfl
    simp [hnone]
  · constructor
    · rw [mem_foldl Judged.matched _ _ _ (mem_matched_judge _ _)]
      simp [List.mem_insertionSort]
    · rw [mem_foldl Judged.failures _ _ _ (mem_runPassed_judge _ _)]
      simp [List.mem_insertionSort]

/-- **When the check reads no non-run as a pass**: for each declared name, the last
    testcase failed, or one of them was executed and none failed. -/
theorem no_false_pass_iff (declared : List (Text × Status)) (root : Elem) :
    NoFalsePass root (checkDeclaredStatusMatchesRun declared (some root)) ↔
      ∀ item ∈ declared, ∀ tc, (named root item.1).getLast? = some tc →
        bad tc = true ∨ RanClean root item.1 := by
  -- a name is recorded as passed when its last testcase is not bad
  have hpassed : ∀ name, (actualOf root).lookup name = some .passes ↔
      ∃ tc, (named root name).getLast? = some tc ∧ bad tc = false := by
    intro name
    rw [lookup_actualOf, Option.map_eq_some_iff]
    refine exists_congr fun tc => and_congr_right fun _ => ?_
    unfold verdict
    cases bad tc <;> simp
  constructor
  · intro h item hitem tc hlast
    -- a testcase that did not visibly fail is recorded, and counted, as passed
    cases hbad : bad tc with
    | true => exact Or.inl rfl
    | false =>
      have hlook := (hpassed item.1).mpr ⟨tc, hlast, hbad⟩
      obtain ⟨name, want⟩ := item
      right
      cases want with
      | passes => exact h.matched name ((check_spec declared root name).1.mpr ⟨hitem, hlook⟩)
      | expectedFail =>
        exact h.runPassed name ((check_spec declared root name).2.mpr ⟨hitem, hlook⟩)
  · intro h
    have hclean : ∀ name want, (name, want) ∈ declared →
        (actualOf root).lookup name = some .passes → RanClean root name := by
      intro name want hitem hlook
      obtain ⟨tc, hlast, hbad⟩ := (hpassed name).mp hlook
      rcases h _ hitem tc hlast with h | h
      · rw [hbad] at h
        cases h
      · exact h
    constructor
    · intro name hmem
      obtain ⟨hitem, hlook⟩ := (check_spec declared root name).1.mp hmem
      exact hclean name _ hitem hlook
    · intro name hmem
      obtain ⟨hitem, hlook⟩ := (check_spec declared root name).2.mp hmem
      exact hclean name _ hitem hlook

/-- What ctest writes for a test that did not execute. -/
def notRunCase (name : Text) : Elem :=
  .node (text "testcase") [(text "name", name), (text "status", text "notrun")]
    [.node (text "skipped") [] []]

/-- **A test that did not run is counted as matched.** -/
theorem notrun_reads_as_pass :
    ¬ ∀ (declared : List (Text × Status)) (root : Elem),
      NoFalsePass root (checkDeclaredStatusMatchesRun declared (some root)) := by
  intro hclaim
  let root : Elem := .node (text "testsuite") [] [notRunCase (text "p2p_authgate")]
  have h := hclaim [(text "p2p_authgate", .passes)] root
  have hmatched : (text "p2p_authgate", .passes) ∈
      (checkDeclaredStatusMatchesRun [(text "p2p_authgate", .passes)] (some root)).matched := by
    decide
  have hclean : ¬ RanClean root (text "p2p_authgate") := by decide
  exact hclean (h.matched _ hmatched)

end RepoChecks
