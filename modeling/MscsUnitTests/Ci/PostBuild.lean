import MscsUnitTests.Lib.PyText
import MscsUnitTests.Ci.Report

/-! # Repository Checks: No POST_BUILD Step

    `check_no_post_build_copy` of `check_repo_invariants.py`: every `POST_BUILD` in
    `CMakeLists.txt` that is not in a comment line is a failure. The number of a line
    is found by counting line feeds, the line itself by `splitlines`, and the two do
    not always mean the same line.
-/

open PyText

namespace RepoChecks

/-! ## Section 1: The check -/

/-- The regular expression. -/
def postBuild : Text := text "POST_BUILD"

def postBuildText (lineNo : Nat) : Text :=
  text "CMakeLists.txt:" ++ decimal lineNo ++ text (" introduces a POST_BUILD step. If it " ++
    "copies a library beside the test exes it recreates the stale-DLL hazard; see the comment " ++
    "in that file.")

/-- `line.startswith("#")` of a line that has been stripped. -/
def isProse (line : Text) : Bool := (lstrip line).head? = some '#'

/-- One pass of the loop over the matches; `none` is an `IndexError`. -/
def checkPostBuild (cml : Text) (r : Report) (start : Nat) : Option Report := do
  let lineNo := lfBefore cml start + 1
  let line ← (splitlines cml)[lineNo - 1]?
  if isProse line then some r else some (r.fail (text "post-build") (postBuildText lineNo))

def checkNoPostBuildCopy (cml : Text) (r : Report) : Option Report := do
  let r ← (finditer postBuild cml).foldlM (checkPostBuild cml) r
  some (r.note (text "no POST_BUILD copy step (the stale-DLL hazard stays closed)"))

/-! ## Section 2: What the check reports -/

/-- The line the check looks at for a match. -/
def fetched (cml : Text) (start : Nat) : Text :=
  ((splitlines cml)[lfBefore cml start]?).getD []

/-- The error for a match. -/
def postBuildError (cml : Text) (start : Nat) : Text :=
  text "[" ++ text "post-build" ++ text "] " ++ postBuildText (lfBefore cml start + 1)

theorem finditer_postBuild (cml : Text) : finditer postBuild cml = occurrences postBuild cml :=
  finditer_eq (by decide) cml

/-- There is a line to look at for every match. -/
theorem checkPostBuild_eq {cml : Text} {start : Nat} (h : start ∈ occurrences postBuild cml)
    (r : Report) :
    checkPostBuild cml r start =
      some (if isProse (fetched cml start) then r
        else r.fail (text "post-build") (postBuildText (lfBefore cml start + 1))) := by
  have hlt := lfBefore_lt_splitlines (mem_occurrences.mp h).1
  unfold checkPostBuild fetched
  dsimp only
  rw [Nat.add_sub_cancel, List.getElem?_eq_getElem hlt]
  dsimp only [Option.bind_eq_bind, Option.bind_some, Option.getD_some]
  split <;> rfl

/-- The loop, by induction on the matches: it never fails, and the errors are those of
    the matches whose line is no prose. -/
theorem foldlM_checkPostBuild (cml : Text) (starts : List Nat)
    (h : ∀ start ∈ starts, start ∈ occurrences postBuild cml) (r : Report) :
    ∃ r', starts.foldlM (checkPostBuild cml) r = some r' ∧
      r'.errors = r.errors ++
        (starts.filter fun start => !isProse (fetched cml start)).map (postBuildError cml) := by
  induction starts generalizing r with
  | nil => exact ⟨r, rfl, (List.append_nil _).symm⟩
  | cons start starts ih =>
    have hrest : ∀ start ∈ starts, start ∈ occurrences postBuild cml := fun s hs =>
      h s (List.mem_cons_of_mem _ hs)
    rw [List.foldlM_cons, checkPostBuild_eq (h start List.mem_cons_self)]
    by_cases hprose : isProse (fetched cml start) = true
    · obtain ⟨r', hr', herrors⟩ := ih hrest r
      refine ⟨r', ?_, ?_⟩
      · rw [if_pos hprose]
        exact hr'
      · rw [herrors, List.filter_cons_of_neg (by simp [hprose])]
    · obtain ⟨r', hr', herrors⟩ := ih hrest
        (r.fail (text "post-build") (postBuildText (lfBefore cml start + 1)))
      refine ⟨r', ?_, ?_⟩
      · rw [if_neg hprose]
        exact hr'
      · rw [herrors, List.filter_cons_of_pos (by simpa using hprose), Report.errors_fail,
          List.append_assoc, List.map_cons]
        rfl

/-- **What is reported**: the check always returns, with one error for every
    `POST_BUILD` whose fetched line is no prose. -/
theorem checkNoPostBuildCopy_errors (cml : Text) (r : Report) :
    ∃ r', checkNoPostBuildCopy cml r = some r' ∧
      r'.errors = r.errors ++ ((occurrences postBuild cml).filter fun start =>
        !isProse (fetched cml start)).map (postBuildError cml) := by
  obtain ⟨r', hr', herrors⟩ := foldlM_checkPostBuild cml _ (fun _ h => h) r
  refine ⟨r'.note (text "no POST_BUILD copy step (the stale-DLL hazard stays closed)"), ?_, ?_⟩
  · unfold checkNoPostBuildCopy
    rw [finditer_postBuild, hr']
    rfl
  · rw [Report.errors_note, herrors]

/-! ## Section 3: The right line -/

/-- What is promised: one error, with its line's number, for every `POST_BUILD` on a line
    that is no prose, and no other. -/
def BansPostBuild (cml : Text) (r : Report) : Prop :=
  ∃ r', checkNoPostBuildCopy cml r = some r' ∧
    r'.errors = r.errors ++ ((occurrences postBuild cml).filter fun start =>
      !isProse (lineAt cml start)).map (postBuildError cml)

/-- The line the check looks at is prose just when the line itself is. -/
def LooksRight (cml : Text) : Prop :=
  ∀ start ∈ occurrences postBuild cml,
    isProse (fetched cml start) = isProse (lineAt cml start)

theorem decimal_injective {m n : Nat} (h : decimal m = decimal n) : m = n := by
  have hdigits : (Nat.repr m).toList = (Nat.repr n).toList := h
  rw [Nat.toList_repr, Nat.toList_repr] at hdigits
  have hvalue := congrArg (fun l => Nat.ofDigitChars 10 l 0) hdigits
  simpa using hvalue

/-- An error says how many line feeds stand before its match. -/
theorem postBuildError_inj {cml : Text} {i j : Nat}
    (h : postBuildError cml i = postBuildError cml j) : lfBefore cml i = lfBefore cml j := by
  unfold postBuildError postBuildText at h
  rw [List.append_cancel_left_eq, List.append_cancel_right_eq, List.append_cancel_left_eq] at h
  exact Nat.succ.inj (decimal_injective h)

/-- The line of a match is fixed by the line feeds before it. -/
theorem lineAt_congr {cml : Text} {i j : Nat} (hi : i < cml.length) (hj : j < cml.length)
    (h : lfBefore cml i = lfBefore cml j) : lineAt cml i = lineAt cml j := by
  have hline := splitLines_lineAt hi
  rw [h, splitLines_lineAt hj] at hline
  exact (Option.some.inj hline).symm

/-- A match whose error is there is on a line like that of a match that gives it. -/
theorem exists_of_mem_errors {cml : Text} {p : Nat → Bool} {i : Nat}
    (h : postBuildError cml i ∈
      ((occurrences postBuild cml).filter p).map (postBuildError cml)) :
    ∃ j ∈ occurrences postBuild cml, p j = true ∧ lfBefore cml j = lfBefore cml i := by
  obtain ⟨j, hj, herror⟩ := List.mem_map.mp h
  obtain ⟨hocc, hp⟩ := List.mem_filter.mp hj
  exact ⟨j, hocc, hp, postBuildError_inj herror⟩

/-- **When the ban looks at the right line**: the check keeps its promise on a text just
    when, for every `POST_BUILD` in it, `splitlines` gives a comment line under that
    number if and only if the line it stands on is one. -/
theorem bans_post_build_iff (cml : Text) (r : Report) : BansPostBuild cml r ↔ LooksRight cml := by
  obtain ⟨r', hr', herrors⟩ := checkNoPostBuildCopy_errors cml r
  constructor
  · intro h start hstart
    obtain ⟨r₂, hr₂, hpromise⟩ := h
    rw [hr'] at hr₂
    cases hr₂
    have hsame := List.append_cancel_left (herrors.symm.trans hpromise)
    by_contra hdiff
    have hmem : start ∈ occurrences postBuild cml := hstart
    cases hprose : isProse (lineAt cml start) with
    | false =>
      -- an error is missing, but another match of the line gives the same one
      have herror : postBuildError cml start ∈ ((occurrences postBuild cml).filter fun start =>
          !isProse (lineAt cml start)).map (postBuildError cml) :=
        List.mem_map.mpr ⟨start, List.mem_filter.mpr ⟨hmem, by simp [hprose]⟩, rfl⟩
      rw [← hsame] at herror
      obtain ⟨j, hj, hnot, hline⟩ := exists_of_mem_errors herror
      have hfetched : fetched cml j = fetched cml start := by
        unfold fetched
        rw [hline]
      rw [hfetched] at hnot
      exact hdiff (by rw [hprose]; simpa using hnot)
    | true =>
      -- an error that should not be there
      have hfetch : isProse (fetched cml start) = false := by
        rw [Bool.eq_false_iff]
        intro hboth
        exact hdiff (hboth.trans hprose.symm)
      have herror : postBuildError cml start ∈ ((occurrences postBuild cml).filter fun start =>
          !isProse (fetched cml start)).map (postBuildError cml) :=
        List.mem_map.mpr ⟨start, List.mem_filter.mpr ⟨hmem, by simp [hfetch]⟩, rfl⟩
      rw [hsame] at herror
      obtain ⟨j, hj, hnot, hline⟩ := exists_of_mem_errors herror
      have hsameLine := lineAt_congr (mem_occurrences.mp hj).1 (mem_occurrences.mp hmem).1 hline
      rw [hsameLine, hprose] at hnot
      cases hnot
  · intro h
    refine ⟨r', hr', ?_⟩
    rw [herrors]
    congr 2
    apply List.filter_congr
    intro start hstart
    rw [h start hstart]

/-- In a text whose lines end at line feeds only, the ban looks at the right line. -/
theorem looksRight_of_line_feeds {cml : Text} (h : ∀ c ∈ cml, isBreak c = true → c = '\n') :
    LooksRight cml := by
  intro start hstart
  have hlt := (mem_occurrences.mp hstart).1
  unfold fetched
  rw [splitlines_eq h, splitLines_lineAt hlt, Option.getD_some]

/-- **A live step behind a form feed** passes for the comment of the line before. -/
theorem live_step_passes_for_prose :
    ¬ ∀ (cml : Text) (r : Report), '\r' ∉ cml → BansPostBuild cml r := by
  intro hclaim
  let cml := text "\x0c# tests\nadd_custom_command(TARGET t POST_BUILD COMMAND c)\n"
  obtain ⟨r', hr', herrors⟩ := hclaim cml ⟨[], []⟩ (by decide)
  have hreport : (checkNoPostBuildCopy cml ⟨[], []⟩).map Report.errors = some [] := by
    decide +kernel
  rw [hr', Option.map_some, herrors] at hreport
  revert hreport
  decide +kernel

end RepoChecks
