import MscsUnitTests.Lib.Shell

/-! # The Pre-Push Hook

    `tools/hooks/pre-push` reads one line for each ref that is to be updated and lets
    the push through unless one of them moves master to a commit that is not verified.
    What `git` and `gh` answer is up to them; the hook asks each a question about a
    commit and goes by the answer.
-/

open ShellText

namespace PrePush

/-! ## Section 1: The hook -/

def txt (s : String) : List Char := s.toList

def PROTECTED : List Char := txt "master"

def WORKFLOW : List Char := txt "repo-invariants.yml"

def ZERO : List Char := txt "0000000000000000000000000000000000000000"

/-- `refs/heads/$PROTECTED`. -/
def protectedRef : List Char := txt "refs/heads/" ++ PROTECTED

/-- What stands on one line of standard input. -/
structure RefUpdate where
  localRef : List Char
  localSha : List Char
  remoteRef : List Char
  remoteSha : List Char
  deriving DecidableEq

/-- `read -r local_ref local_sha remote_ref remote_sha`. -/
def readUpdate (line : List Char) : RefUpdate :=
  let a := field line
  let b := field a.2
  let c := field b.2
  ⟨a.1, b.1, c.1, lastField c.2⟩

/-- What the other programs answer. -/
structure Answers where
  /-- `git merge-base --is-ancestor` of two commits ends with 0. -/
  isAncestor : List Char → List Char → Bool
  /-- `command -v gh` finds it. -/
  ghOnPath : Bool
  /-- What `gh run list` prints for a commit. -/
  ghRunList : List Char → List Char

/-- The arguments of `fail`. -/
structure Refusal where
  title : List Char
  lines : List (List Char)

/-- What `fail` prints. -/
def Refusal.text (r : Refusal) : List Char :=
  txt "\n  PUSH REFUSED (" ++ r.title ++ txt ")\n\n" ++
    (r.lines.flatMap fun l => txt "  " ++ l ++ txt "\n") ++
    txt "\n  Override with:  git push --no-verify\n\n"

/-- `cut -c1-8`. -/
def short (sha : List Char) : List Char := sha.take 8

/-- `case "$result" in`. -/
def checkResult (remoteName localSha result : List Char) : Except Refusal (List Char) :=
  if result = txt "completed/success" then
    .ok (txt "  CI is green on " ++ short localSha ++ txt " -- allowing push to " ++ PROTECTED ++
      txt ".\n")
  else if result = [] ∨ result = txt "none/none" then
    .error ⟨txt "no CI run for this commit",
      [short localSha ++ txt " has never been built. Push it to a branch first:",
        [],
        txt "    git switch -c <name> && git push -u " ++ remoteName ++ txt " <name>",
        [],
        txt "then, once CI is green, fast-forward master onto that same SHA",
        txt "(git merge --ff-only) and push again."]⟩
  else if txt "completed/" <+: result then
    .error ⟨txt "CI failed on this commit",
      [txt "The " ++ WORKFLOW ++ txt " run for " ++ short localSha ++ txt " finished as: " ++
          result.drop (txt "completed/").length,
        [],
        txt "    gh run list --commit " ++ localSha]⟩
  else
    .error ⟨txt "CI has not finished",
      [txt "The " ++ WORKFLOW ++ txt " run for " ++ short localSha ++ txt " is currently: " ++
          result,
        [],
        txt "    gh run watch $(gh run list --commit " ++ localSha ++
          txt " --limit 1 --json databaseId -q \x27.[0].databaseId\x27)"]⟩

/-- The body of the loop: what it prints, or how it refuses. -/
def checkUpdate (a : Answers) (remoteName : List Char) (u : RefUpdate) :
    Except Refusal (List Char) :=
  if u.remoteRef ≠ protectedRef then .ok []
  else if u.localSha = ZERO ∨ u.localSha = [] then
    .error ⟨txt "deleting " ++ PROTECTED,
      [txt "Refusing to delete the " ++ PROTECTED ++ txt " branch on \x27" ++ remoteName ++
        txt "\x27."]⟩
  -- a new branch on the other side has nothing to rewrite
  else if u.remoteSha ≠ ZERO ∧ u.remoteSha ≠ [] ∧
      a.isAncestor u.remoteSha u.localSha = false then
    .error ⟨txt "non-fast-forward push to " ++ PROTECTED,
      [short u.remoteSha ++ txt " is not an ancestor of " ++ short u.localSha ++ txt ",",
        txt "so this would rewrite published history on " ++ PROTECTED ++ txt "."]⟩
  else if a.ghOnPath = false then
    .error ⟨txt "cannot verify CI",
      [txt "The GitHub CLI (gh) is not on PATH, so the CI status of",
        short u.localSha ++ txt " cannot be checked."]⟩
  else
    checkResult remoteName u.localSha (stripNewlines (a.ghRunList u.localSha))

/-- How the hook ends. -/
structure Outcome where
  exitCode : Nat
  stdout : List Char
  stderr : List Char

/-- The updates the loop sees. -/
def updates (stdin : List Char) : List RefUpdate :=
  (terminatedLines stdin).map readUpdate

/-- The loop over these, and what the script exits with. -/
def loop (a : Answers) (remoteName : List Char) (us : List RefUpdate) : Outcome :=
  let run := runChecks (checkUpdate a remoteName) us
  match run.failure with
  | none => ⟨0, run.printed, []⟩
  | some r => ⟨1, run.printed, r.text⟩

/-- The script. -/
def prePush (a : Answers) (remoteName stdin : List Char) : Outcome :=
  loop a remoteName (updates stdin)

/-! ## Section 2: What it is for -/

/-- The name git has for no commit: forty zeroes. -/
def AllZeroes (sha : List Char) : Prop :=
  sha.length = 40 ∧ ∀ c ∈ sha, c = '0'

/-- An update of master that may go through. -/
structure Verified (a : Answers) (u : RefUpdate) : Prop where
  named : u.localSha ≠ []
  kept : ¬ AllZeroes u.localSha
  forward : AllZeroes u.remoteSha ∨ u.remoteSha = [] ∨
    a.isAncestor u.remoteSha u.localSha = true
  gh : a.ghOnPath = true
  green : stripNewlines (a.ghRunList u.localSha) = txt "completed/success"

theorem allZeroes_iff (sha : List Char) : AllZeroes sha ↔ sha = ZERO := by
  have hzero : ZERO = List.replicate 40 '0' := by decide
  unfold AllZeroes
  rw [hzero, List.eq_replicate_iff]

/-- Of the answers to the last question only one lets an update through. -/
theorem checkResult_ok_iff (remoteName localSha result : List Char) :
    (∃ out, checkResult remoteName localSha result = .ok out) ↔
      result = txt "completed/success" := by
  unfold checkResult
  by_cases hgreen : result = txt "completed/success"
  · rw [if_pos hgreen]
    exact iff_of_true ⟨_, rfl⟩ hgreen
  · rw [if_neg hgreen]
    refine iff_of_false ?_ hgreen
    rintro ⟨out, hout⟩
    split at hout
    · cases hout
    · split at hout <;> cases hout

/-- **One update**: what passes is another ref, or verified. -/
theorem checkUpdate_ok_iff (a : Answers) (remoteName : List Char) (u : RefUpdate) :
    (∃ out, checkUpdate a remoteName u = .ok out) ↔ (u.remoteRef = protectedRef → Verified a u) := by
  unfold checkUpdate
  by_cases href : u.remoteRef = protectedRef
  · rw [if_neg (not_not_intro href)]
    simp only [href, true_implies]
    by_cases hdel : u.localSha = ZERO ∨ u.localSha = []
    · -- 1. a deletion
      rw [if_pos hdel]
      refine iff_of_false (by simp) ?_
      intro hv
      exact hdel.elim (fun h => hv.kept ((allZeroes_iff _).mpr h)) hv.named
    · rw [if_neg hdel]
      by_cases hforced : u.remoteSha ≠ ZERO ∧ u.remoteSha ≠ [] ∧
          a.isAncestor u.remoteSha u.localSha = false
      · -- 2. history would be rewritten
        rw [if_pos hforced]
        refine iff_of_false (by simp) ?_
        intro hv
        obtain ⟨hzero, hempty, hnot⟩ := hforced
        rcases hv.forward with h | h | h
        · exact hzero ((allZeroes_iff _).mp h)
        · exact hempty h
        · rw [hnot] at h
          cases h
      · rw [if_neg hforced]
        by_cases hgh : a.ghOnPath = false
        · -- 3. nobody to ask
          rw [if_pos hgh]
          refine iff_of_false (by simp) ?_
          intro hv
          rw [hv.gh] at hgh
          cases hgh
        · rw [if_neg hgh, checkResult_ok_iff]
          constructor
          · intro hgreen
            have hforward : AllZeroes u.remoteSha ∨ u.remoteSha = [] ∨
                a.isAncestor u.remoteSha u.localSha = true := by
              rw [allZeroes_iff]
              by_contra hnone
              push Not at hnone
              exact hforced ⟨hnone.1, hnone.2.1, by simpa using hnone.2.2⟩
            have hkept : ¬ AllZeroes u.localSha := fun h =>
              hdel (Or.inl ((allZeroes_iff _).mp h))
            exact ⟨fun h => hdel (Or.inr h), hkept, hforward, by simpa using hgh, hgreen⟩
          · exact fun hv => hv.green
  · rw [if_pos href]
    exact iff_of_true ⟨_, rfl⟩ fun h => absurd h href

/-! ## Section 3: A push -/

theorem loop_exitCode (a : Answers) (remoteName : List Char) (us : List RefUpdate) :
    (loop a remoteName us).exitCode =
      if (runChecks (checkUpdate a remoteName) us).failure.isNone then 0 else 1 := by
  unfold loop
  dsimp only
  split
  · next h => simp [h]
  · next h => simp [h]

/-- The loop goes to its end exactly when no update of master fails. -/
theorem loop_exitCode_iff (a : Answers) (remoteName : List Char) (us : List RefUpdate) :
    (loop a remoteName us).exitCode = 0 ↔
      ∀ u ∈ us, u.remoteRef = protectedRef → Verified a u := by
  have hpasses := runChecks_passes_iff (checkUpdate a remoteName) us
  simp only [checkUpdate_ok_iff] at hpasses
  rw [← hpasses, loop_exitCode, ← Option.isNone_iff_eq_none]
  simp

/-- Is it master that is updated? -/
def onMaster (u : RefUpdate) : Bool := u.remoteRef = protectedRef

/-- The loop does the same on the updates of master alone. -/
theorem loop_onMaster (a : Answers) (remoteName : List Char) (us : List RefUpdate) :
    loop a remoteName (us.filter onMaster) = loop a remoteName us := by
  have hsilent : ∀ u, onMaster u = false → checkUpdate a remoteName u = .ok [] := by
    intro u hu
    unfold checkUpdate
    exact if_pos (by simpa [onMaster] using hu)
  unfold loop
  rw [runChecks_filter _ hsilent]

/-- The line git writes for an update. -/
def RefUpdate.line (u : RefUpdate) : List Char :=
  u.localRef ++ ' ' :: (u.localSha ++ ' ' :: (u.remoteRef ++ ' ' :: u.remoteSha))

/-- Names of refs and commits have no blanks in them. -/
structure RefUpdate.Plain (u : RefUpdate) : Prop where
  localRef : IsWord u.localRef
  localSha : IsWord u.localSha
  remoteRef : IsWord u.remoteRef
  remoteSha : IsWord u.remoteSha

theorem readUpdate_line {u : RefUpdate} (h : u.Plain) : readUpdate u.line = u := by
  unfold readUpdate RefUpdate.line
  simp only [field_word h.localRef, field_space, field_word h.localSha, field_word h.remoteRef,
    lastField_word h.remoteSha]

theorem newline_not_mem_word {w : List Char} (h : IsWord w) : '\n' ∉ w := by
  intro hmem
  have hblank := h.2 _ hmem
  revert hblank
  decide

/-- The hook sees the updates that git writes. -/
theorem updates_lines {us : List RefUpdate} (h : ∀ u ∈ us, u.Plain) :
    updates ((us.map RefUpdate.line).flatMap fun l => l ++ ['\n']) = us := by
  have hlines : ∀ l ∈ us.map RefUpdate.line, '\n' ∉ l := by
    intro l hl
    obtain ⟨u, hu, rfl⟩ := List.mem_map.mp hl
    have hp := h u hu
    unfold RefUpdate.line
    simp [newline_not_mem_word hp.localRef, newline_not_mem_word hp.localSha,
      newline_not_mem_word hp.remoteRef, newline_not_mem_word hp.remoteSha]
  unfold updates
  rw [terminatedLines_flatMap hlines, List.map_map]
  conv_rhs => rw [← List.map_id us]
  apply List.map_congr_left
  intro u hu
  exact readUpdate_line (h u hu)

/-- What the gate promises about a push. -/
structure Gate (a : Answers) (remoteName stdin : List Char) : Prop where
  allowed : (prePush a remoteName stdin).exitCode = 0 ↔
    ∀ u ∈ updates stdin, u.remoteRef = protectedRef → Verified a u
  refused : (prePush a remoteName stdin).exitCode ≠ 0 →
    (prePush a remoteName stdin).exitCode = 1
  /-- Only the updates of master matter, to anything the hook does. -/
  others : ∀ stdin', (updates stdin').filter onMaster = (updates stdin).filter onMaster →
    prePush a remoteName stdin' = prePush a remoteName stdin

/-- **The gate**: whatever stands on standard input and whatever git and gh answer, a
    push goes through exactly when every update of master is verified. -/
theorem push_gate (a : Answers) (remoteName stdin : List Char) : Gate a remoteName stdin where
  allowed := loop_exitCode_iff a remoteName (updates stdin)
  refused := by
    unfold prePush
    rw [loop_exitCode]
    simp
  others := by
    intro stdin' hsame
    unfold prePush
    rw [← loop_onMaster a remoteName (updates stdin'), hsame, loop_onMaster]

end PrePush
