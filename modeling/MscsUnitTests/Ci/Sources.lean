import Mathlib.Data.List.Infix
import MscsUnitTests.Ci.Declared
import MscsUnitTests.Lib.Fields

/-! # Repository Checks: Named Sources

    `check_named_sources_exist` of `check_repo_invariants.py`: what is named in an
    `add_executable` of `CMakeLists.txt` as a source is on disk. Two searches, one inside
    what the other has found.
-/

open Regex TextFields
open PyText (isSpace)

namespace RepoChecks

/-! ## Section 1: The check -/

/-- `add_executable\s*\(([^)]*)\)`. -/
def blockRe : Re :=
  .seq (.lit (text "add_executable")) <| .seq (.many isSpace) <| .seq (.lit (text "(")) <|
  .seq (.group (.many (· != ')'))) (.lit (text ")"))

/-- `[A-Za-z0-9_./${}-]`. -/
def isSourceChar (c : Char) : Bool :=
  c.isAlphanum || (text "_./$\x7b\x7d-").contains c

/-- `[A-Za-z0-9_./${}-]+\.cpp`, the whole of it as the group. -/
def sourceRe : Re := endingRe isSourceChar (text ".cpp")

/-- `"${" in tok`. -/
def namesVariable (tok : Text) : Bool := text "$\x7b" <:+: tok

def notOnDiskText (tok : Text) : Text :=
  text "add_executable names " ++ tok ++ text ", which is not on disk"

/-- The variables of the loops. -/
structure Checked where
  report : Report
  checked : Nat

/-- One pass of the inner loop; `isFile` is `os.path.isfile` below the repository. -/
def checkToken (isFile : Text → Bool) (acc : Checked) (tok : Text) : Checked :=
  if namesVariable tok then acc
  else
    { acc with
      checked := acc.checked + 1
      report :=
        if isFile tok then acc.report
        else acc.report.fail (text "sources") (notOnDiskText tok) }

/-- One pass of the outer loop. -/
def checkBlock (isFile : Text → Bool) (acc : Checked) (block : Text) : Checked :=
  (sourceRe.findall block).foldl (checkToken isFile) acc

def checkNamedSourcesExist (isFile : Text → Bool) (cml : Text) (r : Report) : Report :=
  let acc := (blockRe.findall cml).foldl (checkBlock isFile) ⟨r, 0⟩
  acc.report.note (decimal acc.checked ++
    text " literally-named add_executable sources all present")

/-! ## Section 2: What it reports -/

/-- What a word of a block names: its longest beginning that ends in `.cpp`. -/
def NamedSource (cml tok : Text) : Prop :=
  namesVariable tok = false ∧ ∃ block ∈ blockRe.findall cml,
    ∃ word ∈ fields (fun c => !isSourceChar c) block, longestTo (text ".cpp") word = some tok

theorem mem_sources (block tok : Text) : tok ∈ sourceRe.findall block ↔
    ∃ word ∈ fields (fun c => !isSourceChar c) block, longestTo (text ".cpp") word = some tok := by
  have hext : ∀ c ∈ text ".cpp", isSourceChar c = true := List.all_eq_true.mp (by decide)
  rw [sourceRe, findall_ending hext, List.mem_filterMap]

/-- The errors a token gives rise to. -/
def tokenErrors (isFile : Text → Bool) (tok : Text) : List Text :=
  (checkToken isFile ⟨⟨[], []⟩, 0⟩ tok).report.errors

theorem errors_checkToken (isFile : Text → Bool) (acc : Checked) (tok : Text) :
    (checkToken isFile acc tok).report.errors = acc.report.errors ++ tokenErrors isFile tok := by
  unfold tokenErrors checkToken
  cases namesVariable tok <;> cases isFile tok <;> simp

theorem tokenErrors_eq_nil_iff (isFile : Text → Bool) (tok : Text) :
    tokenErrors isFile tok = [] ↔ (namesVariable tok = false → isFile tok = true) := by
  unfold tokenErrors checkToken
  cases namesVariable tok <;> cases isFile tok <;> simp

theorem errors_checkBlock (isFile : Text → Bool) (acc : Checked) (block : Text) :
    (checkBlock isFile acc block).report.errors =
      acc.report.errors ++ (sourceRe.findall block).flatMap (tokenErrors isFile) :=
  errors_foldl Checked.report (checkToken isFile) (tokenErrors isFile) (errors_checkToken isFile) _ _

/-- **The check passes** just when what is named is on disk. -/
theorem namedSources_iff (isFile : Text → Bool) (cml : Text) (r : Report) :
    (checkNamedSourcesExist isFile cml r).errors = r.errors ↔
      ∀ tok, NamedSource cml tok → isFile tok = true := by
  have hloop := errors_foldl Checked.report (checkBlock isFile)
    (fun block => (sourceRe.findall block).flatMap (tokenErrors isFile))
    (errors_checkBlock isFile) (blockRe.findall cml) ⟨r, 0⟩
  unfold checkNamedSourcesExist
  dsimp only
  rw [Report.errors_note, hloop]
  dsimp only
  rw [List.append_right_eq_self, List.flatMap_eq_nil_iff]
  simp only [List.flatMap_eq_nil_iff, tokenErrors_eq_nil_iff, mem_sources]
  unfold NamedSource
  constructor
  · rintro h tok ⟨hvariable, block, hblock, hword⟩
    exact h block hblock tok hword hvariable
  · intro h block hblock tok hword hvariable
    exact h tok ⟨hvariable, block, hblock, hword⟩

end RepoChecks
