import Mathlib.Data.List.Infix
import MscsUnitTests.Lib.Fields
import MscsUnitTests.Lib.PyText
import MscsUnitTests.Ci.Report

/-! # Repository Checks: What Git Is Told

    `check_gitattributes_binary` and `check_hook_intact` of `check_repo_invariants.py`. Both
    look in `.gitattributes` for a pattern and its attributes; the hook has to be there, with
    line feeds for line ends.

    * `attributeSet_iff`: what the search finds.
    * `binary_found_iff`: a line that Git reads as meant, or one that is broken in two.
-/

open Regex TextLines TextFields
open PyText (isSpace)

namespace RepoChecks

/-! ## Section 1: The checks -/

/-- `re.search` of `^\s*pattern\s+attribute\s*$`, with `re.M`. -/
def attributeFound (ga pattern : Text) (attributes : List Text) : Bool :=
  (spaced isSpace pattern attributes).searchLineEnd ga

def checkGitattributesBinary (ga : Text) (r : Report) : Report :=
  if attributeFound ga (text "*.p2p") [text "binary"] then
    r.note (text "golden_ref.p2p is still marked binary")
  else
    r.fail (text "gitattributes") (text ("\x27*.p2p binary\x27 is no longer in .gitattributes; " ++
      "golden_ref.p2p would be EOL-translated on checkout"))

/-- `b"\r\n"`. -/
def crlf : List UInt8 := [13, 10]

/-- `blob` is what the hook's file holds, if it is a file. -/
def checkHookIntact (hook : Option (List UInt8)) (ga : Text) (r : Report) : Report :=
  match hook with
  | none => r.fail (text "hook") (text "tools/hooks/pre-push is missing")
  | some blob =>
    let r :=
      if crlf <:+: blob then
        r.fail (text "hook") (text ("tools/hooks/pre-push contains CRLF; it will fail with " ++
          "\x27bad interpreter\x27 and silently permit every push"))
      else r
    let r :=
      if attributeFound ga (text "tools/hooks/*") [text "text", text "eol=lf"] then r
      else
        r.fail (text "gitattributes") (text ("\x27tools/hooks/* text eol=lf\x27 is missing, so " ++
          "the hook can be checked out CRLF on Windows"))
    r.note (text "pre-push hook present, LF, and pinned to LF by .gitattributes")

/-! ## Section 2: What they report -/

/-- Some lines that follow each other have these words and no others. -/
def AttributeSet (ga : Text) (words : List Text) : Prop :=
  ∃ ls ms rs, splitLines '\n' ga = ls ++ (ms ++ rs) ∧ ms.flatMap (fields isSpace) = words

theorem attributeSet_iff {ga pattern : Text} {attributes : List Text}
    (hpattern : IsWord isSpace pattern) (hattributes : ∀ w ∈ attributes, IsWord isSpace w) :
    attributeFound ga pattern attributes = true ↔ AttributeSet ga (pattern :: attributes) :=
  spaced_search_iff rfl hpattern hattributes

theorem isWord_of_all {w : Text} (hne : w ≠ []) (hall : (w.all fun c => !isSpace c) = true) :
    IsWord isSpace w :=
  ⟨hne, fun c hc => by simpa using List.all_eq_true.mp hall c hc⟩

theorem binary_words_iff (ga : Text) :
    attributeFound ga (text "*.p2p") [text "binary"] = true ↔
      AttributeSet ga [text "*.p2p", text "binary"] := by
  refine attributeSet_iff (isWord_of_all (by decide) (by decide)) ?_
  rw [List.forall_mem_singleton]
  exact isWord_of_all (by decide) (by decide)

theorem hook_words_iff (ga : Text) :
    attributeFound ga (text "tools/hooks/*") [text "text", text "eol=lf"] = true ↔
      AttributeSet ga [text "tools/hooks/*", text "text", text "eol=lf"] := by
  refine attributeSet_iff (isWord_of_all (by decide) (by decide)) ?_
  rw [List.forall_mem_cons, List.forall_mem_singleton]
  exact ⟨isWord_of_all (by decide) (by decide), isWord_of_all (by decide) (by decide)⟩

theorem gitattributesBinary_iff (ga : Text) (r : Report) :
    (checkGitattributesBinary ga r).errors = r.errors ↔
      AttributeSet ga [text "*.p2p", text "binary"] := by
  rw [← binary_words_iff]
  unfold checkGitattributesBinary
  split
  · next h => simp [h]
  · next h => simp [h]

/-- The hook is there, without a carriage return at the end of a line, and Git is told to
    leave it so. -/
def HookIntact (hook : Option (List UInt8)) (ga : Text) : Prop :=
  (∃ blob, hook = some blob ∧ ¬ crlf <:+: blob) ∧
    AttributeSet ga [text "tools/hooks/*", text "text", text "eol=lf"]

theorem hookIntact_iff (hook : Option (List UInt8)) (ga : Text) (r : Report) :
    (checkHookIntact hook ga r).errors = r.errors ↔ HookIntact hook ga := by
  unfold HookIntact
  rw [← hook_words_iff]
  unfold checkHookIntact
  rcases hook with _ | blob
  · simp
  · generalize attributeFound ga (text "tools/hooks/*") [text "text", text "eol=lf"] = found
    by_cases hcr : crlf <:+: blob
    · cases found <;> simp [hcr]
    · cases found <;> simp [hcr]

/-! ## Section 3: What Git reads -/

/-- A line with the words, which is what Git reads them from. -/
def OnOneLine (ga : Text) (words : List Text) : Prop :=
  ∃ line ∈ splitLines '\n' ga, fields isSpace line = words

/-- The two words on two lines, with nothing but blanks between them. -/
def BrokenInTwo (ga : Text) (pattern attr : Text) : Prop :=
  ∃ ls l₁ ms l₂ rs, splitLines '\n' ga = ls ++ (l₁ :: (ms ++ l₂ :: rs)) ∧
    fields isSpace l₁ = [pattern] ∧ (∀ l ∈ ms, fields isSpace l = []) ∧
    fields isSpace l₂ = [attr]

/-- The first line with a word, and what stands behind it. -/
theorem exists_of_flatMap_cons {ms : List Text} {w : Text} {ws : List Text}
    (h : ms.flatMap (fields isSpace) = w :: ws) : ∃ blanks l rs ws₁,
      ms = blanks ++ l :: rs ∧ (∀ l ∈ blanks, fields isSpace l = []) ∧
      fields isSpace l = w :: ws₁ ∧ ws = ws₁ ++ rs.flatMap (fields isSpace) := by
  induction ms with
  | nil => cases h
  | cons l ms ih =>
    rw [List.flatMap_cons] at h
    rcases hl : fields isSpace l with _ | ⟨w', ws₁⟩
    · rw [hl, List.nil_append] at h
      obtain ⟨blanks, l', rs, ws₁, rfl, hblanks, hrest⟩ := ih h
      refine ⟨l :: blanks, l', rs, ws₁, rfl, ?_, hrest⟩
      rw [List.forall_mem_cons]
      exact ⟨hl, hblanks⟩
    · rw [hl, List.cons_append] at h
      cases h
      exact ⟨[], l, ms, ws₁, rfl, by simp, hl, rfl⟩

/-- Two words are on one line, or broken in two. -/
theorem attributeSet_two_iff (ga pattern attr : Text) :
    AttributeSet ga [pattern, attr] ↔
      OnOneLine ga [pattern, attr] ∨ BrokenInTwo ga pattern attr := by
  constructor
  · rintro ⟨ls, ms, rs, hlines, hwords⟩
    obtain ⟨blanks, l, behind, ws₁, rfl, -, hl, hsplit⟩ := exists_of_flatMap_cons hwords
    rcases ws₁ with _ | ⟨w, ws₁⟩
    · -- the attribute is on a later line
      obtain ⟨blanks', l', rest, ws₂, rfl, hblanks', hl', hnone⟩ :=
        exists_of_flatMap_cons hsplit.symm
      have hws₂ : ws₂ = [] := (List.append_eq_nil_iff.mp hnone.symm).1
      subst hws₂
      refine .inr ⟨ls ++ blanks, l, blanks', l', rest ++ rs, ?_, hl, hblanks', hl'⟩
      rw [hlines]
      simp
    · left
      obtain ⟨rfl, hnone⟩ := List.cons.inj hsplit
      have hws₁ : ws₁ = [] := (List.append_eq_nil_iff.mp hnone.symm).1
      subst hws₁
      exact ⟨l, by simp [hlines], hl⟩
  · rintro (⟨line, hmem, hfields⟩ | ⟨ls, l₁, ms, l₂, rs, hlines, hl₁, hms, hl₂⟩)
    · obtain ⟨ls, rs, hlines⟩ := List.append_of_mem hmem
      exact ⟨ls, [line], rs, hlines, by rw [List.flatMap_singleton, hfields]⟩
    · refine ⟨ls, l₁ :: (ms ++ [l₂]), rs, by rw [hlines]; simp, ?_⟩
      have hblank : ms.flatMap (fields isSpace) = [] := List.flatMap_eq_nil_iff.mpr hms
      rw [List.flatMap_cons, List.flatMap_append, hblank, List.flatMap_singleton, hl₁, hl₂]
      rfl

/-- **When the check passes**: for a line that Git reads as meant, and for one that is
    broken in two. -/
theorem binary_found_iff (ga : Text) (r : Report) :
    (checkGitattributesBinary ga r).errors = r.errors ↔
      OnOneLine ga [text "*.p2p", text "binary"] ∨
        BrokenInTwo ga (text "*.p2p") (text "binary") := by
  rw [gitattributesBinary_iff, attributeSet_two_iff]

/-- **A line broken in two passes**, and Git reads it as two other lines. -/
theorem broken_line_passes :
    ∃ ga : Text, ¬ OnOneLine ga [text "*.p2p", text "binary"] ∧
      ∀ r, (checkGitattributesBinary ga r).errors = r.errors := by
  refine ⟨text "*.p2p\nbinary\n", ?_, fun r => ?_⟩
  · have hlines : splitLines '\n' (text "*.p2p\nbinary\n") = [text "*.p2p", text "binary"] := by
      decide
    rintro ⟨line, hline, hfields⟩
    rw [hlines, List.mem_cons, List.mem_singleton] at hline
    rcases hline with rfl | rfl
    · revert hfields
      decide
    · revert hfields
      decide
  · rw [gitattributesBinary_iff, attributeSet_two_iff]
    exact .inr ⟨[], text "*.p2p", [], text "binary", [], by decide, by decide, by simp, by decide⟩

end RepoChecks
