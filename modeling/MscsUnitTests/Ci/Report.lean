import Mathlib.Data.List.Sort
import Mathlib.Data.String.Basic

/-! # Repository Checks: What a Check Leaves Behind

    `_errors` and `_notes` of `check_repo_invariants.py`, with the texts that
    `fail` and `note` put there. The script exits 1 when `_errors` is not empty.
-/

namespace RepoChecks

/-- Text, by its characters. -/
abbrev Text : Type := List Char

/-- A literal. -/
def text (s : String) : Text := s.toList

/-- `%d` of a length or a counter. -/
def decimal (n : Nat) : Text := text (toString n)

/-- `", ".join`. -/
def commaJoin (names : List Text) : Text :=
  (names.intersperse (text ", ")).flatten

/-- `_errors` and `_notes`. -/
structure Report where
  errors : List Text
  notes : List Text

def Report.fail (check msg : Text) (r : Report) : Report :=
  { r with errors := r.errors ++ [text "[" ++ check ++ text "] " ++ msg] }

def Report.note (msg : Text) (r : Report) : Report :=
  { r with notes := r.notes ++ [msg] }

@[simp] theorem Report.errors_fail (check msg : Text) (r : Report) :
    (r.fail check msg).errors =
      r.errors ++ [text "[" ++ check ++ text "] " ++ msg] := rfl

@[simp] theorem Report.errors_note (msg : Text) (r : Report) :
    (r.note msg).errors = r.errors := rfl

/-- `sorted` of names: by their characters. -/
def sorted (names : List Text) : List Text :=
  names.insertionSort fun a b => a ≤ b

@[simp] theorem mem_sorted (name : Text) (names : List Text) :
    name ∈ sorted names ↔ name ∈ names := by
  unfold sorted
  exact List.mem_insertionSort _

/-- What a loop has collected is what there was before, and what some step added. -/
theorem mem_foldl {α β σ : Type} (collected : σ → List β) (step : σ → α → σ) (b : β)
    (Adds : α → Prop)
    (hstep : ∀ s a, b ∈ collected (step s a) ↔ b ∈ collected s ∨ Adds a)
    (items : List α) (s : σ) :
    b ∈ collected (items.foldl step s) ↔ b ∈ collected s ∨ ∃ a ∈ items, Adds a := by
  induction items generalizing s with
  | nil => simp
  | cons a rest ih =>
    rw [List.foldl_cons, ih, hstep, or_assoc]
    simp only [List.mem_cons, exists_eq_or_imp]

/-- A loop whose steps each append to the errors appends them in order. -/
theorem errors_foldl {α σ : Type} (report : σ → Report) (step : σ → α → σ)
    (added : α → List Text)
    (hstep : ∀ s a, (report (step s a)).errors = (report s).errors ++ added a)
    (items : List α) (s : σ) :
    (report (items.foldl step s)).errors = (report s).errors ++ items.flatMap added := by
  induction items generalizing s with
  | nil => simp
  | cons a rest ih => rw [List.foldl_cons, ih, hstep, List.flatMap_cons, List.append_assoc]

end RepoChecks
