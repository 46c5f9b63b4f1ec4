import Mathlib.Data.List.DropRight
import Mathlib.Data.List.Basic

/-! # What a Shell Script Reads

    * `terminatedLines`: the lines a `while read` loop sees. What stands behind the last
      line end is read, but the loop ends with it.
    * `field`, `lastField`: the variables of `read -r a b c`, the last of which takes the
      rest of the line.
    * `stripNewlines`: what a command substitution keeps.
    * `runChecks`: a loop that leaves with the first check that fails.
    * `Ran`, `pipe`, `runAll`: exit statuses, through a pipeline and through a loop that
      goes on after a failure.
-/

namespace ShellText

/-! ## Section 1: Lines and fields -/

/-- The lines of a text that are ended. -/
def terminatedLines : List Char → List (List Char)
  | [] => []
  | c :: cs =>
    if c = '\n' then [] :: terminatedLines cs
    else
      match terminatedLines cs with
      | [] => []
      | l :: ls => (c :: l) :: ls

theorem terminatedLines_append {l : List Char} (hl : '\n' ∉ l) (rest : List Char) :
    terminatedLines (l ++ '\n' :: rest) = l :: terminatedLines rest := by
  induction l with
  | nil => simp [terminatedLines]
  | cons c l ih =>
    have hc : c ≠ '\n' := fun h => hl (h ▸ List.mem_cons_self)
    have hrest := ih fun h => hl (List.mem_cons_of_mem _ h)
    rw [List.cons_append, terminatedLines, if_neg hc, hrest]

/-- Lines that are all ended are the lines that are read. -/
theorem terminatedLines_flatMap {lines : List (List Char)} (h : ∀ l ∈ lines, '\n' ∉ l) :
    terminatedLines (lines.flatMap fun l => l ++ ['\n']) = lines := by
  induction lines with
  | nil => rfl
  | cons l lines ih =>
    have hlines := ih fun l' hl' => h l' (List.mem_cons_of_mem _ hl')
    rw [List.flatMap_cons, List.append_assoc, List.singleton_append,
      terminatedLines_append (h l List.mem_cons_self), hlines]

/-- The blanks of the default `IFS`. -/
def isBlank (c : Char) : Bool := c = ' ' || c = '\t' || c = '\n'

/-- The first field of a line, and what `read` has left behind it. -/
def field (line : List Char) : List Char × List Char :=
  let s := line.dropWhile isBlank
  (s.takeWhile fun c => !isBlank c, s.dropWhile fun c => !isBlank c)

/-- What the last variable takes: the rest, blanks at both ends removed. -/
def lastField (line : List Char) : List Char :=
  (line.dropWhile isBlank).rdropWhile isBlank

/-- A word, as `read` sees one. -/
def IsWord (w : List Char) : Prop := w ≠ [] ∧ ∀ c ∈ w, isBlank c = false

theorem dropWhile_word {w : List Char} (hw : IsWord w) (rest : List Char) :
    (w ++ rest).dropWhile isBlank = w ++ rest := by
  obtain ⟨hne, hblank⟩ := hw
  cases w with
  | nil => exact absurd rfl hne
  | cons c w =>
    have hc := hblank c List.mem_cons_self
    rw [List.cons_append, List.dropWhile_cons_of_neg (by simp [hc])]

/-- A word with a space behind it is read up to that space. -/
theorem field_word {w : List Char} (hw : IsWord w) (rest : List Char) :
    field (w ++ ' ' :: rest) = (w, ' ' :: rest) := by
  have hnon : ∀ c ∈ w, (!isBlank c) = true := by
    intro c hc
    rw [hw.2 c hc]
    rfl
  have hspace : isBlank ' ' = true := by decide
  unfold field
  rw [dropWhile_word hw]
  dsimp only
  rw [List.takeWhile_append_of_pos hnon, List.dropWhile_append_of_pos hnon]
  simp [hspace]

theorem field_space (line : List Char) : field (' ' :: line) = field line := by
  have hspace : isBlank ' ' = true := by decide
  unfold field
  rw [List.dropWhile_cons_of_pos hspace]

theorem lastField_word {w : List Char} (hw : IsWord w) : lastField (' ' :: w) = w := by
  have hspace : isBlank ' ' = true := by decide
  have hdrop := dropWhile_word hw []
  rw [List.append_nil] at hdrop
  unfold lastField
  rw [List.dropWhile_cons_of_pos hspace, hdrop, List.rdropWhile_eq_self_iff]
  intro hne
  rw [hw.2 _ (List.getLast_mem hne)]
  decide

/-- `$(...)`: line ends at the end of an output are removed. -/
def stripNewlines (s : List Char) : List Char := s.rdropWhile (· = '\n')

/-! ## Section 2: Loops that leave early -/

section checks
variable {α ε β : Type*}

/-- What a loop has printed, and why it left, if it did. -/
structure CheckRun (ε β : Type*) where
  printed : List β
  failure : Option ε

/-- A loop over `items` that leaves with the first check that fails. -/
def runChecks (check : α → Except ε (List β)) : List α → CheckRun ε β
  | [] => ⟨[], none⟩
  | x :: xs =>
    match check x with
    | .error e => ⟨[], some e⟩
    | .ok out => ⟨out ++ (runChecks check xs).printed, (runChecks check xs).failure⟩

variable (check : α → Except ε (List β))

/-- A loop gets to its end exactly when no check fails. -/
theorem runChecks_passes_iff (items : List α) :
    (runChecks check items).failure = none ↔ ∀ x ∈ items, ∃ out, check x = .ok out := by
  induction items with
  | nil => simp [runChecks]
  | cons x xs ih =>
    rw [List.forall_mem_cons]
    unfold runChecks
    cases hx : check x with
    | error e => simp
    | ok out => simpa using ih

/-- **Silent items do not matter**: what passes and prints nothing may be left out. -/
theorem runChecks_filter {p : α → Bool} (hsilent : ∀ x, p x = false → check x = .ok [])
    (items : List α) : runChecks check (items.filter p) = runChecks check items := by
  induction items with
  | nil => rfl
  | cons x xs ih =>
    cases hp : p x with
    | true =>
      rw [List.filter_cons_of_pos hp]
      unfold runChecks
      rw [ih]
    | false =>
      rw [List.filter_cons_of_neg (by simp [hp]), ih]
      conv_rhs => unfold runChecks
      rw [hsilent x hp]
      simp

end checks

/-! ## Section 3: Exit statuses -/

/-- What a command leaves behind: the lines it has printed, and its exit status. -/
structure Ran where
  out : List (List Char)
  code : Nat

/-- `a | b`, without `pipefail`: the status is the one of `b`. -/
def pipe (a : Ran) (b : List (List Char) → Ran) : Ran := b a.out

/-- `tail -n`. -/
def tail (n : Nat) (lines : List (List Char)) : Ran := ⟨lines.drop (lines.length - n), 0⟩

/-- `${v:-default}`. -/
def orDefault (v : Option (List Char)) (default : List Char) : List Char :=
  match v with
  | some (c :: cs) => c :: cs
  | _ => default

/-- The words of an expansion that is not quoted. -/
def words (s : List Char) : List (List Char) :=
  (s.splitOnP isBlank).filter fun w => !w.isEmpty

/-- `for x in ...; do body "$x" || overall=1; done`: what is printed, and `overall`. -/
def runAll {α : Type*} (body : α → Ran) : List α → Nat → Ran
  | [], overall => ⟨[], overall⟩
  | x :: xs, overall =>
    let r := body x
    let rest := runAll body xs (if r.code ≠ 0 then 1 else overall)
    ⟨r.out ++ rest.out, rest.code⟩

/-- **Accumulating rule**: nothing is remembered when nothing has failed. -/
theorem runAll_code_iff {α : Type*} (body : α → Ran) (xs : List α) (overall : Nat) :
    (runAll body xs overall).code = 0 ↔ overall = 0 ∧ ∀ x ∈ xs, (body x).code = 0 := by
  induction xs generalizing overall with
  | nil => simp [runAll]
  | cons x xs ih =>
    unfold runAll
    rw [List.forall_mem_cons, ih]
    by_cases hx : (body x).code = 0
    · simp [hx]
    · simp [hx]

end ShellText
