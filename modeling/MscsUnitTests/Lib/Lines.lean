import Mathlib.Data.List.Basic
import Mathlib.Data.List.DropRight

/-! # Texts of Lines

    A text that is read line by line, and the edits of it that such a reader does not
    notice: another line end, characters behind a line that it trims, lines that it
    skips.

    * `splitLines`: the lines of a text.
    * `SpelledAs`: a text with these lines, the last line end being optional.
    * `Edited`: trimmed characters and skipped lines added.
    * `foldl_edited`, `foldl_spelledAs`: the reader ends where it would have ended.
    * `withEnds`: the lines of a text, each with its end.
-/

namespace TextLines

variable {α σ : Type*}

section split
variable [DecidableEq α] (nl : α)

/-- The lines of a text. An end of line ends a line; it does not begin one. -/
def splitLines : List α → List (List α)
  | [] => []
  | c :: cs =>
    if c = nl then [] :: splitLines cs
    else
      match splitLines cs with
      | [] => [[c]]
      | l :: ls => (c :: l) :: ls

theorem splitLines_append {l : List α} (hl : nl ∉ l) (rest : List α) :
    splitLines nl (l ++ nl :: rest) = l :: splitLines nl rest := by
  induction l with
  | nil => simp [splitLines]
  | cons c l ih =>
    have hc : c ≠ nl := fun h => hl (h ▸ List.mem_cons_self)
    have hrest := ih fun h => hl (List.mem_cons_of_mem _ h)
    rw [List.cons_append, splitLines, if_neg hc, hrest]

/-- A line without its end is a line all the same, unless it is empty. -/
theorem splitLines_last {l : List α} (hl : nl ∉ l) (hne : l ≠ []) : splitLines nl l = [l] := by
  induction l with
  | nil => exact absurd rfl hne
  | cons c l ih =>
    have hc : c ≠ nl := fun h => hl (h ▸ List.mem_cons_self)
    rw [splitLines, if_neg hc]
    by_cases hempty : l = []
    · rw [hempty]
      rfl
    · rw [ih (fun h => hl (List.mem_cons_of_mem _ h)) hempty]

/-- The lines one after the other, each with its end. -/
def joinLines (lines : List (List α)) : List α :=
  lines.flatMap fun l => l ++ [nl]

/-- A text of these lines, with or without the last line end. -/
def SpelledAs (lines : List (List α)) (text : List α) : Prop :=
  text = joinLines nl lines ∨
    ∃ front l, lines = front ++ [l] ∧ text = joinLines nl front ++ l

omit [DecidableEq α] in
theorem joinLines_cons_append (l : List α) (lines : List (List α)) (rest : List α) :
    joinLines nl (l :: lines) ++ rest = l ++ nl :: (joinLines nl lines ++ rest) := by
  unfold joinLines
  rw [List.flatMap_cons, List.append_assoc, List.append_assoc, List.singleton_append]

theorem splitLines_joinLines {lines : List (List α)} (h : ∀ l ∈ lines, nl ∉ l) (rest : List α) :
    splitLines nl (joinLines nl lines ++ rest) = lines ++ splitLines nl rest := by
  induction lines with
  | nil => rfl
  | cons l lines ih =>
    have hl := h l List.mem_cons_self
    have hlines := ih fun l' hl' => h l' (List.mem_cons_of_mem _ hl')
    rw [joinLines_cons_append, splitLines_append nl hl, hlines]
    rfl

/-- A reader that passes over empty lines reads the lines of a text, however the last
    of them ends. -/
theorem foldl_spelledAs {step : σ → List α → σ} (hempty : ∀ s, step s [] = s)
    {lines : List (List α)} (h : ∀ l ∈ lines, nl ∉ l) {text : List α}
    (htext : SpelledAs nl lines text) (s : σ) :
    (splitLines nl text).foldl step s = lines.foldl step s := by
  rcases htext with rfl | ⟨front, l, rfl, rfl⟩
  · have hsplit := splitLines_joinLines nl h []
    rw [List.append_nil] at hsplit
    rw [hsplit]
    simp [splitLines]
  · have hfront : ∀ l' ∈ front, nl ∉ l' := fun l' hl' => h l' (List.mem_append_left _ hl')
    rw [splitLines_joinLines nl hfront, List.foldl_append, List.foldl_append]
    by_cases hl : l = []
    · -- nothing stands behind the last line end
      rw [hl]
      simp [splitLines, hempty]
    · rw [splitLines_last nl (h l (by simp)) hl]

/-- A text is lines, each with its end, and what stands behind the last end. -/
theorem exists_lines (text : List α) : ∃ front last, (∀ l ∈ front, nl ∉ l) ∧ nl ∉ last ∧
    text = joinLines nl front ++ last := by
  induction text with
  | nil => exact ⟨[], [], by simp, List.not_mem_nil, rfl⟩
  | cons c text ih =>
    obtain ⟨front, last, hfront, hlast, rfl⟩ := ih
    by_cases hc : c = nl
    · refine ⟨[] :: front, last, ?_, hlast, ?_⟩
      · intro l hl
        rcases List.mem_cons.mp hl with rfl | hl
        · exact List.not_mem_nil
        · exact hfront l hl
      · rw [hc]
        rfl
    · have hnl : ∀ l : List α, nl ∉ l → nl ∉ c :: l := by
        intro l hl hmem
        rcases List.mem_cons.mp hmem with h | h
        · exact hc h.symm
        · exact hl h
      cases front with
      | nil => exact ⟨[], c :: last, by simp, hnl last hlast, rfl⟩
      | cons l front =>
        refine ⟨(c :: l) :: front, last, ?_, hlast, rfl⟩
        intro l' hl'
        rcases List.mem_cons.mp hl' with rfl | hl'
        · exact hnl l (hfront l List.mem_cons_self)
        · exact hfront l' (List.mem_cons_of_mem _ hl')

/-- The lines of a text, each with its end. The last may have none. -/
def withEnds : List α → List (List α)
  | [] => []
  | c :: cs =>
    if c = nl then [c] :: withEnds cs
    else
      match withEnds cs with
      | [] => [[c]]
      | l :: ls => (c :: l) :: ls

theorem withEnds_append {l : List α} (hl : nl ∉ l) (rest : List α) :
    withEnds nl (l ++ nl :: rest) = (l ++ [nl]) :: withEnds nl rest := by
  induction l with
  | nil => simp [withEnds]
  | cons c l ih =>
    have hc : c ≠ nl := fun h => hl (h ▸ List.mem_cons_self)
    have hrest := ih fun h => hl (List.mem_cons_of_mem _ h)
    rw [List.cons_append, withEnds, if_neg hc, hrest]
    rfl

theorem withEnds_last {l : List α} (hl : nl ∉ l) (hne : l ≠ []) : withEnds nl l = [l] := by
  induction l with
  | nil => exact absurd rfl hne
  | cons c l ih =>
    have hc : c ≠ nl := fun h => hl (h ▸ List.mem_cons_self)
    rw [withEnds, if_neg hc]
    by_cases hempty : l = []
    · rw [hempty]
      rfl
    · rw [ih (fun h => hl (List.mem_cons_of_mem _ h)) hempty]

theorem withEnds_joinLines {lines : List (List α)} (h : ∀ l ∈ lines, nl ∉ l) (rest : List α) :
    withEnds nl (joinLines nl lines ++ rest) =
      lines.map (fun l => l ++ [nl]) ++ withEnds nl rest := by
  induction lines with
  | nil => rfl
  | cons l lines ih =>
    have hl := h l List.mem_cons_self
    have hlines := ih fun l' hl' => h l' (List.mem_cons_of_mem _ hl')
    rw [joinLines_cons_append, withEnds_append nl hl, hlines]
    rfl

/-- A text without the character `c` at its end. -/
def dropEnd (c : α) (l : List α) : List α :=
  if l.getLast? = some c then l.dropLast else l

theorem dropEnd_append (l : List α) : dropEnd nl (l ++ [nl]) = l := by
  unfold dropEnd
  rw [if_pos List.getLast?_concat, List.dropLast_concat]

theorem dropEnd_of_not_mem {l : List α} (h : nl ∉ l) : dropEnd nl l = l := by
  unfold dropEnd
  rw [if_neg]
  intro hlast
  exact h (List.mem_of_getLast? hlast)

end split

/-- Trimming a list that is mapped. -/
theorem rdropWhile_map {β : Type*} (f : β → α) (p : α → Bool) (l : List β) :
    (l.map f).rdropWhile p = (l.rdropWhile (p ∘ f)).map f := by
  unfold List.rdropWhile
  rw [← List.map_reverse, List.dropWhile_map, List.map_reverse]

/-- Lines with characters added that are trimmed, and lines added that are skipped. -/
inductive Edited (trimmed : α → Prop) (skipped : List α → Prop) :
    List (List α) → List (List α) → Prop where
  | nil : Edited trimmed skipped [] []
  | line {lines out : List (List α)} (l trail : List α) (htrail : ∀ c ∈ trail, trimmed c)
    (h : Edited trimmed skipped lines out) : Edited trimmed skipped (l :: lines) ((l ++ trail) :: out)
  | insert {lines out : List (List α)} (l : List α) (hskip : skipped l)
    (h : Edited trimmed skipped lines out) : Edited trimmed skipped lines (l :: out)

section edited
variable {trimmed : α → Prop} {skipped : List α → Prop} {lines out : List (List α)}

/-- The same characters behind each line, as other line ends are. -/
theorem edited_map_append (trail : List α) (htrail : ∀ c ∈ trail, trimmed c)
    (lines : List (List α)) : Edited trimmed skipped lines (lines.map fun l => l ++ trail) := by
  induction lines with
  | nil => exact .nil
  | cons l lines ih => exact .line l trail htrail ih

theorem Edited.refl (lines : List (List α)) : Edited trimmed skipped lines lines := by
  simpa using edited_map_append [] (by simp) lines

/-- **Edits are not noticed** by a reader that trims and skips. -/
theorem foldl_edited {step : σ → List α → σ}
    (htrim : ∀ s l trail, (∀ c ∈ trail, trimmed c) → step s (l ++ trail) = step s l)
    (hskip : ∀ s l, skipped l → step s l = s) (h : Edited trimmed skipped lines out) (s : σ) :
    out.foldl step s = lines.foldl step s := by
  induction h generalizing s with
  | nil => rfl
  | line l trail htrail h ih =>
    rw [List.foldl_cons, List.foldl_cons, htrim s l trail htrail, ih]
  | insert l hskipped h ih =>
    rw [List.foldl_cons, hskip s l hskipped, ih]

/-- What no line and no added piece has in it, no edited line has in it. -/
theorem Edited.not_mem {c : α} (h : Edited trimmed skipped lines out) (hlines : ∀ l ∈ lines, c ∉ l)
    (htrim : ¬ trimmed c) (hskip : ∀ l, skipped l → c ∉ l) : ∀ l ∈ out, c ∉ l := by
  induction h with
  | nil => simp
  | line l trail htrail h ih =>
    intro l' hl'
    rcases List.mem_cons.mp hl' with rfl | hl'
    · intro hc
      rcases List.mem_append.mp hc with hc | hc
      · exact hlines l List.mem_cons_self hc
      · exact htrim (htrail c hc)
    · exact ih (fun l'' hl'' => hlines l'' (List.mem_cons_of_mem _ hl'')) l' hl'
  | insert l hskipped h ih =>
    intro l' hl'
    rcases List.mem_cons.mp hl' with rfl | hl'
    · exact hskip l' hskipped
    · exact ih hlines l' hl'

end edited

end TextLines
