import Mathlib.Data.Nat.Find
import MscsUnitTests.Lib.Lines
import MscsUnitTests.Lib.Regex

/-! # The Fields of a Text

    A text as words with blanks between them, and the regular expression that looks for
    given words.

    * `fields`: the words of a text.
    * `spaced`: an expression for words in this order and blanks around them, from the
      beginning of a line; `Re.searchLineEnd` looks for it up to the end of a line.
    * `spaced_search_iff`: it is found exactly when some lines that follow each other have
      these words and no others.
    * `findall_ending`: the words with an ending, as a search for them gives them.
-/

open Regex TextLines

namespace TextFields

/-! ## Section 1: Words -/

section fields

variable {α : Type*} {blank : α → Bool}

/-- The words of a text, without the blanks. -/
def fields (blank : α → Bool) (s : List α) : List (List α) :=
  (s.splitOnP blank).filter fun w => !w.isEmpty

/-- A word: something, and no blank in it. -/
structure IsWord (blank : α → Bool) (w : List α) : Prop where
  ne_nil : w ≠ []
  solid : ∀ c ∈ w, blank c = false

@[simp] theorem fields_nil : fields blank ([] : List α) = [] := rfl

/-- A blank parts the words before it from those behind it. -/
theorem fields_append_cons (s t : List α) {c : α} (hc : blank c = true) :
    fields blank (s ++ c :: t) = fields blank s ++ fields blank t := by
  unfold fields
  rw [List.splitOnP_append_cons _ _ hc, List.filter_append]

theorem fields_cons (t : List α) {c : α} (hc : blank c = true) :
    fields blank (c :: t) = fields blank t := fields_append_cons [] t hc

theorem fields_word {w : List α} (hw : IsWord blank w) : fields blank w = [w] := by
  unfold fields
  rw [List.splitOnP_eq_singleton hw.solid]
  have hne := hw.ne_nil
  simp [hne]

/-- Blanks in front are not seen. -/
theorem fields_blanks {b : List α} (hb : ∀ c ∈ b, blank c = true) (t : List α) :
    fields blank (b ++ t) = fields blank t := by
  induction b with
  | nil => rfl
  | cons c b ih =>
    rw [List.forall_mem_cons] at hb
    rw [List.cons_append, fields_cons _ hb.1, ih hb.2]

theorem fields_word_append {w : List α} (hw : IsWord blank w) {t : List α}
    (ht : t.head?.all blank = true) : fields blank (w ++ t) = w :: fields blank t := by
  rcases t with _ | ⟨c, t⟩
  · rw [List.append_nil, fields_word hw, fields_nil]
  · have hc : blank c = true := ht
    rw [fields_append_cons _ _ hc, fields_word hw, fields_cons _ hc, List.singleton_append]

/-- A text begins with blanks, and then there is a word or nothing. -/
theorem all_blank_or_word (blank : α → Bool) (s : List α) :
    (∀ c ∈ s, blank c = true) ∨
      ∃ b w t, s = b ++ (w ++ t) ∧ (∀ c ∈ b, blank c = true) ∧ IsWord blank w ∧
        t.head?.all blank = true := by
  have hsplit := List.takeWhile_append_dropWhile (p := blank) (l := s)
  have hblanks : ∀ c ∈ s.takeWhile blank, blank c = true := fun c => List.mem_takeWhile_imp
  rcases hrest : s.dropWhile blank with _ | ⟨c, l⟩
  · left
    rw [hrest, List.append_nil] at hsplit
    rwa [hsplit] at hblanks
  · right
    have hc : blank c = false := by
      have hhead := List.head?_dropWhile_not blank s
      rw [hrest] at hhead
      simpa using hhead
    refine ⟨s.takeWhile blank, (c :: l).takeWhile fun c => !blank c,
      (c :: l).dropWhile fun c => !blank c, ?_, hblanks, ⟨?_, ?_⟩, ?_⟩
    · rw [List.takeWhile_append_dropWhile, ← hrest, hsplit]
    · simp [hc]
    · intro d hd
      simpa using List.mem_takeWhile_imp hd
    · have hhead := List.head?_dropWhile_not (fun c => !blank c) (c :: l)
      cases hnext : ((c :: l).dropWhile fun c => !blank c).head? with
      | none => rfl
      | some d =>
        rw [hnext] at hhead
        simpa using hhead

theorem fields_eq_nil_iff {s : List α} : fields blank s = [] ↔ ∀ c ∈ s, blank c = true := by
  constructor
  · intro h
    rcases all_blank_or_word blank s with hall | ⟨b, w, t, rfl, hb, hw, ht⟩
    · exact hall
    · rw [fields_blanks hb, fields_word_append hw ht] at h
      cases h
  · intro h
    have hblanks := fields_blanks h []
    rwa [List.append_nil, fields_nil] at hblanks

/-- Where the first word stands. -/
theorem exists_of_fields_cons {s w : List α} {ws : List (List α)}
    (h : fields blank s = w :: ws) : ∃ b t, s = b ++ (w ++ t) ∧ (∀ c ∈ b, blank c = true) ∧
      t.head?.all blank = true ∧ fields blank t = ws := by
  rcases all_blank_or_word blank s with hall | ⟨b, w', t, rfl, hb, hw', ht⟩
  · rw [fields_eq_nil_iff.mpr hall] at h
    cases h
  · rw [fields_blanks hb, fields_word_append hw' ht] at h
    cases h
    exact ⟨b, t, rfl, hb, ht, rfl⟩

theorem fields_joinLines {nl : α} (hnl : blank nl = true) (lines : List (List α)) (t : List α) :
    fields blank (joinLines nl lines ++ t) = lines.flatMap (fields blank) ++ fields blank t := by
  induction lines with
  | nil => rfl
  | cons l lines ih =>
    rw [joinLines_cons_append, fields_append_cons _ _ hnl, ih, List.flatMap_cons,
      List.append_assoc]

/-- The words of the lines are those of the text. -/
theorem flatMap_fields [DecidableEq α] {nl : α} (hnl : blank nl = true) (s : List α) :
    (splitLines nl s).flatMap (fields blank) = fields blank s := by
  obtain ⟨front, last, hfront, hlast, rfl⟩ := exists_lines nl s
  rw [splitLines_joinLines nl hfront, List.flatMap_append, fields_joinLines hnl]
  by_cases hempty : last = []
  · subst hempty
    rfl
  · rw [splitLines_last nl hlast hempty, List.flatMap_singleton]

end fields

/-! ## Section 2: Stretches of lines -/

section lines

variable {α : Type*} [DecidableEq α] {nl : α}

/-- The lines before a line that begins there. -/
theorem splitLines_before {before : List α} (hbefore : before.getLast?.all (· == nl) = true)
    (t : List α) : splitLines nl (before ++ t) = splitLines nl before ++ splitLines nl t := by
  obtain ⟨front, last, hfront, hlast, rfl⟩ := exists_lines nl before
  have hnone : last = [] := by
    rcases List.eq_nil_or_concat' last with rfl | ⟨l, c, rfl⟩
    · rfl
    · rw [← List.append_assoc, List.getLast?_concat] at hbefore
      have hc : c = nl := by simpa using hbefore
      exact absurd (by simp [hc]) hlast
  subst hnone
  have hlines := splitLines_joinLines nl hfront []
  rw [hlines, List.append_nil, splitLines_joinLines nl hfront, splitLines, List.append_nil]

/-- The lines of what stands before the end of a line are some of the lines. -/
theorem splitLines_behind (s : List α) {rest : List α} (hrest : rest.head?.all (· == nl) = true) :
    ∃ ms rs, splitLines nl (s ++ rest) = ms ++ rs ∧ (ms = splitLines nl s ∨
      ms = splitLines nl (s ++ [nl])) := by
  rcases rest with _ | ⟨c, rest⟩
  · exact ⟨splitLines nl s, [], by rw [List.append_nil, List.append_nil], .inl rfl⟩
  · have hc : c = nl := by simpa using hrest
    subst hc
    refine ⟨splitLines c (s ++ [c]), splitLines c rest, ?_, .inr rfl⟩
    have hends : (s ++ [c]).getLast?.all (· == c) = true := by simp
    rw [← splitLines_before hends, List.append_assoc, List.singleton_append]

/-- The first line, and the text behind it. -/
theorem exists_of_splitLines_cons {s l : List α} {ls : List (List α)}
    (h : splitLines nl s = l :: ls) :
    (s = l ∧ ls = []) ∨ ∃ t, s = l ++ nl :: t ∧ splitLines nl t = ls := by
  obtain ⟨front, last, hfront, hlast, rfl⟩ := exists_lines nl s
  rw [splitLines_joinLines nl hfront] at h
  rcases front with _ | ⟨f, front⟩
  · rw [List.nil_append] at h
    have hne : last ≠ [] := by
      rintro rfl
      cases h
    rw [splitLines_last nl hlast hne] at h
    cases h
    exact .inl ⟨rfl, rfl⟩
  · rw [List.cons_append] at h
    cases h
    rw [List.forall_mem_cons] at hfront
    refine .inr ⟨joinLines nl front ++ last, joinLines_cons_append nl l front last, ?_⟩
    exact splitLines_joinLines nl hfront.2 last

/-- Where a line stands. -/
theorem exists_of_splitLines_append {s l : List α} {ls rs : List (List α)}
    (h : splitLines nl s = ls ++ l :: rs) :
    ∃ rest, s = joinLines nl ls ++ (l ++ rest) ∧ rest.head?.all (· == nl) = true := by
  induction ls generalizing s with
  | nil =>
    rcases exists_of_splitLines_cons h with ⟨rfl, _⟩ | ⟨t, rfl, _⟩
    · exact ⟨[], by simp [joinLines], rfl⟩
    · exact ⟨nl :: t, rfl, by simp⟩
  | cons l' ls ih =>
    rcases exists_of_splitLines_cons h with ⟨_, hnil⟩ | ⟨t, rfl, ht⟩
    · simp at hnil
    · obtain ⟨rest, rfl, hrest⟩ := ih ht
      exact ⟨rest, (joinLines_cons_append nl l' ls _).symm, hrest⟩

omit [DecidableEq α] in
theorem joinLines_getLast? [BEq α] [LawfulBEq α] (ls : List (List α)) :
    (joinLines nl ls).getLast?.all (· == nl) = true := by
  rcases List.eq_nil_or_concat' ls with rfl | ⟨ls, l, rfl⟩
  · rfl
  · simp [joinLines]

end lines

/-! ## Section 3: The expression -/

section spaced

variable (blank : Char → Bool)

/-- Blanks, a word, and so on: `\s+word`, and `\s*` at last. -/
def spacedTail : List (List Char) → Re
  | [] => .many blank
  | w :: ws => .seq (.one blank) <| .seq (.many blank) <| .seq (.lit w) (spacedTail ws)

/-- `^\s*word\s+word\s*`, with as many words as there are. -/
def spaced (w : List Char) (ws : List (List Char)) : Re :=
  .seq .lineStart <| .seq (.many blank) <| .seq (.lit w) (spacedTail blank ws)

variable {blank}

/-- **What it reads**, by induction on the words. -/
theorem reads_spacedTail {ws : List (List Char)} (hws : ∀ w ∈ ws, IsWord blank w)
    {prev : Option Char} {u rest : List Char} {groups : List (List Char)} :
    (spacedTail blank ws).Reads prev u rest groups ↔
      u.head?.all blank = true ∧ fields blank u = ws ∧ groups = [] := by
  induction ws generalizing prev u groups with
  | nil =>
    rw [spacedTail, reads_many, fields_eq_nil_iff]
    constructor
    · rintro ⟨hall, rfl⟩
      refine ⟨?_, hall, rfl⟩
      rcases u with _ | ⟨c, u⟩
      · rfl
      · exact hall c List.mem_cons_self
    · rintro ⟨-, hall, rfl⟩
      exact ⟨hall, rfl⟩
  | cons w ws ih =>
    rw [List.forall_mem_cons] at hws
    constructor
    · rintro ⟨_, _, _, _, rfl, rfl, ⟨⟨c, rfl, hc⟩, rfl⟩, b, _, _, _, rfl, rfl, ⟨hb, rfl⟩,
        _, t, _, _, rfl, rfl, ⟨rfl, rfl⟩, htail⟩
      obtain ⟨ht, hfields, rfl⟩ := (ih hws.2).mp htail
      refine ⟨hc, ?_, rfl⟩
      rw [List.singleton_append, fields_cons _ hc, fields_blanks hb, fields_word_append hws.1 ht,
        hfields]
    · rintro ⟨hhead, hfields, rfl⟩
      obtain ⟨b, t, rfl, hb, ht, htail⟩ := exists_of_fields_cons hfields
      rcases b with _ | ⟨c, b⟩
      · -- a blank comes first
        obtain ⟨c, l, rfl⟩ := List.exists_cons_of_ne_nil hws.1.ne_nil
        have hsolid := hws.1.solid c List.mem_cons_self
        have hc : blank c = true := hhead
        rw [hc] at hsolid
        cases hsolid
      · rw [List.forall_mem_cons] at hb
        exact ⟨[c], b ++ (w ++ t), [], [], rfl, rfl, ⟨⟨c, rfl, hb.1⟩, rfl⟩, b, w ++ t, [], [], rfl,
          rfl, ⟨hb.2, rfl⟩, w, t, [], [], rfl, rfl, ⟨rfl, rfl⟩, (ih hws.2).mpr ⟨ht, htail, rfl⟩⟩

theorem reads_spaced {w : List Char} {ws : List (List Char)} (hw : IsWord blank w)
    (hws : ∀ w ∈ ws, IsWord blank w) {prev : Option Char} {u rest : List Char}
    {groups : List (List Char)} :
    (spaced blank w ws).Reads prev u rest groups ↔
      prev.all (· == '\n') = true ∧ fields blank u = w :: ws ∧ groups = [] := by
  constructor
  · rintro ⟨_, _, _, _, rfl, rfl, ⟨⟨rfl, rfl⟩, hprev⟩, b, _, _, _, rfl, rfl, ⟨hb, rfl⟩,
      _, t, _, _, rfl, rfl, ⟨rfl, rfl⟩, htail⟩
    obtain ⟨ht, hfields, rfl⟩ := (reads_spacedTail hws).mp htail
    refine ⟨hprev, ?_, rfl⟩
    rw [List.nil_append, fields_blanks hb, fields_word_append hw ht, hfields]
  · rintro ⟨hprev, hfields, rfl⟩
    obtain ⟨b, t, rfl, hb, ht, htail⟩ := exists_of_fields_cons hfields
    exact ⟨[], _, [], [], rfl, rfl, ⟨⟨rfl, rfl⟩, hprev⟩, b, w ++ t, [], [], rfl, rfl, ⟨hb, rfl⟩,
      w, t, [], [], rfl, rfl, ⟨rfl, rfl⟩, (reads_spacedTail hws).mpr ⟨ht, htail, rfl⟩⟩

/-- **The search finds the words on consecutive lines**: some lines that follow each other
    have these words and no others. They need not be on one line. -/
theorem spaced_search_iff (hnl : blank '\n' = true) {w : List Char} {ws : List (List Char)}
    (hw : IsWord blank w) (hws : ∀ w ∈ ws, IsWord blank w) {s : List Char} :
    (spaced blank w ws).searchLineEnd s = true ↔
      ∃ ls ms rs, splitLines '\n' s = ls ++ (ms ++ rs) ∧ ms.flatMap (fields blank) = w :: ws := by
  rw [searchLineEnd_iff]
  constructor
  · rintro ⟨before, u, rest, groups, rfl, hreads, hrest⟩
    obtain ⟨hprev, hfields, -⟩ := (reads_spaced hw hws).mp hreads
    have hbefore : before.getLast?.all (· == '\n') = true := by
      simpa [lastOf] using hprev
    obtain ⟨ms, rs, hlines, hms⟩ := splitLines_behind u hrest
    refine ⟨splitLines '\n' before, ms, rs, by rw [splitLines_before hbefore, hlines], ?_⟩
    rcases hms with rfl | rfl
    · rw [flatMap_fields hnl, hfields]
    · rw [flatMap_fields hnl, fields_append_cons u [] hnl, hfields]
      simp
  · rintro ⟨ls, ms, rs, hlines, hwords⟩
    rcases List.eq_nil_or_concat' ms with rfl | ⟨ms, m, rfl⟩
    · cases hwords
    · have hsplit : splitLines '\n' s = (ls ++ ms) ++ m :: rs := by
        rw [hlines]
        simp
      obtain ⟨rest, hs, hrest⟩ := exists_of_splitLines_append hsplit
      refine ⟨joinLines '\n' ls, joinLines '\n' ms ++ m, rest, [], ?_, ?_, hrest⟩
      · rw [hs]
        simp [joinLines]
      · refine (reads_spaced hw hws).mpr ⟨?_, ?_, rfl⟩
        · simpa [lastOf] using joinLines_getLast? ls
        · rw [fields_joinLines hnl, ← hwords]
          simp

end spaced

/-! ## Section 4: Words with an ending -/

section ending

/-- `x` ends in `ext`, and is more. -/
def EndsIn (ext x : List Char) : Prop := ext.length < x.length ∧ ext <:+ x

instance (ext x : List Char) : Decidable (EndsIn ext x) := inferInstanceAs (Decidable (_ ∧ _))

/-- The beginning of a word that is as long as can be, if it ends in `ext` and is more. -/
def longestTo (ext w : List Char) : Option (List Char) :=
  let k := Nat.findGreatest (fun k => EndsIn ext (w.take k)) w.length
  if k = 0 then none else some (w.take k)

variable {ext w x : List Char}

theorem longestTo_eq_some (h : longestTo ext w = some x) :
    x <+: w ∧ EndsIn ext x ∧ ∀ y, y <+: w → EndsIn ext y → y.length ≤ x.length := by
  unfold longestTo at h
  dsimp only at h
  split at h
  · cases h
  · next hpos =>
    have hx := Option.some.inj h
    have hle := Nat.findGreatest_le (P := fun k => EndsIn ext (w.take k)) w.length
    refine ⟨hx ▸ List.take_prefix _ _, hx ▸ Nat.findGreatest_of_ne_zero rfl hpos, ?_⟩
    intro y hy hends
    rw [List.prefix_iff_eq_take.mp hy] at hends
    have hbest : y.length ≤ _ :=
      Nat.le_findGreatest (P := fun k => EndsIn ext (w.take k)) hy.length_le hends
    rw [← hx, List.length_take]
    omega

theorem longestTo_eq_none (h : longestTo ext w = none) {y : List Char} (hy : y <+: w) :
    ¬ EndsIn ext y := by
  intro hends
  have hpos : 0 < y.length := Nat.zero_lt_of_lt hends.1
  rw [List.prefix_iff_eq_take.mp hy] at hends
  have hbest : y.length ≤ _ :=
    Nat.le_findGreatest (P := fun k => EndsIn ext (w.take k)) hy.length_le hends
  unfold longestTo at h
  dsimp only at h
  split at h
  · omega
  · cases h

/-- Behind the longest beginning no other ends in `ext`. -/
theorem not_endsIn_behind {v : List Char} (h : longestTo ext (x ++ v) = some x)
    {y z : List Char} (hv : v = y ++ z) {u : List Char} (hu : u <+: z) : ¬ EndsIn ext u := by
  intro hends
  obtain ⟨-, hx, hbest⟩ := longestTo_eq_some h
  obtain ⟨rest, rfl⟩ := hu
  have hlonger := hbest (x ++ (y ++ u)) ⟨rest, by rw [hv]; simp⟩ ⟨?_, ?_⟩
  · have hpos : 0 < u.length := Nat.zero_lt_of_lt hends.1
    rw [List.length_append, List.length_append] at hlonger
    omega
  · have hlt := hends.1
    rw [List.length_append, List.length_append]
    omega
  · exact hends.2.trans ⟨x ++ y, by simp⟩

/-- `([class]+ext)`. -/
def endingRe (p : Char → Bool) (ext : List Char) : Re :=
  .group <| .seq (.one p) <| .seq (.many p) (.lit ext)

variable {p : Char → Bool} {prev : Option Char}

theorem reads_ending (hext : ∀ c ∈ ext, p c = true) {u rest : List Char}
    {groups : List (List Char)} :
    (endingRe p ext).Reads prev u rest groups ↔
      (∀ c ∈ u, p c = true) ∧ EndsIn ext u ∧ groups = [u] := by
  constructor
  · rintro ⟨_, rfl, _, _, _, _, rfl, rfl, ⟨⟨c, rfl, hc⟩, rfl⟩, v, _, _, _, rfl, rfl, ⟨hv, rfl⟩,
      ⟨rfl, rfl⟩⟩
    refine ⟨?_, ⟨?_, ⟨[c] ++ v, by simp⟩⟩, rfl⟩
    · simp only [List.mem_append, List.mem_singleton]
      rintro d (rfl | hd | hd)
      · exact hc
      · exact hv d hd
      · exact hext d hd
    · rw [List.length_append, List.length_append, List.length_singleton]
      omega
  · rintro ⟨hall, ⟨hlt, y, rfl⟩, rfl⟩
    rcases y with _ | ⟨c, v⟩
    · simp at hlt
    · simp only [List.cons_append, List.mem_cons, List.mem_append] at hall
      exact ⟨[], rfl, [c], v ++ ext, [], [], rfl, rfl, ⟨⟨c, rfl, hall c (.inl rfl)⟩, rfl⟩, v, ext,
        [], [], rfl, rfl, ⟨fun d hd => hall d (.inr (.inl hd)), rfl⟩, ⟨rfl, rfl⟩⟩

/-- The runs come from the longest to the shortest. -/
theorem runs_ending_pairwise (q : Place) :
    ((endingRe p ext).runs q).Pairwise fun m m' => m'.len < m.len := by
  have hmany : ∀ q : Place, (Re.seq (.many p) (.lit ext)).runs q =
      ((manyLens p q.rest).filter fun k => ext.isPrefixOf (q.rest.drop k)).map
        fun k => ⟨k + ext.length, []⟩ := by
    intro q
    simp only [runs_seq, runs_many, runs_lit, List.flatMap_map, Place.advance]
    induction manyLens p q.rest with
    | nil => rfl
    | cons k ks ih =>
      rw [List.flatMap_cons, ih, List.filter_cons]
      split <;> rfl
  have hsorted : ∀ q : Place, ((Re.seq (.many p) (.lit ext)).runs q).Pairwise
      fun m m' => m'.len < m.len := by
    intro q
    have hlens : (manyLens p q.rest).Pairwise fun k k' => k' < k :=
      List.pairwise_reverse.mpr List.pairwise_lt_range
    rw [hmany]
    exact (hlens.filter _).map _ fun k k' hlt => Nat.add_lt_add_right hlt _
  unfold endingRe
  rw [runs_group, runs_seq, runs_one]
  refine List.Pairwise.map _ (fun m m' h => h) ?_
  split
  · rw [List.flatMap_singleton]
    exact (hsorted _).map _ fun m m' hlt => Nat.add_lt_add_left hlt _
  · exact .nil

/-- Where the runs end that begin with a word: at its beginnings with the ending. -/
theorem mem_runs_ending (hext : ∀ c ∈ ext, p c = true) (hw : ∀ c ∈ w, p c = true)
    {t : List Char} (ht : t.head?.any p = false) {m : Run} :
    m ∈ (endingRe p ext).runs ⟨prev, w ++ t⟩ ↔ ∃ y, y <+: w ∧ EndsIn ext y ∧ m = ⟨y.length, [y]⟩ := by
  rw [mem_runs, reads_ending hext]
  constructor
  · rintro ⟨hle, hall, hends, hgroups⟩
    have hinside : m.len ≤ w.length := by
      by_contra hlt
      rcases t with _ | ⟨c, t⟩
      · simp at hle
        omega
      · -- the character behind the word is none of the class
        have hc : c ∈ (w ++ c :: t).take m.len := by
          obtain ⟨k, hk⟩ : ∃ k, m.len = w.length + (k + 1) := ⟨m.len - w.length - 1, by omega⟩
          rw [hk, List.take_length_add_append]
          simp
        have hin := hall c hc
        have hout : p c = false := ht
        rw [hin] at hout
        cases hout
    have htake : (w ++ t).take m.len = w.take m.len := List.take_append_of_le_length hinside
    dsimp only at hends hgroups
    rw [htake] at hends hgroups
    refine ⟨w.take m.len, List.take_prefix _ _, hends, run_eq ?_ hgroups⟩
    rw [List.length_take]
    omega
  · rintro ⟨y, ⟨z, rfl⟩, hends, rfl⟩
    refine ⟨by simp, ?_⟩
    have htake : (y ++ z ++ t).take y.length = y := by
      rw [List.append_assoc, List.take_left]
    dsimp only
    rw [htake]
    exact ⟨fun c hc => hw c (List.mem_append_left _ hc), hends, rfl⟩

/-- **The longest beginning with the ending** is what is read of a word. -/
theorem head?_ending (hext : ∀ c ∈ ext, p c = true) (hw : ∀ c ∈ w, p c = true) {t : List Char}
    (ht : t.head?.any p = false) (h : longestTo ext w = some x) :
    ((endingRe p ext).runs ⟨prev, w ++ t⟩).head? = some ⟨x.length, [x]⟩ := by
  obtain ⟨hx, hends, hbest⟩ := longestTo_eq_some h
  have hmem : (⟨x.length, [x]⟩ : Run) ∈ (endingRe p ext).runs ⟨prev, w ++ t⟩ :=
    (mem_runs_ending hext hw ht).mpr ⟨x, hx, hends, rfl⟩
  have hsorted : ((endingRe p ext).runs ⟨prev, w ++ t⟩).Pairwise fun m m' => m'.len < m.len :=
    runs_ending_pairwise _
  rcases hruns : (endingRe p ext).runs ⟨prev, w ++ t⟩ with _ | ⟨m, ms⟩
  · rw [hruns] at hmem
    cases hmem
  · rw [hruns] at hmem hsorted
    rcases List.mem_cons.mp hmem with rfl | hlater
    · rfl
    · -- the first run is longer, but none is
      have hlonger := (List.pairwise_cons.mp hsorted).1 _ hlater
      obtain ⟨y, hy, hyends, rfl⟩ := (mem_runs_ending hext hw ht).mp
        (hruns ▸ List.mem_cons_self : m ∈ (endingRe p ext).runs ⟨prev, w ++ t⟩)
      have hle := hbest y hy hyends
      dsimp only at hlonger
      omega

theorem runs_ending_eq_nil (hext : ∀ c ∈ ext, p c = true) (hw : ∀ c ∈ w, p c = true)
    {t : List Char} (ht : t.head?.any p = false) (h : ∀ y, y <+: w → ¬ EndsIn ext y) :
    (endingRe p ext).runs ⟨prev, w ++ t⟩ = [] := by
  rw [List.eq_nil_iff_forall_not_mem]
  intro m hm
  obtain ⟨y, hy, hends, -⟩ := (mem_runs_ending hext hw ht).mp hm
  exact h y hy hends

/-- A word is read up to its longest beginning with the ending, and the rest passed over. -/
theorem scan_word (hext : ∀ c ∈ ext, p c = true) (hw : ∀ c ∈ w, p c = true) {t : List Char}
    (ht : t.head?.any p = false) (pos : Nat) :
    ∃ ms, (endingRe p ext).scan 0 pos prev (w ++ t) =
        ms ++ (endingRe p ext).scan 0 (pos + w.length) (lastOf prev w) t ∧
      ms.map (fun m => m.groups.headD []) = (longestTo ext w).toList := by
  rcases h : longestTo ext w with _ | x
  · refine ⟨[], scan_over fun b₁ b₂ hb _ => ?_, rfl⟩
    refine runs_ending_eq_nil hext (fun c hc => hw c (by simp [hb, hc])) ht fun y hy hends => ?_
    obtain ⟨z, rfl⟩ := hy
    refine longestTo_eq_none h (y := b₁ ++ y) ⟨z, by rw [hb, List.append_assoc]⟩ ⟨?_, ?_⟩
    · have hlt := hends.1
      rw [List.length_append]
      omega
    · exact hends.2.trans (List.suffix_append b₁ y)
  · obtain ⟨⟨v, rfl⟩, hends, -⟩ := longestTo_eq_some h
    have hne : x ≠ [] := List.ne_nil_of_length_pos (Nat.zero_lt_of_lt hends.1)
    have hrun : ((endingRe p ext).runs ⟨prev, _ ++ t⟩).head? = some ⟨x.length, [x]⟩ :=
      head?_ending hext hw ht h
    rw [List.append_assoc] at hrun ⊢
    refine ⟨[⟨pos, [x]⟩], ?_, rfl⟩
    rw [scan_of_run hne hrun, scan_over, List.singleton_append, lastOf_append, List.length_append,
      Nat.add_assoc]
    intro b₁ b₂ hb _
    refine runs_ending_eq_nil hext (fun c hc => hw c (by simp [hb, hc])) ht fun y hy => ?_
    exact not_endsIn_behind h hb hy

/-- **What `findall` gives**: of each word of the class, the longest beginning that has the
    ending. -/
theorem findall_ending (hext : ∀ c ∈ ext, p c = true) (s : List Char) :
    (endingRe p ext).findall s = (fields (fun c => !p c) s).filterMap (longestTo ext) := by
  have hscan : ∀ n pos prev, ∀ s : List Char, s.length ≤ n →
      ((endingRe p ext).scan 0 pos prev s).map (fun m => m.groups.headD []) =
        (fields (fun c => !p c) s).filterMap (longestTo ext) := by
    intro n
    induction n with
    | zero =>
      intro pos prev s hs
      rw [List.eq_nil_of_length_eq_zero (Nat.le_zero.mp hs), scan_nil]
      rfl
    | succ n ih =>
      intro pos prev s hs
      have hover : ∀ (b l : List Char) (pos : Nat), (∀ c ∈ b, (!p c) = true) →
          (endingRe p ext).scan 0 pos prev (b ++ l) =
            (endingRe p ext).scan 0 (pos + b.length) (lastOf prev b) l := by
        intro b l pos hb
        refine scan_over fun b₁ b₂ hsplit hne => ?_
        obtain ⟨c, b₃, rfl⟩ := List.exists_cons_of_ne_nil hne
        have hc : p c = false := by simpa using hb c (by simp [hsplit])
        refine runs_ending_eq_nil (w := []) hext (by simp) (by simpa using hc) fun y hy hends => ?_
        rw [List.prefix_nil.mp hy] at hends
        exact absurd hends.1 (Nat.not_lt_zero _)
      rcases all_blank_or_word (fun c => !p c) s with hall | ⟨b, w, t, rfl, hb, hw, ht⟩
      · have hnone := hover s [] pos hall
        rw [List.append_nil, scan_nil] at hnone
        rw [hnone, fields_eq_nil_iff.mpr hall]
        rfl
      · have hwp : ∀ c ∈ w, p c = true := fun c hc => by simpa using hw.solid c hc
        have htp : t.head?.any p = false := by
          rcases t with _ | ⟨c, t⟩
          · rfl
          · simpa using ht
        obtain ⟨ms, hms, hread⟩ : ∃ ms, (endingRe p ext).scan 0 (pos + b.length) (lastOf prev b)
            (w ++ t) = ms ++ _ ∧ ms.map (fun m => m.groups.headD []) = _ :=
          scan_word hext hwp htp (pos + b.length)
        have hpos : 0 < w.length := List.length_pos_iff.mpr hw.ne_nil
        rw [hover b _ pos hb, hms, List.map_append, hread, ih _ _ t (by simp at hs; omega),
          fields_blanks hb, fields_word_append hw ht]
        rcases hlongest : longestTo ext w with _ | x
        · rw [List.filterMap_cons_none hlongest]
          rfl
        · rw [List.filterMap_cons_some hlongest]
          rfl
  exact hscan s.length 0 none s le_rfl

end ending

end TextFields
