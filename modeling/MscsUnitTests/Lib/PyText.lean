import Mathlib.Data.List.DropRight
import MscsUnitTests.Lib.Lines

/-! # Text as Python Sees It

    * `splitlines`: `str.splitlines`, which ends lines at more than line feeds.
    * `lstrip`: `str.lstrip` without an argument.
    * `finditer`: the places `re.finditer` gives for a literal.
    * `lineAt`: the line a place lies on when lines end at line feeds only.
-/

open TextLines

namespace PyText

/-! ## Section 1: Lines -/

/-- The characters at which `splitlines` ends a line. -/
def isBreak (c : Char) : Bool :=
  c ∈ ['\n', '\r', '\x0b', '\x0c', '\x1c', '\x1d', '\x1e', '\u0085', '\u2028', '\u2029']

/-- A character in front of the first line. -/
def consHead (c : Char) : List (List Char) → List (List Char)
  | [] => [[c]]
  | l :: ls => (c :: l) :: ls

/-- `str.splitlines()`. A CR in front of a LF ends its line together with it. -/
def splitlines : List Char → List (List Char)
  | [] => []
  | c :: cs =>
    if c = '\r' ∧ cs.head? = some '\n' then splitlines cs
    else if isBreak c then [] :: splitlines cs
    else consHead c (splitlines cs)

theorem length_le_consHead (c : Char) (ls : List (List Char)) :
    ls.length ≤ (consHead c ls).length := by
  cases ls with
  | nil => exact Nat.zero_le _
  | cons l ls => exact Nat.le_refl _

/-- There is a line for every line feed that stands before a character. -/
theorem count_lt_splitlines (before : List Char) (c : Char) (behind : List Char) :
    before.count '\n' < (splitlines (before ++ c :: behind)).length := by
  induction before with
  | nil =>
    induction behind generalizing c with
    | nil =>
      rw [List.nil_append, splitlines, if_neg (by simp)]
      split <;> simp [splitlines, consHead]
    | cons b behind ih =>
      have hrest := ih b
      rw [List.nil_append] at hrest ⊢
      rw [splitlines]
      split
      · exact hrest
      · split
        · simp
        · exact hrest.trans_le (length_le_consHead _ _)
  | cons b before ih =>
    rw [List.cons_append, splitlines]
    split
    · next hcr =>
      rw [List.count_cons_of_ne (by rw [hcr.1]; decide)]
      exact ih
    · by_cases hlf : b = '\n'
      · have hbreak : isBreak b = true := by
          rw [hlf]
          decide
        rw [if_pos hbreak, hlf, List.count_cons_self, List.length_cons]
        omega
      · rw [List.count_cons_of_ne hlf]
        split
        · rw [List.length_cons]
          omega
        · exact ih.trans_le (length_le_consHead _ _)

/-- With line feeds only, these are the lines. -/
theorem splitlines_eq {s : List Char} (h : ∀ c ∈ s, isBreak c = true → c = '\n') :
    splitlines s = splitLines '\n' s := by
  induction s with
  | nil => rfl
  | cons c cs ih =>
    have hrest := ih fun b hb => h b (List.mem_cons_of_mem _ hb)
    have hc := h c List.mem_cons_self
    have hcr : ¬ (c = '\r' ∧ cs.head? = some '\n') := by
      intro hboth
      have hlf := hc (by rw [hboth.1]; decide)
      rw [hboth.1] at hlf
      exact absurd hlf (by decide)
    rw [splitlines, splitLines, if_neg hcr, hrest]
    by_cases hlf : c = '\n'
    · have hbreak : isBreak c = true := by
        rw [hlf]
        decide
      rw [if_pos hbreak, if_pos hlf]
    · have hbreak : ¬ isBreak c = true := fun hb => hlf (hc hb)
      rw [if_neg hbreak, if_neg hlf]
      cases splitLines '\n' cs <;> rfl

/-- `str.isspace` of a character. -/
def isSpace (c : Char) : Bool :=
  c ∈ ['\t', '\n', '\x0b', '\x0c', '\r', '\x1c', '\x1d', '\x1e', '\x1f', ' ', '\u0085', '\u00a0',
    '\u1680', '\u2000', '\u2001', '\u2002', '\u2003', '\u2004', '\u2005', '\u2006', '\u2007',
    '\u2008', '\u2009', '\u200a', '\u2028', '\u2029', '\u202f', '\u205f', '\u3000']

/-- `str.lstrip()`. -/
def lstrip (s : List Char) : List Char := s.dropWhile isSpace

/-! ## Section 2: Places -/

/-- How many line feeds stand before a place. -/
def lfBefore (s : List Char) (i : Nat) : Nat := (s.take i).count '\n'

/-- The line a place lies on: what stands around it up to the line feeds. -/
def lineAt (s : List Char) (i : Nat) : List Char :=
  (s.take i).rtakeWhile (· != '\n') ++ (s.drop i).takeWhile (· != '\n')

theorem rtakeWhile_cons (p : Char → Bool) (c : Char) (s : List Char) :
    (c :: s).rtakeWhile p = if s.all p ∧ p c = true then c :: s else s.rtakeWhile p := by
  unfold List.rtakeWhile
  rw [List.reverse_cons, List.takeWhile_append]
  by_cases hall : s.all p = true
  · have hrev : s.reverse.takeWhile p = s.reverse := by
      rw [List.takeWhile_eq_self_iff]
      intro b hb
      exact List.all_eq_true.mp hall b (List.mem_reverse.mp hb)
    rw [hrev, if_pos rfl]
    by_cases hc : p c = true
    · simp [hall, hc]
    · simp [hc]
  · have hshort : ¬ (s.reverse.takeWhile p).length = s.reverse.length := by
      intro hlen
      apply hall
      have hself : s.reverse.takeWhile p = s.reverse :=
        (List.takeWhile_prefix p).eq_of_length hlen
      rw [List.takeWhile_eq_self_iff] at hself
      rw [List.all_eq_true]
      intro b hb
      exact hself b (List.mem_reverse.mpr hb)
    rw [if_neg hshort, if_neg (fun h => hall h.1)]

/-- The first line goes up to the first line feed. -/
theorem head?_splitLines (s : List Char) :
    (splitLines '\n' s).head? = if s = [] then none else some (s.takeWhile (· != '\n')) := by
  induction s with
  | nil => rfl
  | cons c cs ih =>
    rw [if_neg (List.cons_ne_nil _ _), splitLines]
    by_cases hlf : c = '\n'
    · simp [hlf]
    · rw [if_neg hlf]
      cases hsplit : splitLines '\n' cs with
      | nil =>
        rw [hsplit] at ih
        have hnil : cs = [] := by
          by_contra hne
          rw [if_neg hne] at ih
          cases ih
        simp [hnil, hlf]
      | cons l ls =>
        rw [hsplit] at ih
        have hne : cs ≠ [] := by
          intro hnil
          rw [if_pos hnil] at ih
          cases ih
        rw [if_neg hne] at ih
        simp [hlf, Option.some.inj ih]

/-- Behind `k` line feeds stands line `k`. -/
theorem getElem?_splitLines (before : List Char) (c : Char) (behind : List Char) :
    (splitLines '\n' (before ++ c :: behind))[before.count '\n']? =
      some (before.rtakeWhile (· != '\n') ++ (c :: behind).takeWhile (· != '\n')) := by
  induction before with
  | nil =>
    have hhead := head?_splitLines (c :: behind)
    rw [if_neg (List.cons_ne_nil _ _), List.head?_eq_getElem?] at hhead
    simpa using hhead
  | cons b before ih =>
    rw [List.cons_append, splitLines, rtakeWhile_cons]
    by_cases hlf : b = '\n'
    · -- a line ends in front of all that
      rw [if_pos hlf, hlf, List.count_cons_self, List.getElem?_cons_succ, ih, if_neg (by simp)]
    · rw [if_neg hlf, List.count_cons_of_ne hlf]
      cases hsplit : splitLines '\n' (before ++ c :: behind) with
      | nil =>
        rw [hsplit] at ih
        simp at ih
      | cons l ls =>
        rw [hsplit] at ih
        by_cases hall : before.all (· != '\n') = true
        · -- still on the first line
          have hzero : before.count '\n' = 0 := by
            rw [List.count_eq_zero]
            intro hmem
            have hne := List.all_eq_true.mp hall _ hmem
            simp at hne
          have hself : before.rtakeWhile (· != '\n') = before := by
            rw [List.rtakeWhile_eq_self_iff]
            exact List.all_eq_true.mp hall
          rw [if_pos ⟨hall, by simpa using hlf⟩]
          rw [hzero, List.getElem?_cons_zero] at ih ⊢
          rw [hself] at ih
          rw [Option.some.inj ih, List.cons_append]
        · -- a later line
          have hpos : before.count '\n' ≠ 0 := by
            intro hzero
            apply hall
            rw [List.all_eq_true]
            intro x hx
            have hne : x ≠ '\n' := fun h => List.count_eq_zero.mp hzero (h ▸ hx)
            simpa using hne
          obtain ⟨k, hk⟩ := Nat.exists_eq_succ_of_ne_zero hpos
          rw [if_neg fun h => hall h.1]
          rw [hk, List.getElem?_cons_succ] at ih ⊢
          exact ih

/-- The line a place lies on is the one that the line feeds before it count. -/
theorem splitLines_lineAt {s : List Char} {i : Nat} (hi : i < s.length) :
    (splitLines '\n' s)[lfBefore s i]? = some (lineAt s i) := by
  have hdrop : s.drop i = s[i] :: s.drop (i + 1) := List.drop_eq_getElem_cons hi
  have hlines := getElem?_splitLines (s.take i) s[i] (s.drop (i + 1))
  rw [← hdrop, List.take_append_drop] at hlines
  exact hlines

/-- `splitlines` has a line of that number, at least. -/
theorem lfBefore_lt_splitlines {s : List Char} {i : Nat} (hi : i < s.length) :
    lfBefore s i < (splitlines s).length := by
  have hdrop : s.drop i = s[i] :: s.drop (i + 1) := List.drop_eq_getElem_cons hi
  have hcount := count_lt_splitlines (s.take i) s[i] (s.drop (i + 1))
  rw [← hdrop, List.take_append_drop] at hcount
  exact hcount

/-! ## Section 3: Occurrences -/

/-- The matches of a literal, each from where the last one ended. The first number is
    how much of the last match is still to be passed over, the second one the place. -/
def matchesFrom (pat : List Char) : Nat → Nat → List Char → List Nat
  | _, _, [] => []
  | skip + 1, pos, _ :: cs => matchesFrom pat skip (pos + 1) cs
  | 0, pos, c :: cs =>
    if pat.isPrefixOf (c :: cs) then pos :: matchesFrom pat (pat.length - 1) (pos + 1) cs
    else matchesFrom pat 0 (pos + 1) cs

/-- `re.finditer` of a literal: where its matches start. -/
def finditer (pat s : List Char) : List Nat := matchesFrom pat 0 0 s

/-- All places where a literal stands. -/
def occurrences (pat s : List Char) : List Nat :=
  (List.range s.length).filter fun i => pat.isPrefixOf (s.drop i)

theorem mem_occurrences {pat s : List Char} {i : Nat} :
    i ∈ occurrences pat s ↔ i < s.length ∧ pat.isPrefixOf (s.drop i) = true := by
  unfold occurrences
  rw [List.mem_filter, List.mem_range]

/-- A literal whose first character does not come back in it cannot overlap itself. -/
theorem not_isPrefixOf_drop {p : Char} {ps s : List Char} (hp : p ∉ ps)
    (hmatch : (p :: ps).isPrefixOf s = true) {i : Nat} (hi : 0 < i) (hlen : i < ps.length + 1) :
    (p :: ps).isPrefixOf (s.drop i) = false := by
  rw [Bool.eq_false_iff]
  intro hagain
  obtain ⟨rest, hrest⟩ := List.isPrefixOf_iff_prefix.mp hmatch
  obtain ⟨rest', hrest'⟩ := List.isPrefixOf_iff_prefix.mp hagain
  -- what stands at that place is a character of the literal's tail
  have hget : s[i]? = some p := by
    have hhead : (s.drop i)[0]? = some p := by
      rw [← hrest']
      rfl
    simpa using hhead
  have htail : s[i]? = ps[i - 1]? := by
    obtain ⟨k, rfl⟩ := Nat.exists_eq_succ_of_ne_zero (by omega : i ≠ 0)
    rw [← hrest, List.cons_append, List.getElem?_cons_succ, List.getElem?_append_left (by omega)]
    rfl
  rw [hget] at htail
  exact hp (List.mem_of_getElem? htail.symm)

/-- Among the first places, the very first and those one further on. -/
theorem filter_range_succ (q : Nat → Bool) (n pos : Nat) :
    ((List.range (n + 1)).filter q).map (pos + ·) =
      (if q 0 then [pos] else []) ++
        ((List.range n).filter fun i => q (i + 1)).map (pos + 1 + ·) := by
  have hmap : ((List.range n).map Nat.succ).filter q =
      ((List.range n).filter fun i => q (i + 1)).map Nat.succ := by
    rw [List.filter_map]
    rfl
  have hpos : ∀ l : List Nat, (l.map Nat.succ).map (pos + ·) = l.map (pos + 1 + ·) := by
    intro l
    rw [List.map_map]
    apply List.map_congr_left
    intro i _
    show pos + (i + 1) = pos + 1 + i
    omega
  rw [List.range_succ_eq_map, List.filter_cons, hmap]
  split
  · rw [List.map_cons, hpos]
    rfl
  · rw [hpos]
    rfl

/-- From a state of the search on, the matches are the places that are not passed over. -/
theorem matchesFrom_eq {p : Char} {ps : List Char} (hp : p ∉ ps) (skip pos : Nat) (s : List Char) :
    matchesFrom (p :: ps) skip pos s =
      ((List.range s.length).filter fun i =>
        decide (skip ≤ i) && (p :: ps).isPrefixOf (s.drop i)).map (pos + ·) := by
  induction s generalizing skip pos with
  | nil => cases skip <;> rfl
  | cons c cs ih =>
    rw [List.length_cons, filter_range_succ]
    cases skip with
    | succ skip =>
      rw [matchesFrom, ih]
      simp
    | zero =>
      rw [matchesFrom]
      by_cases hmatch : (p :: ps).isPrefixOf (c :: cs) = true
      · -- what the search passes over holds no other match
        rw [if_pos hmatch, ih, List.length_cons, Nat.add_sub_cancel]
        have hskip : (List.range cs.length).filter (fun i =>
              decide (ps.length ≤ i) && (p :: ps).isPrefixOf (cs.drop i)) =
            (List.range cs.length).filter fun i => (p :: ps).isPrefixOf (cs.drop i) := by
          apply List.filter_congr
          intro i _
          by_cases hi : ps.length ≤ i
          · simp [hi]
          · have hno := not_isPrefixOf_drop hp hmatch (i := i + 1) (by omega) (by omega)
            rw [List.drop_succ_cons] at hno
            rw [hno, Bool.and_false]
        rw [hskip]
        simp [hmatch]
      · rw [if_neg hmatch, ih]
        simp [hmatch]

/-- The search finds every place where such a literal stands. -/
theorem finditer_eq {p : Char} {ps : List Char} (hp : p ∉ ps) (s : List Char) :
    finditer (p :: ps) s = occurrences (p :: ps) s := by
  unfold finditer occurrences
  rw [matchesFrom_eq hp]
  simp

end PyText
