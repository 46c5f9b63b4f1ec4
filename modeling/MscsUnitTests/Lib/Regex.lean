import Mathlib.Data.List.TakeWhile

/-! # Regular Expressions That Backtrack

    Regular expressions as a backtracking matcher runs them, with loops over single
    characters only.

    * `Re.runs`: all ways to match at a place, in the order in which they are tried.
    * `Re.Reads`: what an expression reads, without any order.
    * `mem_runs`: the matcher tries just what the expression reads.
    * `Re.finditer`, `Re.findall`: the matches from the left, each behind the one before.
      The expressions are such that no match is empty.
    * `Re.search`: whether there is a match anywhere.
-/

namespace Regex

/-! ## Section 1: Expressions -/

inductive Re where
  | lit (s : List Char)
  /-- A character of a class. -/
  | one (p : Char → Bool)
  /-- Characters of a class, as many as there are before fewer. -/
  | many (p : Char → Bool)
  | seq (r s : Re)
  /-- The left side before the right one. -/
  | alt (r s : Re)
  | group (r : Re)
  /-- A word character on exactly one side. -/
  | edge (word : Char → Bool)
  /-- The beginning of a line. -/
  | lineStart

/-- A place in a text: the character before it, and all that is behind it. -/
structure Place where
  prev : Option Char
  rest : List Char

/-- The character before a place that is reached by reading `u`. -/
def lastOf (prev : Option Char) (u : List Char) : Option Char :=
  u.getLast?.or prev

@[simp] theorem lastOf_nil (prev : Option Char) : lastOf prev [] = prev := rfl

theorem lastOf_append (prev : Option Char) (u v : List Char) :
    lastOf prev (u ++ v) = lastOf (lastOf prev u) v := by
  unfold lastOf
  rw [List.getLast?_append]
  exact Option.or_assoc

theorem lastOf_cons (prev : Option Char) (c : Char) (u : List Char) :
    lastOf prev (c :: u) = lastOf (some c) u :=
  lastOf_append prev [c] u

/-- **What an expression reads**: `u`, with `prev` before it and `rest` behind it; the
    groups are what was read by the parts of it that are to be remembered. -/
def Re.Reads : Re → Option Char → List Char → List Char → List (List Char) → Prop
  | .lit s, _, u, _, groups => u = s ∧ groups = []
  | .one p, _, u, _, groups => (∃ c, u = [c] ∧ p c = true) ∧ groups = []
  | .many p, _, u, _, groups => (∀ c ∈ u, p c = true) ∧ groups = []
  | .seq r s, prev, u, rest, groups => ∃ u₁ u₂ g₁ g₂, u = u₁ ++ u₂ ∧ groups = g₁ ++ g₂ ∧
      r.Reads prev u₁ (u₂ ++ rest) g₁ ∧ s.Reads (lastOf prev u₁) u₂ rest g₂
  | .alt r s, prev, u, rest, groups => r.Reads prev u rest groups ∨ s.Reads prev u rest groups
  | .group r, prev, u, rest, groups => ∃ inner, groups = u :: inner ∧ r.Reads prev u rest inner
  | .edge word, prev, u, rest, groups =>
      (u = [] ∧ groups = []) ∧ prev.any word ≠ rest.head?.any word
  | .lineStart, prev, u, _, groups => (u = [] ∧ groups = []) ∧ prev.all (· == '\n') = true

section reads
variable (r t : Re) (s : List Char) (p : Char → Bool) (prev : Option Char) (u rest : List Char)
  (groups : List (List Char))

theorem reads_lit : (Re.lit s).Reads prev u rest groups ↔ u = s ∧ groups = [] := Iff.rfl

theorem reads_one : (Re.one p).Reads prev u rest groups ↔
    (∃ c, u = [c] ∧ p c = true) ∧ groups = [] := Iff.rfl

theorem reads_many : (Re.many p).Reads prev u rest groups ↔
    (∀ c ∈ u, p c = true) ∧ groups = [] := Iff.rfl

theorem reads_seq : (Re.seq r t).Reads prev u rest groups ↔
    ∃ u₁ u₂ g₁ g₂, u = u₁ ++ u₂ ∧ groups = g₁ ++ g₂ ∧
      r.Reads prev u₁ (u₂ ++ rest) g₁ ∧ t.Reads (lastOf prev u₁) u₂ rest g₂ := Iff.rfl

theorem reads_alt : (Re.alt r t).Reads prev u rest groups ↔
    r.Reads prev u rest groups ∨ t.Reads prev u rest groups := Iff.rfl

theorem reads_group : (Re.group r).Reads prev u rest groups ↔
    ∃ inner, groups = u :: inner ∧ r.Reads prev u rest inner := Iff.rfl

theorem reads_edge : (Re.edge p).Reads prev u rest groups ↔
    (u = [] ∧ groups = []) ∧ prev.any p ≠ rest.head?.any p := Iff.rfl

theorem reads_lineStart : Re.lineStart.Reads prev u rest groups ↔
    (u = [] ∧ groups = []) ∧ prev.all (· == '\n') = true := Iff.rfl

end reads

/-! ## Section 2: The matcher -/

/-- A way to match: how much is read, and the groups. -/
structure Run where
  len : Nat
  groups : List (List Char)

/-- The place behind `k` characters. -/
def Place.advance (q : Place) (k : Nat) : Place :=
  ⟨lastOf q.prev (q.rest.take k), q.rest.drop k⟩

/-- How much a loop reads, from the most to nothing. -/
def manyLens (p : Char → Bool) (l : List Char) : List Nat :=
  (List.range ((l.takeWhile p).length + 1)).reverse

/-- **The matcher**: all runs at a place, in the order in which they are tried. -/
def Re.runs : Re → Place → List Run
  | .lit s, q => if s.isPrefixOf q.rest then [⟨s.length, []⟩] else []
  | .one p, q => if q.rest.head?.any p then [⟨1, []⟩] else []
  | .many p, q => (manyLens p q.rest).map fun k => ⟨k, []⟩
  | .seq r s, q => (r.runs q).flatMap fun m =>
      (s.runs (q.advance m.len)).map fun m' => ⟨m.len + m'.len, m.groups ++ m'.groups⟩
  | .alt r s, q => r.runs q ++ s.runs q
  | .group r, q => (r.runs q).map fun m => ⟨m.len, q.rest.take m.len :: m.groups⟩
  | .edge word, q => if q.prev.any word != q.rest.head?.any word then [⟨0, []⟩] else []
  | .lineStart, q => if q.prev.all (· == '\n') then [⟨0, []⟩] else []

section runs
variable (r t : Re) (s : List Char) (p : Char → Bool) (q : Place)

theorem runs_lit : (Re.lit s).runs q = if s.isPrefixOf q.rest then [⟨s.length, []⟩] else [] := rfl

theorem runs_one : (Re.one p).runs q = if q.rest.head?.any p then [⟨1, []⟩] else [] := rfl

theorem runs_many : (Re.many p).runs q = (manyLens p q.rest).map fun k => ⟨k, []⟩ := rfl

theorem runs_seq : (Re.seq r t).runs q = (r.runs q).flatMap fun m =>
    (t.runs (q.advance m.len)).map fun m' => ⟨m.len + m'.len, m.groups ++ m'.groups⟩ := rfl

theorem runs_alt : (Re.alt r t).runs q = r.runs q ++ t.runs q := rfl

theorem runs_group : (Re.group r).runs q =
    (r.runs q).map fun m => ⟨m.len, q.rest.take m.len :: m.groups⟩ := rfl

theorem runs_edge : (Re.edge p).runs q =
    if q.prev.any p != q.rest.head?.any p then [⟨0, []⟩] else [] := rfl

theorem runs_lineStart : Re.lineStart.runs q =
    if q.prev.all (· == '\n') then [⟨0, []⟩] else [] := rfl

end runs

theorem mem_manyLens {p : Char → Bool} {l : List Char} {k : Nat} :
    k ∈ manyLens p l ↔ k ≤ l.length ∧ ∀ c ∈ l.take k, p c = true := by
  unfold manyLens
  rw [List.mem_reverse, List.mem_range]
  constructor
  · intro hk
    have hle : k ≤ (l.takeWhile p).length := by omega
    have hpre := List.takeWhile_prefix (l := l) p
    refine ⟨Nat.le_trans hle hpre.length_le, ?_⟩
    intro c hc
    have htake : l.take k = (l.takeWhile p).take k := by
      obtain ⟨t, ht⟩ := hpre
      calc l.take k = (l.takeWhile p ++ t).take k := by rw [ht]
        _ = (l.takeWhile p).take k := List.take_append_of_le_length hle
    rw [htake] at hc
    exact List.mem_takeWhile_imp (List.mem_of_mem_take hc)
  · rintro ⟨hk, hall⟩
    have hwhole : (l.take k).takeWhile p = l.take k :=
      List.takeWhile_eq_self_iff.mpr hall
    have hsplit : l.takeWhile p = l.take k ++ (l.drop k).takeWhile p := by
      calc l.takeWhile p = (l.take k ++ l.drop k).takeWhile p := by rw [List.take_append_drop]
        _ = l.take k ++ (l.drop k).takeWhile p := by
          rw [List.takeWhile_append, hwhole, if_pos rfl]
    rw [hsplit, List.length_append, List.length_take]
    omega

theorem mem_guard {α : Type} {c : Prop} [Decidable c] {x m : α} :
    m ∈ (if c then [x] else []) ↔ c ∧ m = x := by
  by_cases h : c
  · simp [h]
  · simp [h]

/-- A run is fixed by how much it reads and its groups. -/
theorem run_eq {m : Run} {k : Nat} {groups : List (List Char)} (hlen : m.len = k)
    (hgroups : m.groups = groups) : m = ⟨k, groups⟩ := by
  cases m
  cases hlen
  cases hgroups
  rfl

theorem take_eq_nil {α : Type} {l : List α} {k : Nat} (hk : k ≤ l.length) (h : l.take k = []) :
    k = 0 := by
  have hlen := congrArg List.length h
  rw [List.length_take, List.length_nil] at hlen
  omega

/-- A beginning in two parts: the first is as long as what it reads. -/
theorem take_eq_append {α : Type} {l u₁ u₂ : List α} {k : Nat} (hk : k ≤ l.length)
    (h : l.take k = u₁ ++ u₂) :
    k = u₁.length + u₂.length ∧ l.take u₁.length = u₁ ∧
      l.drop u₁.length = u₂ ++ l.drop k := by
  have hrest : l = u₁ ++ (u₂ ++ l.drop k) := by
    rw [← List.append_assoc, ← h, List.take_append_drop]
  refine ⟨?_, ?_, ?_⟩
  · rw [← List.length_append, ← h, List.length_take]
    omega
  · rw [hrest]
    exact List.take_left
  · calc l.drop u₁.length = (u₁ ++ (u₂ ++ l.drop k)).drop u₁.length := by rw [← hrest]
      _ = u₂ ++ l.drop k := List.drop_left

/-- **The matcher tries what the expression reads**, and nothing else. -/
theorem mem_runs {r : Re} {q : Place} {m : Run} :
    m ∈ r.runs q ↔ m.len ≤ q.rest.length ∧
      r.Reads q.prev (q.rest.take m.len) (q.rest.drop m.len) m.groups := by
  induction r generalizing q m with
  | lit s =>
    simp only [runs_lit, reads_lit, mem_guard, List.isPrefixOf_iff_prefix]
    constructor
    · rintro ⟨hpre, rfl⟩
      exact ⟨hpre.length_le, (List.prefix_iff_eq_take.mp hpre).symm, rfl⟩
    · rintro ⟨hle, hs, hg⟩
      have hlen : m.len = s.length := by
        have hcount := congrArg List.length hs
        rw [List.length_take] at hcount
        omega
      exact ⟨hs ▸ List.take_prefix _ _, run_eq hlen hg⟩
  | one p =>
    simp only [runs_one, reads_one, mem_guard]
    constructor
    · rintro ⟨hhead, rfl⟩
      cases hrest : q.rest with
      | nil => simp [hrest] at hhead
      | cons c l =>
        rw [hrest] at hhead
        exact ⟨by simp, ⟨c, rfl, hhead⟩, rfl⟩
    · rintro ⟨hle, ⟨c, hc, hp⟩, hg⟩
      have hlen : m.len = 1 := by
        have hcount := congrArg List.length hc
        rw [List.length_take, List.length_singleton] at hcount
        omega
      refine ⟨?_, run_eq hlen hg⟩
      rw [hlen] at hc
      cases hrest : q.rest with
      | nil => simp [hrest] at hc
      | cons b l =>
        rw [hrest, List.take_succ_cons, List.take_zero, List.singleton_inj] at hc
        rw [hc]
        exact hp
  | many p =>
    simp only [runs_many, reads_many, List.mem_map]
    constructor
    · rintro ⟨k, hk, rfl⟩
      exact ⟨(mem_manyLens.mp hk).1, (mem_manyLens.mp hk).2, rfl⟩
    · rintro ⟨hle, hall, hg⟩
      exact ⟨m.len, mem_manyLens.mpr ⟨hle, hall⟩, (run_eq rfl hg).symm⟩
  | seq r s ihr ihs =>
    simp only [runs_seq, reads_seq, List.mem_flatMap, List.mem_map, ihr, ihs]
    unfold Place.advance
    constructor
    · rintro ⟨m₁, ⟨hle₁, hreads₁⟩, m₂, ⟨hle₂, hreads₂⟩, rfl⟩
      dsimp only at hle₂ hreads₂ ⊢
      rw [List.length_drop] at hle₂
      refine ⟨by omega, _, _, m₁.groups, m₂.groups, List.take_add, rfl, ?_, ?_⟩
      · rw [← List.drop_drop, List.take_append_drop]
        exact hreads₁
      · rw [← List.drop_drop]
        exact hreads₂
    · rintro ⟨hle, u₁, u₂, g₁, g₂, hu, hg, hreads₁, hreads₂⟩
      obtain ⟨hlen, htake₁, hdrop₁⟩ := take_eq_append hle hu
      refine ⟨⟨u₁.length, g₁⟩, ⟨?_, ?_⟩, ⟨u₂.length, g₂⟩, ⟨?_, ?_⟩, (run_eq hlen hg).symm⟩
      · exact Nat.le_trans (hlen ▸ Nat.le_add_right _ _) hle
      · rw [htake₁, hdrop₁]
        exact hreads₁
      · rw [hdrop₁, List.length_append]
        exact Nat.le_add_right _ _
      · rw [htake₁, hdrop₁, List.take_left, List.drop_left]
        exact hreads₂
  | alt r s ihr ihs =>
    simp only [runs_alt, reads_alt, List.mem_append, ihr, ihs]
    exact and_or_left.symm
  | group r ih =>
    simp only [runs_group, reads_group, List.mem_map]
    constructor
    · rintro ⟨inner, hinner, rfl⟩
      obtain ⟨hle, hreads⟩ := ih.mp hinner
      exact ⟨hle, inner.groups, rfl, hreads⟩
    · rintro ⟨hle, groups, hg, hreads⟩
      exact ⟨⟨m.len, groups⟩, ih.mpr ⟨hle, hreads⟩, (run_eq rfl hg).symm⟩
  | edge word =>
    simp only [runs_edge, reads_edge, mem_guard, bne_iff_ne]
    constructor
    · rintro ⟨hedge, rfl⟩
      exact ⟨Nat.zero_le _, ⟨rfl, rfl⟩, hedge⟩
    · rintro ⟨hle, ⟨hu, hg⟩, hedge⟩
      have hlen := take_eq_nil hle hu
      rw [hlen] at hedge
      exact ⟨hedge, run_eq hlen hg⟩
  | lineStart =>
    simp only [runs_lineStart, reads_lineStart, mem_guard]
    constructor
    · rintro ⟨hstart, rfl⟩
      exact ⟨Nat.zero_le _, ⟨rfl, rfl⟩, hstart⟩
    · rintro ⟨hle, ⟨hu, hg⟩, hstart⟩
      exact ⟨hstart, run_eq (take_eq_nil hle hu) hg⟩

/-- The run that reads `u`. -/
theorem mem_runs_append {r : Re} {prev : Option Char} {u rest : List Char}
    {groups : List (List Char)} :
    (⟨u.length, groups⟩ : Run) ∈ r.runs ⟨prev, u ++ rest⟩ ↔ r.Reads prev u rest groups := by
  rw [mem_runs]
  dsimp only
  rw [List.take_left, List.drop_left, List.length_append]
  exact and_iff_right (Nat.le_add_right _ _)

/-! ## Section 3: Loops and sequences -/

@[simp] theorem Place.advance_zero (q : Place) : q.advance 0 = q := rfl

theorem Place.advance_append (prev : Option Char) (u l : List Char) :
    (⟨prev, u ++ l⟩ : Place).advance u.length = ⟨lastOf prev u, l⟩ := by
  unfold Place.advance
  dsimp only
  rw [List.take_left, List.drop_left]

theorem Place.advance_succ (prev : Option Char) (c : Char) (l : List Char) (k : Nat) :
    (⟨prev, c :: l⟩ : Place).advance (k + 1) = (⟨some c, l⟩ : Place).advance k := by
  unfold Place.advance
  dsimp only
  rw [List.take_succ_cons, List.drop_succ_cons, lastOf_cons]

/-- The same run with `k` characters before it. -/
def Run.shift (k : Nat) (m : Run) : Run := ⟨k + m.len, m.groups⟩

theorem runs_lit_seq (prev : Option Char) (s l : List Char) (r : Re) :
    (Re.seq (.lit s) r).runs ⟨prev, s ++ l⟩ =
      (r.runs ⟨lastOf prev s, l⟩).map (Run.shift s.length) := by
  have hpre : s.isPrefixOf (s ++ l) = true :=
    List.isPrefixOf_iff_prefix.mpr (List.prefix_append s l)
  simp only [runs_seq, runs_lit, if_pos hpre, List.flatMap_singleton, Place.advance_append]
  rfl

/-- What begins with another character is not read. -/
theorem runs_lit_ne {prev : Option Char} {x c : Char} {s l : List Char} (h : x ≠ c) :
    (Re.lit (x :: s)).runs ⟨prev, c :: l⟩ = [] := by
  simp [runs_lit, List.isPrefixOf, h]

theorem runs_seq_eq_nil {r s : Re} {q : Place} (h : r.runs q = []) : (Re.seq r s).runs q = [] := by
  simp [runs_seq, h]

theorem runs_lineStart_seq {q : Place} (r : Re) :
    (Re.seq .lineStart r).runs q = if q.prev.all (· == '\n') then r.runs q else [] := by
  simp only [runs_seq, runs_lineStart]
  split
  · simp
  · rfl

/-- The place behind the longest run of a class. -/
def Place.skip (q : Place) (p : Char → Bool) : Place :=
  q.advance (q.rest.takeWhile p).length

/-- The longest run of a loop comes first. -/
theorem manyLens_eq (p : Char → Bool) (l : List Char) :
    manyLens p l = (l.takeWhile p).length :: (List.range (l.takeWhile p).length).reverse := by
  unfold manyLens
  rw [List.range_succ, List.reverse_append]
  rfl

/-- A loop with something behind it: what goes on where the loop has read all it can
    comes first. -/
theorem runs_many_seq_eq (p : Char → Bool) (s : Re) (q : Place) :
    (Re.seq (.many p) s).runs q =
      (s.runs (q.skip p)).map (Run.shift (q.rest.takeWhile p).length) ++
        (List.range (q.rest.takeWhile p).length).reverse.flatMap fun k =>
          (s.runs (q.advance k)).map (Run.shift k) := by
  simp only [runs_seq, runs_many, manyLens_eq, List.map_cons, List.flatMap_cons, List.flatMap_map,
    List.nil_append]
  rfl

/-- What cannot begin with a character of the class only can go on there. -/
theorem runs_many_seq {p : Char → Bool} {s : Re} {q : Place}
    (hs : ∀ prev c l, p c = true → s.runs ⟨prev, c :: l⟩ = []) :
    (Re.seq (.many p) s).runs q =
      (s.runs (q.skip p)).map (Run.shift (q.rest.takeWhile p).length) := by
  rw [runs_many_seq_eq, List.append_right_eq_self, List.flatMap_eq_nil_iff]
  intro k hk
  rw [List.mem_reverse, List.mem_range] at hk
  -- a shorter run leaves a character of the class
  have hpre := List.takeWhile_prefix (l := q.rest) p
  have hlt : k < q.rest.length := Nat.lt_of_lt_of_le hk hpre.length_le
  have hchar : p q.rest[k] = true := by
    rw [← hpre.getElem hk]
    exact List.mem_takeWhile_imp (List.getElem_mem hk)
  unfold Place.advance
  rw [List.drop_eq_getElem_cons hlt, hs _ _ _ hchar]
  rfl

/-- The first run of a sequence goes on behind the first run of its first part, if it can
    go on there. -/
theorem head?_seq {r s : Re} {prev : Option Char} {u l : List Char} {groups : List (List Char)}
    {m : Run} (hr : (r.runs ⟨prev, u ++ l⟩).head? = some ⟨u.length, groups⟩)
    (hs : (s.runs ⟨lastOf prev u, l⟩).head? = some m) :
    ((Re.seq r s).runs ⟨prev, u ++ l⟩).head? = some ⟨u.length + m.len, groups ++ m.groups⟩ := by
  obtain ⟨ms, hms⟩ := List.head?_eq_some_iff.mp hr
  simp only [runs_seq, hms, List.flatMap_cons, List.head?_append, List.head?_map,
    Place.advance_append, hs]
  rfl

theorem head?_one {p : Char → Bool} {c : Char} (prev : Option Char) (l : List Char)
    (hc : p c = true) : ((Re.one p).runs ⟨prev, [c] ++ l⟩).head? = some ⟨1, []⟩ := by
  simp [runs_one, hc]

theorem head?_lit (prev : Option Char) (s l : List Char) :
    ((Re.lit s).runs ⟨prev, s ++ l⟩).head? = some ⟨s.length, []⟩ := by
  have hpre : s.isPrefixOf (s ++ l) = true :=
    List.isPrefixOf_iff_prefix.mpr (List.prefix_append s l)
  simp only [runs_lit, if_pos hpre]
  rfl

/-- A loop reads all it can. -/
theorem head?_many {p : Char → Bool} {u l : List Char} (prev : Option Char)
    (hu : ∀ c ∈ u, p c = true) (hl : l.head?.any p = false) :
    ((Re.many p).runs ⟨prev, u ++ l⟩).head? = some ⟨u.length, []⟩ := by
  have hspan : (u ++ l).takeWhile p = u := by
    rw [List.takeWhile_append_of_pos hu]
    cases l with
    | nil => exact List.append_nil u
    | cons c l => rw [List.takeWhile_cons_of_neg (by simpa using hl), List.append_nil]
  simp only [runs_many, manyLens_eq, hspan]
  rfl

theorem head?_group {r : Re} {prev : Option Char} {u l : List Char}
    (h : (r.runs ⟨prev, u ++ l⟩).head? = some ⟨u.length, []⟩) :
    ((Re.group r).runs ⟨prev, u ++ l⟩).head? = some ⟨u.length, [u]⟩ := by
  simp only [runs_group, List.head?_map, h, Option.map_some]
  rw [List.take_left]

/-- Nothing to read for the loop. -/
theorem runs_many_seq_of_not {p : Char → Bool} {prev : Option Char} {l : List Char} (s : Re)
    (h : l.head?.any p = false) : (Re.seq (.many p) s).runs ⟨prev, l⟩ = s.runs ⟨prev, l⟩ := by
  have hnone : l.takeWhile p = [] := by
    cases l with
    | nil => rfl
    | cons c l => exact List.takeWhile_cons_of_neg (by simpa using h)
  have hshift : Run.shift 0 = id := by
    funext m
    unfold Run.shift
    rw [Nat.zero_add]
    rfl
  rw [runs_many_seq_eq]
  unfold Place.skip
  dsimp only
  rw [hnone]
  simp [hshift]

/-- A character for the loop. -/
theorem runs_many_seq_cons {p : Char → Bool} {s : Re}
    (hs : ∀ prev c l, p c = true → s.runs ⟨prev, c :: l⟩ = []) {prev : Option Char} {c : Char}
    {l : List Char} (hc : p c = true) :
    (Re.seq (.many p) s).runs ⟨prev, c :: l⟩ =
      ((Re.seq (.many p) s).runs ⟨some c, l⟩).map (Run.shift 1) := by
  have hskip : (⟨prev, c :: l⟩ : Place).skip p = (⟨some c, l⟩ : Place).skip p := by
    unfold Place.skip
    dsimp only
    rw [List.takeWhile_cons_of_pos hc, List.length_cons, Place.advance_succ]
  rw [runs_many_seq hs, runs_many_seq hs, hskip, List.map_map]
  congr 1
  funext m
  unfold Run.shift
  dsimp only [Function.comp_apply]
  rw [List.takeWhile_cons_of_pos hc, List.length_cons, Nat.add_comm _ 1, Nat.add_assoc]

/-- No part of the expression reads the character. -/
def Re.Avoids (c : Char) : Re → Prop
  | .lit s => c ∉ s
  | .one p | .many p => p c = false
  | .seq r s | .alt r s => r.Avoids c ∧ s.Avoids c
  | .group r => r.Avoids c
  | .edge _ | .lineStart => True

theorem Re.Avoids.not_mem {c : Char} {r : Re} (h : r.Avoids c) {prev : Option Char}
    {u rest : List Char} {groups : List (List Char)} (hreads : r.Reads prev u rest groups) :
    c ∉ u := by
  induction r generalizing prev u rest groups with
  | lit s =>
    rw [hreads.1]
    exact h
  | one p =>
    obtain ⟨⟨b, rfl, hb⟩, -⟩ := hreads
    rintro hmem
    cases List.mem_singleton.mp hmem
    rw [show p c = false from h] at hb
    cases hb
  | many p =>
    intro hmem
    have hc := hreads.1 c hmem
    rw [show p c = false from h] at hc
    cases hc
  | seq r s ihr ihs =>
    obtain ⟨u₁, u₂, g₁, g₂, rfl, -, hr, hs⟩ := hreads
    rw [List.mem_append, not_or]
    exact ⟨ihr h.1 hr, ihs h.2 hs⟩
  | alt r s ihr ihs =>
    rcases hreads with hr | hs
    · exact ihr h.1 hr
    · exact ihs h.2 hs
  | group r ih =>
    obtain ⟨inner, -, hr⟩ := hreads
    exact ih h hr
  | edge word =>
    rw [hreads.1.1]
    exact List.not_mem_nil
  | lineStart =>
    rw [hreads.1.1]
    exact List.not_mem_nil

/-! ## Section 4: Matches -/

/-- A match: where it begins, and its groups. -/
structure Match where
  start : Nat
  groups : List (List Char)

/-- The matches from a place on, when the next `skip` characters belong to the last one. -/
def Re.scan (r : Re) : Nat → Nat → Option Char → List Char → List Match
  | _, _, _, [] => []
  | skip + 1, pos, _, c :: l => r.scan skip (pos + 1) (some c) l
  | 0, pos, prev, c :: l =>
    match (r.runs ⟨prev, c :: l⟩).head? with
    | some m => ⟨pos, m.groups⟩ :: r.scan (m.len - 1) (pos + 1) (some c) l
    | none => r.scan 0 (pos + 1) (some c) l

/-- `re.finditer`. -/
def Re.finditer (r : Re) (s : List Char) : List Match :=
  r.scan 0 0 none s

/-- `re.findall` of an expression with one group. -/
def Re.findall (r : Re) (s : List Char) : List (List Char) :=
  (r.finditer s).map fun m => m.groups.headD []

section scan
variable {r : Re} {pos : Nat} {prev : Option Char}

theorem scan_nil (skip : Nat) : r.scan skip pos prev [] = [] := by
  cases skip <;> rfl

theorem scan_succ (skip : Nat) (c : Char) (l : List Char) :
    r.scan (skip + 1) pos prev (c :: l) = r.scan skip (pos + 1) (some c) l := rfl

theorem scan_zero (c : Char) (l : List Char) :
    r.scan 0 pos prev (c :: l) =
      match (r.runs ⟨prev, c :: l⟩).head? with
      | some m => ⟨pos, m.groups⟩ :: r.scan (m.len - 1) (pos + 1) (some c) l
      | none => r.scan 0 (pos + 1) (some c) l := rfl

theorem scan_skip (u rest : List Char) :
    r.scan u.length pos prev (u ++ rest) = r.scan 0 (pos + u.length) (lastOf prev u) rest := by
  induction u generalizing pos prev with
  | nil => rfl
  | cons c u ih =>
    rw [List.length_cons, List.cons_append, scan_succ, ih, lastOf_cons, Nat.add_assoc,
      Nat.add_comm 1]

/-- Behind a match the search goes on where it ends. -/
theorem scan_of_run {u rest : List Char} {groups : List (List Char)} (hu : u ≠ [])
    (h : (r.runs ⟨prev, u ++ rest⟩).head? = some ⟨u.length, groups⟩) :
    r.scan 0 pos prev (u ++ rest) =
      ⟨pos, groups⟩ :: r.scan 0 (pos + u.length) (lastOf prev u) rest := by
  cases u with
  | nil => exact absurd rfl hu
  | cons c u =>
    rw [List.cons_append] at h ⊢
    rw [scan_zero, h, lastOf_cons]
    dsimp only
    rw [List.length_cons, Nat.add_sub_cancel, scan_skip, Nat.add_assoc, Nat.add_comm 1]

theorem scan_of_no_run {c : Char} {l : List Char} (h : r.runs ⟨prev, c :: l⟩ = []) :
    r.scan 0 pos prev (c :: l) = r.scan 0 (pos + 1) (some c) l := by
  rw [scan_zero, h]
  rfl

/-- What has no run of its own is passed over. -/
theorem scan_over {b l : List Char}
    (h : ∀ b₁ b₂, b = b₁ ++ b₂ → b₂ ≠ [] → r.runs ⟨lastOf prev b₁, b₂ ++ l⟩ = []) :
    r.scan 0 pos prev (b ++ l) = r.scan 0 (pos + b.length) (lastOf prev b) l := by
  induction b generalizing pos prev with
  | nil => rfl
  | cons c b ih =>
    have hhere := h [] (c :: b) rfl (by simp)
    rw [lastOf_nil, List.cons_append] at hhere
    rw [List.cons_append, scan_of_no_run hhere, ih, lastOf_cons, List.length_cons]
    · congr 1
      omega
    · intro b₁ b₂ hb hne
      rw [← lastOf_cons]
      exact h (c :: b₁) b₂ (by rw [hb, List.cons_append]) hne

/-- A match is a run where it begins. -/
theorem run_of_mem_scan {skip : Nat} {l : List Char} {m : Match} (h : m ∈ r.scan skip pos prev l) :
    ∃ i, m.start = pos + i ∧ i < l.length ∧
      ∃ run ∈ r.runs ((⟨prev, l⟩ : Place).advance i), run.groups = m.groups := by
  induction l generalizing skip pos prev with
  | nil =>
    rw [scan_nil] at h
    cases h
  | cons c l ih =>
    have hlater : ∀ {skip : Nat}, m ∈ r.scan skip (pos + 1) (some c) l →
        ∃ i, m.start = pos + i ∧ i < (c :: l).length ∧
          ∃ run ∈ r.runs ((⟨prev, c :: l⟩ : Place).advance i), run.groups = m.groups := by
      intro skip hmem
      obtain ⟨i, hstart, hi, run, hrun, hgroups⟩ := ih hmem
      refine ⟨i + 1, by omega, Nat.succ_lt_succ hi, run, ?_, hgroups⟩
      rw [Place.advance_succ]
      exact hrun
    cases skip with
    | succ skip =>
      rw [scan_succ] at h
      exact hlater h
    | zero =>
      rw [scan_zero] at h
      split at h
      · next run hrun =>
        rcases List.mem_cons.mp h with rfl | h
        · exact ⟨0, rfl, Nat.succ_pos _, run, List.mem_of_head? hrun, rfl⟩
        · exact hlater h
      · exact hlater h

/-- The matches come in the order in which they begin. -/
theorem scan_pairwise (skip : Nat) (l : List Char) :
    (r.scan skip pos prev l).Pairwise fun m m' => m.start < m'.start := by
  induction l generalizing skip pos prev with
  | nil =>
    rw [scan_nil]
    exact List.Pairwise.nil
  | cons c l ih =>
    cases skip with
    | succ skip =>
      rw [scan_succ]
      exact ih _
    | zero =>
      rw [scan_zero]
      split
      · refine List.Pairwise.cons ?_ (ih _)
        intro m hm
        obtain ⟨i, hstart, -⟩ := run_of_mem_scan hm
        dsimp only
        omega
      · exact ih _

theorem mem_scan {skip i : Nat} {l : List Char} {m : Run} (hskip : skip ≤ i)
    (hm : (r.runs ((⟨prev, l⟩ : Place).advance i)).head? = some m) (hi : i < l.length)
    (hfree : ∀ j < i, ∀ m' ∈ r.runs ((⟨prev, l⟩ : Place).advance j), j + m'.len ≤ i) :
    ⟨pos + i, m.groups⟩ ∈ r.scan skip pos prev l := by
  induction l generalizing skip pos prev i with
  | nil => exact absurd hi (Nat.not_lt_zero _)
  | cons c l ih =>
    cases i with
    | zero =>
      cases Nat.le_zero.mp hskip
      have hhere : (r.runs ⟨prev, c :: l⟩).head? = some m := hm
      rw [scan_zero, hhere]
      exact List.mem_cons_self
    | succ i =>
      rw [Place.advance_succ] at hm
      have hlen : i < l.length := Nat.lt_of_succ_lt_succ hi
      have hbehind : ∀ j < i, ∀ m' ∈ r.runs ((⟨some c, l⟩ : Place).advance j),
          j + m'.len ≤ i := by
        intro j hj m' hm'
        have hle := hfree (j + 1) (Nat.succ_lt_succ hj) m' (by rwa [Place.advance_succ])
        omega
      have hpos : pos + (i + 1) = pos + 1 + i := by omega
      rw [hpos]
      cases skip with
      | succ skip =>
        rw [scan_succ]
        exact ih (Nat.le_of_succ_le_succ hskip) hm hlen hbehind
      | zero =>
        rw [scan_zero]
        split
        · next m' hhere =>
          have hle := hfree 0 (Nat.succ_pos i) m' (List.mem_of_head? hhere)
          exact List.mem_cons_of_mem _ (ih (by omega) hm hlen hbehind)
        · exact ih (Nat.zero_le _) hm hlen hbehind

/-- **A run that no earlier run reaches into is a match.** -/
theorem mem_finditer {s : List Char} {i : Nat} {m : Run}
    (hm : (r.runs ((⟨none, s⟩ : Place).advance i)).head? = some m) (hi : i < s.length)
    (hfree : ∀ j < i, ∀ m' ∈ r.runs ((⟨none, s⟩ : Place).advance j), j + m'.len ≤ i) :
    ⟨i, m.groups⟩ ∈ r.finditer s := by
  have hmem : ⟨0 + i, m.groups⟩ ∈ r.finditer s := mem_scan (Nat.zero_le i) hm hi hfree
  rwa [Nat.zero_add] at hmem

end scan

/-! ## Section 5: Searching -/

/-- There is a match somewhere in the text. -/
def Re.search (r : Re) (s : List Char) : Bool :=
  (List.range (s.length + 1)).any fun i => !(r.runs ((⟨none, s⟩ : Place).advance i)).isEmpty

/-- **The search finds what the expression reads**, wherever it stands. -/
theorem search_iff {r : Re} {s : List Char} : r.search s = true ↔
    ∃ before u rest groups, s = before ++ (u ++ rest) ∧ r.Reads (lastOf none before) u rest groups := by
  unfold Re.search
  rw [List.any_eq_true]
  constructor
  · intro ⟨i, _, hne⟩
    cases hruns : r.runs ((⟨none, s⟩ : Place).advance i) with
    | nil =>
      rw [hruns] at hne
      cases hne
    | cons m ms =>
      have hmem : m ∈ r.runs ((⟨none, s⟩ : Place).advance i) := by
        rw [hruns]
        exact List.mem_cons_self
      obtain ⟨_, hreads⟩ := mem_runs.mp hmem
      refine ⟨s.take i, (s.drop i).take m.len, (s.drop i).drop m.len, m.groups, ?_, hreads⟩
      rw [List.take_append_drop, List.take_append_drop]
  · intro ⟨before, u, rest, groups, hs, hreads⟩
    refine ⟨before.length, ?_, ?_⟩
    · rw [List.mem_range, hs, List.length_append]
      omega
    · have hmem := mem_runs_append.mpr hreads
      rw [hs, Place.advance_append]
      cases hruns : r.runs ⟨lastOf none before, u ++ rest⟩ with
      | nil =>
        rw [hruns] at hmem
        cases hmem
      | cons m ms => rfl

/-- A literal is searched for as such. -/
theorem search_lit {t s : List Char} : (Re.lit t).search s = true ↔ t <:+: s := by
  rw [search_iff]
  constructor
  · intro ⟨before, u, rest, groups, hs, hu, _⟩
    exact ⟨before, rest, by rw [hs, hu, List.append_assoc]⟩
  · intro ⟨before, rest, hs⟩
    exact ⟨before, t, rest, [], by rw [← hs, List.append_assoc], rfl, rfl⟩

theorem search_alt {r t : Re} {s : List Char} :
    (Re.alt r t).search s = true ↔ r.search s = true ∨ t.search s = true := by
  rw [search_iff, search_iff, search_iff]
  constructor
  · intro ⟨before, u, rest, groups, hs, hreads⟩
    rcases hreads with hreads | hreads
    · exact Or.inl ⟨before, u, rest, groups, hs, hreads⟩
    · exact Or.inr ⟨before, u, rest, groups, hs, hreads⟩
  · intro h
    rcases h with ⟨before, u, rest, groups, hs, hreads⟩ | ⟨before, u, rest, groups, hs, hreads⟩
    · exact ⟨before, u, rest, groups, hs, Or.inl hreads⟩
    · exact ⟨before, u, rest, groups, hs, Or.inr hreads⟩

/-! ## Section 6: Up to the end of a line -/

/-- There is a match of `r$` somewhere in the text, with `re.M`. -/
def Re.searchLineEnd (r : Re) (s : List Char) : Bool :=
  (List.range (s.length + 1)).any fun i =>
    (r.runs ((⟨none, s⟩ : Place).advance i)).any fun m =>
      (s.drop (i + m.len)).head?.all (· == '\n')

theorem searchLineEnd_iff {r : Re} {s : List Char} : r.searchLineEnd s = true ↔
    ∃ before u rest groups, s = before ++ (u ++ rest) ∧
      r.Reads (lastOf none before) u rest groups ∧ rest.head?.all (· == '\n') = true := by
  unfold Re.searchLineEnd
  rw [List.any_eq_true]
  constructor
  · rintro ⟨i, _, hany⟩
    obtain ⟨m, hmem, hend⟩ := List.any_eq_true.mp hany
    obtain ⟨_, hreads⟩ := mem_runs.mp hmem
    refine ⟨s.take i, (s.drop i).take m.len, (s.drop i).drop m.len, m.groups, ?_, hreads, ?_⟩
    · rw [List.take_append_drop, List.take_append_drop]
    · rwa [List.drop_drop]
  · rintro ⟨before, u, rest, groups, hs, hreads, hend⟩
    have hdrop : s.drop (before.length + u.length) = rest := by
      rw [hs, ← List.append_assoc, ← List.length_append, List.drop_left]
    refine ⟨before.length, ?_, List.any_eq_true.mpr ⟨⟨u.length, groups⟩, ?_, ?_⟩⟩
    · rw [List.mem_range, hs, List.length_append]
      omega
    · rw [hs, Place.advance_append]
      exact mem_runs_append.mpr hreads
    · show (s.drop (before.length + u.length)).head?.all (· == '\n') = true
      rw [hdrop, hend]

end Regex
