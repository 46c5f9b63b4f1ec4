import MscsUnitTests.Lib.Lines
import MscsUnitTests.Ci.Declared

/-! # Repository Checks: STATUS Lines

    `STATUS_RE` is searched for in a whole banner, and white space in it may be line ends.
    This module compares what it finds with what the lines of the banner say, each read on
    its own.
-/

open Regex TextLines
open PyText (isSpace)

namespace RepoChecks

variable (W : WordClass)

/-! ## Section 1: Lines -/

/-- The STATUS a line declares. -/
def statusOf (line : Text) : Option Text :=
  ((statusRe W).runs ⟨none, line⟩).head?.map fun m => m.groups.headD []

/-- The lines of a banner that declare a STATUS, by what they declare. -/
def statusLines (banner : Text) : List Text :=
  (splitLines '\n' banner).filterMap (statusOf W)

/-- What is declared by the text behind a `#`. -/
def valueAt (l : Text) : Option Run := ((afterHash W).runs ⟨some '#', l⟩).head?

/-- What a text declares at the beginning of a line, behind white space. -/
def leadRun : Text → Option Run
  | [] => none
  | c :: l =>
    if isSpace c then (leadRun l).map (Run.shift 1)
    else if c = '#' then (valueAt W l).map (Run.shift 1)
    else none

theorem leadRun_cons (c : Char) (l : Text) : leadRun W (c :: l) =
    if isSpace c then (leadRun W l).map (Run.shift 1)
    else if c = '#' then (valueAt W l).map (Run.shift 1)
    else none := rfl

theorem hash_runs_of_ne (prev : Option Char) {c : Char} (l : Text) (hc : c ≠ '#') :
    (Re.seq (.lit (text "#")) (afterHash W)).runs ⟨prev, c :: l⟩ = [] :=
  runs_seq_eq_nil (runs_lit_ne (Ne.symm hc))

theorem hash_not_space {c : Char} (hc : isSpace c = true) : c ≠ '#' := by
  rintro rfl
  exact absurd hc (by decide)

/-- The expression at the beginning of a line, by induction on the white space. -/
theorem lead_head? (prev : Option Char) (l : Text) :
    ((Re.seq (.many isSpace) (.seq (.lit (text "#")) (afterHash W))).runs ⟨prev, l⟩).head? =
      leadRun W l := by
  induction l generalizing prev with
  | nil =>
    rw [runs_many_seq_of_not _ rfl]
    rfl
  | cons c l ih =>
    rw [leadRun_cons]
    by_cases hspace : isSpace c = true
    · have hnone : ∀ prev c l, isSpace c = true →
          (Re.seq (.lit (text "#")) (afterHash W)).runs ⟨prev, c :: l⟩ = [] :=
        fun prev c l hc => hash_runs_of_ne W prev l (hash_not_space hc)
      rw [if_pos hspace, runs_many_seq_cons hnone hspace, List.head?_map, ih]
    · rw [if_neg hspace, runs_many_seq_of_not _ (by simpa using hspace)]
      split
      · next hhash =>
        subst hhash
        have hlit := runs_lit_seq prev (text "#") l (afterHash W)
        have hcons : text "#" ++ l = '#' :: l := rfl
        rw [hcons] at hlit
        rw [hlit, List.head?_map]
        rfl
      · next hhash =>
        rw [hash_runs_of_ne W prev l hhash]
        rfl

theorem statusRe_head? {prev : Option Char} (hprev : prev.all (· == '\n') = true) (l : Text) :
    ((statusRe W).runs ⟨prev, l⟩).head? = leadRun W l := by
  unfold statusRe
  rw [runs_lineStart_seq, if_pos hprev]
  exact lead_head? W prev l

theorem statusRe_runs_eq_nil {prev : Option Char} (hprev : prev.all (· == '\n') = false)
    (l : Text) : (statusRe W).runs ⟨prev, l⟩ = [] := by
  unfold statusRe
  rw [runs_lineStart_seq, if_neg (by simp [hprev])]

/-- The values behind the `#` of a text that white space leads to, when it begins with
    white space itself or not. -/
def statusMarks : Bool → Text → List Text
  | _, [] => []
  | blank, c :: l =>
    if blank ∧ c = '#' then
      ((valueAt W l).map fun m => m.groups.headD []).toList ++ statusMarks false l
    else statusMarks (c == '\n' || (blank && isSpace c)) l

theorem statusMarks_cons (blank : Bool) (c : Char) (l : Text) : statusMarks W blank (c :: l) =
    if blank ∧ c = '#' then
      ((valueAt W l).map fun m => m.groups.headD []).toList ++ statusMarks W false l
    else statusMarks W (c == '\n' || (blank && isSpace c)) l := rfl

theorem statusMarks_false (c : Char) (l : Text) :
    statusMarks W false (c :: l) = statusMarks W (c == '\n') l := by
  rw [statusMarks_cons, if_neg fun h => Bool.false_ne_true h.1]
  simp

theorem statusMarks_true {c : Char} (l : Text) (hc : c ≠ '#') :
    statusMarks W true (c :: l) = statusMarks W (c == '\n' || isSpace c) l := by
  rw [statusMarks_cons, if_neg fun h => hc h.2]
  simp

/-- Is the line blank so far? -/
def blankAfter (blank : Bool) (u : Text) : Bool :=
  u.foldl (fun b c => c == '\n' || (b && isSpace c)) blank

theorem statusMarks_append {u : Text} (hu : '#' ∉ u) (blank : Bool) (rest : Text) :
    statusMarks W blank (u ++ rest) = statusMarks W (blankAfter blank u) rest := by
  induction u generalizing blank with
  | nil => rfl
  | cons c u ih =>
    have hc : c ≠ '#' := fun h => hu (h ▸ List.mem_cons_self)
    rw [List.cons_append, statusMarks_cons, if_neg fun h => hc h.2,
      ih fun h => hu (List.mem_cons_of_mem _ h)]
    rfl

/-! ## Section 2: Behind a `#` -/

/-- What is read behind a `#` that declares a STATUS. -/
structure DeclaresAs (u rest value : Text) : Prop where
  split : ∃ ws ws', (∀ c ∈ ws, isSpace c = true) ∧ (∀ c ∈ ws', isSpace c = true) ∧
    u = ws ++ (text "STATUS:" ++ (ws' ++ value))
  value : value = text "PASSES" ∨ value = text "EXPECTED-FAIL"
  ends : rest.head?.any W.isWord = false

theorem WordClass.any_ascii {c : Char} (hc : c.toNat < 128) (h : isWordChar c = true) :
    (some c).any W.isWord = true := by
  show W.isWord c = true
  rw [W.ascii c hc, h]

theorem afterHash_reads (prev : Option Char) (u rest : Text) (groups : List Text) :
    (afterHash W).Reads prev u rest groups ↔
      ∃ value, groups = [value] ∧ DeclaresAs W u rest value := by
  have hedge : ∀ prev value, value = text "PASSES" ∨ value = text "EXPECTED-FAIL" →
      (lastOf prev value).any W.isWord = true := by
    rintro prev value (rfl | rfl)
    · exact W.any_ascii (c := 'S') (by decide) (by decide)
    · exact W.any_ascii (c := 'L') (by decide) (by decide)
  unfold afterHash
  simp only [reads_seq, reads_many, reads_lit, reads_group, reads_alt, reads_edge]
  constructor
  · rintro ⟨ws, _, _, _, rfl, rfl, ⟨hws, rfl⟩, _, _, _, _, rfl, rfl, ⟨rfl, rfl⟩, ws', _, _, _, rfl,
      rfl, ⟨hws', rfl⟩, value, _, _, _, rfl, rfl, ⟨inner, rfl, halt⟩, ⟨rfl, rfl⟩, hne⟩
    have hvalue : value = text "PASSES" ∨ value = text "EXPECTED-FAIL" :=
      halt.imp And.left And.left
    have hinner : inner = [] := halt.elim And.right And.right
    rw [hedge _ value hvalue] at hne
    refine ⟨value, by rw [hinner]; rfl, ⟨ws, ws', hws, hws', ?_⟩, hvalue,
      Bool.eq_false_iff.mpr hne.symm⟩
    rw [List.append_nil]
  · rintro ⟨value, rfl, ⟨ws, ws', hws, hws', rfl⟩, hvalue, hends⟩
    refine ⟨ws, _, [], _, rfl, rfl, ⟨hws, rfl⟩, text "STATUS:", _, [], _, rfl, rfl, ⟨rfl, rfl⟩, ws',
      value, [], _, rfl, rfl, ⟨hws', rfl⟩, value, [], [value], [], (List.append_nil _).symm, rfl,
      ⟨[], rfl, ?_⟩, ⟨rfl, rfl⟩, ?_⟩
    · exact hvalue.imp (fun h => ⟨h, rfl⟩) (fun h => ⟨h, rfl⟩)
    · rw [hedge _ value hvalue, hends]
      decide

theorem valueAt_spec {l : Text} {m : Run} (h : valueAt W l = some m) :
    ∃ u rest value, l = u ++ rest ∧ m = ⟨u.length, [value]⟩ ∧ DeclaresAs W u rest value := by
  obtain ⟨hle, hreads⟩ := mem_runs.mp (List.mem_of_head? h)
  obtain ⟨value, hgroups, hdeclares⟩ := (afterHash_reads W _ _ _ _).mp hreads
  refine ⟨l.take m.len, l.drop m.len, value, (List.take_append_drop _ _).symm, ?_, hdeclares⟩
  have hlen : m.len = (l.take m.len).length := by
    rw [List.length_take]
    exact (Nat.min_eq_left hle).symm
  exact run_eq hlen hgroups

/-- Text that is white space up to some other character can be read in one way. -/
theorem span_unique {ws ws₂ l l₂ : Text} {x x₂ : Char} (hws : ∀ c ∈ ws, isSpace c = true)
    (hws₂ : ∀ c ∈ ws₂, isSpace c = true) (hx : isSpace x = false) (hx₂ : isSpace x₂ = false)
    (h : ws ++ x :: l = ws₂ ++ x₂ :: l₂) : ws = ws₂ ∧ x = x₂ ∧ l = l₂ := by
  have hspan : ∀ {ws l : Text} {x : Char}, (∀ c ∈ ws, isSpace c = true) → isSpace x = false →
      (ws ++ x :: l).takeWhile isSpace = ws := by
    intro ws l x hws hx
    rw [List.takeWhile_append_of_pos hws, List.takeWhile_cons_of_neg (by simp [hx]),
      List.append_nil]
  have heq : ws = ws₂ := by
    rw [← hspan (l := l) hws hx, h, hspan hws₂ hx₂]
  subst heq
  have hcons := List.append_cancel_left h
  exact ⟨rfl, (List.cons.inj hcons).1, (List.cons.inj hcons).2⟩

/-- The values begin with different characters, which are no white space. -/
theorem value_head {value : Text} (h : value = text "PASSES" ∨ value = text "EXPECTED-FAIL") :
    ∃ x tail, value = x :: tail ∧ isSpace x = false ∧
      (value = text "PASSES" ↔ x = 'P') := by
  rcases h with rfl | rfl
  · exact ⟨'P', text "ASSES", rfl, by decide, by decide⟩
  · exact ⟨'E', text "XPECTED-FAIL", rfl, by decide, by decide⟩

/-- A text declares one STATUS at most, however it goes on. -/
theorem DeclaresAs.unique {u u₂ rest rest₂ value value₂ : Text} (h : DeclaresAs W u rest value)
    (h₂ : DeclaresAs W u₂ rest₂ value₂) {l l₂ : Text} (heq : u ++ l = u₂ ++ l₂) :
    u = u₂ ∧ value = value₂ := by
  obtain ⟨⟨ws, ws', hws, hws', rfl⟩, hvalue, -⟩ := h
  obtain ⟨⟨ws₂, ws₂', hws₂, hws₂', rfl⟩, hvalue₂, -⟩ := h₂
  simp only [List.append_assoc] at heq
  have hletter : isSpace 'S' = false := by decide
  obtain ⟨rfl, -, htail⟩ := span_unique hws hws₂ hletter hletter heq
  have hbehind : ws' ++ (value ++ l) = ws₂' ++ (value₂ ++ l₂) :=
    (List.append_right_inj (text "TATUS:")).mp htail
  obtain ⟨x, tail, hx, hspace, hiff⟩ := value_head hvalue
  obtain ⟨x₂, tail₂, hx₂, hspace₂, hiff₂⟩ := value_head hvalue₂
  have hcons : ws' ++ x :: (tail ++ l) = ws₂' ++ x₂ :: (tail₂ ++ l₂) := by
    rw [hx, hx₂] at hbehind
    exact hbehind
  obtain ⟨rfl, rfl, -⟩ := span_unique hws' hws₂' hspace hspace₂ hcons
  have hsame : value = value₂ := by
    by_cases hp : x = 'P'
    · rw [hiff.mpr hp, hiff₂.mpr hp]
    · rw [hvalue.resolve_left fun h => hp (hiff.mp h),
        hvalue₂.resolve_left fun h => hp (hiff₂.mp h)]
  exact ⟨by rw [hsame], hsame⟩

/-- Whatever may follow it, what is declared behind a `#` is declared. -/
theorem valueAt_of_declares {u rest value : Text} (h : DeclaresAs W u rest value) :
    valueAt W (u ++ rest) = some ⟨u.length, [value]⟩ := by
  have hmem : (⟨u.length, [value]⟩ : Run) ∈ (afterHash W).runs ⟨some '#', u ++ rest⟩ :=
    mem_runs_append.mpr ((afterHash_reads W _ _ _ _).mpr ⟨value, rfl, h⟩)
  cases hhead : valueAt W (u ++ rest) with
  | none =>
    rw [List.head?_eq_none_iff.mp hhead] at hmem
    cases hmem
  | some m =>
    obtain ⟨u₂, rest₂, value₂, heq, hm, h₂⟩ := valueAt_spec W hhead
    obtain ⟨rfl, rfl⟩ := h.unique W h₂ heq
    rw [hm]

/-- A line end behind it changes nothing. -/
theorem valueAt_append {l : Text} {m : Run} (h : valueAt W l = some m) (rest : Text) :
    valueAt W (l ++ '\n' :: rest) = some m := by
  obtain ⟨u, behind, value, rfl, rfl, hdeclares⟩ := valueAt_spec W h
  have hends : (behind ++ '\n' :: rest).head?.any W.isWord = false := by
    cases behind with
    | nil => exact W.space '\n' (by decide)
    | cons c behind => exact hdeclares.ends
  rw [List.append_assoc]
  exact valueAt_of_declares W ⟨hdeclares.split, hdeclares.value, hends⟩

theorem leadRun_append {l : Text} {m : Run} (h : leadRun W l = some m) (rest : Text) :
    leadRun W (l ++ '\n' :: rest) = some m := by
  induction l generalizing m with
  | nil => cases h
  | cons c l ih =>
    rw [leadRun_cons] at h
    rw [List.cons_append, leadRun_cons]
    split
    · next hspace =>
      rw [if_pos hspace] at h
      obtain ⟨m', hm', rfl⟩ := Option.map_eq_some_iff.mp h
      rw [ih hm']
      rfl
    · next hspace =>
      rw [if_neg hspace] at h
      split
      · next hhash =>
        rw [if_pos hhash] at h
        obtain ⟨m', hm', rfl⟩ := Option.map_eq_some_iff.mp h
        rw [valueAt_append W hm']
        rfl
      · next hhash =>
        rw [if_neg hhash] at h
        cases h

theorem DeclaresAs.hash_not_mem {u rest value : Text} (h : DeclaresAs W u rest value) :
    '#' ∉ u := by
  obtain ⟨⟨ws, ws', hws, hws', rfl⟩, hvalue, -⟩ := h
  have hvalue' : '#' ∉ value := by
    rcases hvalue with rfl | rfl <;> decide
  have hspaces : ∀ {ws : Text}, (∀ c ∈ ws, isSpace c = true) → '#' ∉ ws :=
    fun hws hmem => hash_not_space (hws _ hmem) rfl
  have hword : '#' ∉ text "STATUS:" := by decide
  simp only [List.mem_append, not_or]
  exact ⟨hspaces hws, hword, hspaces hws', hvalue'⟩

theorem DeclaresAs.last {u rest value : Text} (h : DeclaresAs W u rest value) :
    ∃ front x, u = front ++ [x] ∧ isSpace x = false ∧ (x == '\n') = false := by
  obtain ⟨⟨ws, ws', -, -, rfl⟩, hvalue, -⟩ := h
  have hlast : ∃ front x, value = front ++ [x] ∧ isSpace x = false ∧ (x == '\n') = false := by
    rcases hvalue with rfl | rfl
    · exact ⟨text "PASSE", 'S', rfl, by decide, by decide⟩
    · exact ⟨text "EXPECTED-FAI", 'L', rfl, by decide, by decide⟩
  obtain ⟨front, x, rfl, hspace, hlf⟩ := hlast
  exact ⟨ws ++ (text "STATUS:" ++ (ws' ++ front)), x, by simp only [List.append_assoc], hspace, hlf⟩

/-! ## Section 3: What is found -/

/-- Behind what is declared the line is not blank. -/
theorem lead_marks {l : Text} {m : Run} (h : leadRun W l = some m) :
    ∃ u rest, l = u ++ rest ∧ u ≠ [] ∧ m.len = u.length ∧
      (∀ prev, (lastOf prev u).all (· == '\n') = false) ∧
      statusMarks W true l = m.groups.headD [] :: statusMarks W false rest := by
  induction l generalizing m with
  | nil => cases h
  | cons c l ih =>
    rw [leadRun_cons] at h
    split at h
    · next hspace =>
      obtain ⟨m', hm', rfl⟩ := Option.map_eq_some_iff.mp h
      obtain ⟨u, rest, rfl, -, hlen, hlast, hmarks⟩ := ih hm'
      refine ⟨c :: u, rest, rfl, List.cons_ne_nil _ _, ?_, ?_, ?_⟩
      · show 1 + m'.len = u.length + 1
        omega
      · intro prev
        rw [lastOf_cons]
        exact hlast _
      · rw [statusMarks_true W _ (hash_not_space hspace), hspace, Bool.or_true, hmarks]
        rfl
    · split at h
      · next hhash =>
        obtain ⟨m', hm', rfl⟩ := Option.map_eq_some_iff.mp h
        obtain ⟨u, rest, value, rfl, rfl, hdeclares⟩ := valueAt_spec W hm'
        obtain ⟨front, x, hfront, hspace, hlf⟩ := hdeclares.last W
        have hblank : blankAfter false u = false := by
          unfold blankAfter
          rw [hfront, List.foldl_append, List.foldl_cons, List.foldl_nil, hspace, hlf]
          simp
        refine ⟨c :: u, rest, rfl, List.cons_ne_nil _ _, Nat.add_comm _ _, ?_, ?_⟩
        · intro prev
          rw [hfront, ← List.cons_append, lastOf_append]
          simpa [lastOf] using hlf
        · rw [statusMarks_cons, if_pos ⟨rfl, hhash⟩, hm', statusMarks_append W (hdeclares.hash_not_mem W),
            hblank]
          rfl
      · cases h

/-- Where nothing is declared, a blank beginning makes no difference. -/
theorem marks_of_no_lead {l : Text} (h : leadRun W l = none) :
    statusMarks W true l = statusMarks W false l := by
  induction l with
  | nil => rfl
  | cons c l ih =>
    rw [leadRun_cons] at h
    rw [statusMarks_false]
    split at h
    · next hspace =>
      rw [statusMarks_true W _ (hash_not_space hspace), hspace, Bool.or_true,
        ih (Option.map_eq_none_iff.mp h)]
      cases c == '\n' with
      | true => exact (ih (Option.map_eq_none_iff.mp h)).symm
      | false => rfl
    · next hspace =>
      split at h
      · next hhash =>
        rw [statusMarks_cons, if_pos ⟨rfl, hhash⟩, Option.map_eq_none_iff.mp h, hhash]
        rfl
      · next hhash =>
        rw [statusMarks_true W _ hhash, Bool.eq_false_iff.mpr hspace, Bool.or_false]

/-- **What `STATUS_RE` finds** are the values behind the `#` that begin a line. -/
theorem scan_statusRe (pos : Nat) (prev : Option Char) (l : Text) :
    ((statusRe W).scan 0 pos prev l).map (fun m => m.groups.headD []) =
      statusMarks W (prev.all (· == '\n')) l := by
  -- a match skips what it has read
  induction hlen : l.length using Nat.strong_induction_on generalizing pos prev l with
  | _ n ih =>
    subst hlen
    cases hprev : prev.all (· == '\n') with
    | true =>
      cases hlead : leadRun W l with
      | some m =>
        obtain ⟨u, rest, rfl, hu, hlen, hlast, hmarks⟩ := lead_marks W hlead
        have hrun : ((statusRe W).runs ⟨prev, u ++ rest⟩).head? = some ⟨u.length, m.groups⟩ := by
          rw [statusRe_head? W hprev, hlead, ← hlen]
        have hshort : rest.length < (u ++ rest).length := by
          rw [List.length_append]
          have hpos := List.length_pos_iff.mpr hu
          omega
        rw [scan_of_run hu hrun, List.map_cons, ih _ hshort _ _ _ rfl, hlast, hmarks]
      | none =>
        cases l with
        | nil => rfl
        | cons c l =>
          have hnone : (statusRe W).runs ⟨prev, c :: l⟩ = [] := by
            rw [← List.head?_eq_none_iff, statusRe_head? W hprev, hlead]
          rw [scan_of_no_run hnone, ih _ (by simp) _ _ _ rfl, marks_of_no_lead W hlead,
            statusMarks_false]
          rfl
    | false =>
      cases l with
      | nil => rfl
      | cons c l =>
        rw [scan_of_no_run (statusRe_runs_eq_nil W hprev _), ih _ (by simp) _ _ _ rfl,
          statusMarks_false]
        rfl

theorem findall_statusRe (banner : Text) :
    (statusRe W).findall banner = statusMarks W true banner :=
  scan_statusRe W 0 none banner

/-! ## Section 4: Line by line -/

theorem statusOf_eq (line : Text) :
    statusOf W line = (leadRun W line).map fun m => m.groups.headD [] := by
  unfold statusOf
  rw [statusRe_head? W rfl]

/-- The marks of the lines behind a line end are there, whatever stands before it. -/
theorem marks_sublist (blank : Bool) (u rest : Text) :
    (statusMarks W true rest).Sublist (statusMarks W blank (u ++ '\n' :: rest)) := by
  induction u generalizing blank with
  | nil =>
    rw [List.nil_append, statusMarks_cons, if_neg fun h => absurd h.2 (by decide)]
    exact List.Sublist.refl _
  | cons c u ih =>
    rw [List.cons_append, statusMarks_cons]
    split
    · exact (ih false).trans (List.sublist_append_right _ _)
    · exact ih _

/-- A line that declares a STATUS, and all that follows it. -/
theorem marks_of_line {line : Text} {m : Run} (h : leadRun W line = some m) (rest : Text) :
    (m.groups.headD [] :: statusMarks W true rest).Sublist
      (statusMarks W true (line ++ '\n' :: rest)) := by
  obtain ⟨u, behind, hline, -, hlen, -, -⟩ := lead_marks W h
  obtain ⟨u₂, behind₂, hall, -, hlen₂, -, hmarks⟩ := lead_marks W (leadRun_append W h rest)
  -- it is the same run
  have hsplit : u ++ (behind ++ '\n' :: rest) = u₂ ++ behind₂ := by
    rw [← hall, hline, List.append_assoc]
  obtain ⟨-, hbehind⟩ := List.append_inj hsplit (by rw [← hlen, ← hlen₂])
  rw [hmarks, ← hbehind]
  exact (marks_sublist W false behind rest).cons_cons _

/-- **No line is overlooked**: `STATUS_RE` finds the values of the lines that declare one,
    in order. It may find more, with its parts on several lines. -/
theorem statusLines_sublist (banner : Text) :
    (statusLines W banner).Sublist ((statusRe W).findall banner) := by
  rw [findall_statusRe]
  induction hlen : banner.length using Nat.strong_induction_on generalizing banner with
  | _ n ih =>
    subst hlen
    unfold statusLines
    by_cases hlf : '\n' ∈ banner
    · obtain ⟨line, rest, rfl, hline⟩ := List.eq_append_cons_of_mem hlf
      have hrest := ih rest.length (by simp; omega) rest rfl
      rw [splitLines_append '\n' hline, List.filterMap_cons, statusOf_eq]
      cases hlead : leadRun W line with
      | none => exact hrest.trans (marks_sublist W true line rest)
      | some m => exact (hrest.cons_cons _).trans (marks_of_line W hlead rest)
    · by_cases hempty : banner = []
      · subst hempty
        exact List.nil_sublist _
      · rw [splitLines_last '\n' hlf hempty, List.filterMap_cons, List.filterMap_nil, statusOf_eq]
        cases hlead : leadRun W banner with
        | none => exact List.nil_sublist _
        | some m =>
          obtain ⟨u, rest, -, -, -, -, hmarks⟩ := lead_marks W hlead
          rw [hmarks]
          exact (List.nil_sublist _).cons_cons _

/-- The same of the lines of a part that begins with a word, whatever stands before it. -/
theorem statusLines_sublist_behind {c : Char} (hspace : isSpace c = false) (hhash : c ≠ '#')
    (x l : Text) :
    (statusLines W (c :: l)).Sublist ((statusRe W).findall (x ++ c :: l)) := by
  have hnone : ∀ line, leadRun W (c :: line) = none := by
    intro line
    rw [leadRun_cons, if_neg (by simp [hspace]), if_neg hhash]
  rw [findall_statusRe]
  unfold statusLines
  by_cases hlf : '\n' ∈ c :: l
  · obtain ⟨line, rest, heq, hline⟩ := List.eq_append_cons_of_mem hlf
    have hrest := statusLines_sublist W rest
    rw [findall_statusRe] at hrest
    rw [heq, splitLines_append '\n' hline, List.filterMap_cons, ← List.append_assoc]
    cases line with
    | nil =>
      rw [(List.cons.inj heq).1] at hspace
      exact absurd hspace (by decide)
    | cons b line =>
      rw [← (List.cons.inj heq).1, statusOf_eq, hnone]
      exact hrest.trans (marks_sublist W true _ rest)
  · rw [splitLines_last '\n' hlf (List.cons_ne_nil _ _), List.filterMap_cons, List.filterMap_nil,
      statusOf_eq, hnone]
    exact List.nil_sublist _

end RepoChecks
