import MscsUnitTests.Ci.StatusLines
import MscsUnitTests.Ci.Commands

/-! # Repository Checks: Every Security Test Declares Its Verdict

    What the check of `Ci.Declared` is worth: when every test to which CMake gives the
    label `security` has a STATUS line in its banner that the check has recorded, or the
    check fails.
-/

open Regex TextLines
open PyText (isSpace)

namespace RepoChecks

variable (W : WordClass)

/-! ## Section 1: Banners -/

/-- `add_executable(`. -/
def openRe : Re :=
  .seq (.lit (text "add_executable")) <| .seq (.many isSpace) (.lit (text "("))

/-- The text `add_executable(` stands at a place. -/
def opensAt (cml : Text) (i : Nat) : Bool :=
  !(openRe.runs ((⟨none, cml⟩ : Place).advance i)).isEmpty

/-- Where it stood last before a place; else the beginning of the text. -/
def lastOpen (cml : Text) (p : Nat) : Nat :=
  (((List.range p).filter (opensAt cml)).getLast?).getD 0

/-- The text between the `add_executable(` of a name, which is the first one if there are
    several, and the `add_executable(` before it. -/
def bannerText (cml name : Text) : Option Text :=
  ((marks W cml).find? fun mark => mark.1 == name).map fun mark =>
    slice cml (lastOpen cml mark.2) mark.2

/-- Where there is a name behind it, it stands there. -/
theorem opensAt_of_run {cml : Text} {i : Nat} {m : Run}
    (h : m ∈ (addExecutableRe W).runs ((⟨none, cml⟩ : Place).advance i)) : opensAt cml i = true := by
  obtain ⟨-, hreads⟩ := mem_runs.mp h
  obtain ⟨_, _, _, _, hu, -, ⟨rfl, -⟩, s, _, _, _, rfl, -, ⟨hs, -⟩, _, v, _, _, rfl, -, ⟨rfl, -⟩, -⟩ :=
    hreads
  generalize hq : (⟨none, cml⟩ : Place).advance i = q at hu
  have hrest : q.rest = (text "add_executable" ++ (s ++ text "(")) ++ (v ++ q.rest.drop m.len) := by
    calc q.rest = q.rest.take m.len ++ q.rest.drop m.len := (List.take_append_drop _ _).symm
      _ = _ := by rw [hu]; simp only [List.append_assoc]
  have hopen : openRe.Reads q.prev (text "add_executable" ++ (s ++ text "("))
      (v ++ q.rest.drop m.len) [] :=
    ⟨_, _, [], [], rfl, rfl, ⟨rfl, rfl⟩, s, _, [], [], rfl, rfl, ⟨hs, rfl⟩, rfl, rfl⟩
  have hmem := mem_runs_append.mpr hopen
  rw [← hrest] at hmem
  unfold opensAt
  rw [hq, Bool.not_eq_true', List.isEmpty_eq_false_iff]
  exact List.ne_nil_of_mem hmem

/-- It begins with a letter. -/
theorem drop_of_opensAt {cml : Text} {i : Nat} (h : opensAt cml i = true) :
    ∃ l, cml.drop i = 'a' :: l := by
  unfold opensAt at h
  rw [Bool.not_eq_true', List.isEmpty_eq_false_iff] at h
  obtain ⟨m, hm⟩ := List.exists_mem_of_ne_nil _ h
  obtain ⟨-, hreads⟩ := mem_runs.mp hm
  obtain ⟨_, v, _, _, hu, -, ⟨rfl, -⟩, -⟩ := hreads
  have hdrop : cml.drop i = text "add_executable" ++ (v ++ (cml.drop i).drop m.len) := by
    calc cml.drop i = (cml.drop i).take m.len ++ (cml.drop i).drop m.len :=
          (List.take_append_drop _ _).symm
      _ = _ := by
          rw [show (cml.drop i).take m.len = text "add_executable" ++ v from hu, List.append_assoc]
  exact ⟨_, hdrop⟩

theorem opensAt_mark {cml : Text} {mark : Text × Nat} (h : mark ∈ marks W cml) :
    opensAt cml mark.2 = true := by
  obtain ⟨m, hm, rfl⟩ := List.mem_map.mp h
  obtain ⟨i, hstart, -, run, hrun, -⟩ := run_of_mem_scan hm
  rw [Nat.zero_add] at hstart
  dsimp only
  rw [hstart]
  exact opensAt_of_run W hrun

theorem marks_pairwise (cml : Text) : (marks W cml).Pairwise fun a b => a.2 < b.2 :=
  (scan_pairwise 0 cml).map _ fun _ _ h => h

/-- The last one before a place is not before one that is known to be there. -/
theorem le_lastOpen {cml : Text} {i p : Nat} (hi : i < p) (h : opensAt cml i = true) :
    i ≤ lastOpen cml p := by
  have hmem : i ∈ (List.range p).filter (opensAt cml) :=
    List.mem_filter.mpr ⟨List.mem_range.mpr hi, h⟩
  have hne := List.ne_nil_of_mem hmem
  have hsorted : ((List.range p).filter (opensAt cml)).Pairwise (· < ·) :=
    List.Pairwise.filter _ List.pairwise_lt_range
  unfold lastOpen
  rw [List.getLast?_eq_some_getLast hne, Option.getD_some]
  rw [← List.dropLast_append_getLast hne, List.mem_append, List.mem_singleton] at hmem
  rcases hmem with hfront | hlast
  · rw [← List.dropLast_append_getLast hne] at hsorted
    exact Nat.le_of_lt ((List.pairwise_append.mp hsorted).2.2 i hfront _ (by simp))
  · exact Nat.le_of_eq hlast

/-- It is there, or nowhere before the place. -/
theorem lastOpen_spec (cml : Text) (p : Nat) :
    lastOpen cml p = 0 ∨ (lastOpen cml p < p ∧ opensAt cml (lastOpen cml p) = true) := by
  unfold lastOpen
  cases hlast : ((List.range p).filter (opensAt cml)).getLast? with
  | none => exact Or.inl rfl
  | some i =>
    obtain ⟨hi, hopen⟩ := List.mem_filter.mp (List.mem_of_getLast? hlast)
    exact Or.inr ⟨List.mem_range.mp hi, hopen⟩

/-- A part of the text, cut further. -/
theorem slice_split {cml : Text} {start cut pos : Nat} (h : start ≤ cut) :
    slice cml start pos = (slice cml start pos).take (cut - start) ++ slice cml cut pos := by
  have hdrop : slice cml cut pos = (slice cml start pos).drop (cut - start) := by
    unfold slice
    rw [List.drop_drop]
    congr 1
    omega
  rw [hdrop, List.take_append_drop]

/-- The loop over the marks, by induction: a banner is cut at a mark or at the beginning. -/
theorem bannerFrom_spec {cml name banner : Text} (start : Nat) (ms : List (Text × Nat))
    (hms : ∀ mark ∈ ms, opensAt cml mark.2 = true) (hsorted : ms.Pairwise fun a b => a.2 < b.2)
    (hstart : ∀ mark ∈ ms, start ≤ lastOpen cml mark.2)
    (h : bannerFrom cml name start ms = some banner) :
    ∃ mark cutAt, ms.find? (fun mark => mark.1 == name) = some mark ∧
      banner = slice cml cutAt mark.2 ∧ cutAt ≤ lastOpen cml mark.2 := by
  induction ms generalizing start with
  | nil => cases h
  | cons mark ms ih =>
    rw [bannerFrom] at h
    split at h
    · next hname =>
      exact ⟨mark, start, by simp [hname], (Option.some.inj h).symm, hstart mark List.mem_cons_self⟩
    · next hname =>
      obtain ⟨hfirst, hrest⟩ := List.pairwise_cons.mp hsorted
      have hopen := hms mark List.mem_cons_self
      obtain ⟨mark', cutAt, hfind, hslice, hle⟩ := ih mark.2
        (fun mark' hmem => hms mark' (List.mem_cons_of_mem _ hmem)) hrest
        (fun mark' hmem => le_lastOpen (hfirst mark' hmem) hopen) h
      exact ⟨mark', cutAt, by simp [hname, hfind], hslice, hle⟩

/-- **The check cuts a banner no later** than where the `add_executable(` before it stands,
    and behind what it cuts in addition there is a word. -/
theorem bannerText_of_bannerOf {cml name banner : Text} (h : bannerOf W cml name = some banner) :
    ∃ x part, bannerText W cml name = some part ∧ banner = x ++ part ∧
      (x = [] ∨ ∃ l, part = 'a' :: l) := by
  obtain ⟨mark, cutAt, hfind, rfl, hle⟩ := bannerFrom_spec 0 (marks W cml)
    (fun _ hmem => opensAt_mark W hmem) (marks_pairwise W cml) (fun _ _ => Nat.zero_le _) h
  refine ⟨_, slice cml (lastOpen cml mark.2) mark.2, ?_, slice_split hle, ?_⟩
  · unfold bannerText
    rw [hfind]
    rfl
  · rcases lastOpen_spec cml mark.2 with hzero | ⟨hlt, hopen⟩
    · left
      rw [hzero, Nat.zero_sub, List.take_zero]
    · right
      obtain ⟨l, hl⟩ := drop_of_opensAt hopen
      refine ⟨l.take (mark.2 - lastOpen cml mark.2 - 1), ?_⟩
      have hpos : mark.2 - lastOpen cml mark.2 = mark.2 - lastOpen cml mark.2 - 1 + 1 := by omega
      unfold slice
      rw [List.drop_take, hl, hpos, List.take_succ_cons]
      rfl

/-- What the lines of the text between say, the expression finds in what the check cuts. -/
theorem partLines_sublist {cml name banner part : Text} (hbanner : bannerOf W cml name = some banner)
    (hpart : bannerText W cml name = some part) :
    (statusLines W part).Sublist ((statusRe W).findall banner) := by
  obtain ⟨x, part', hpart', rfl, hx⟩ := bannerText_of_bannerOf W hbanner
  rw [hpart] at hpart'
  cases hpart'
  rcases hx with rfl | ⟨l, rfl⟩
  · exact statusLines_sublist W part
  · exact statusLines_sublist_behind W (by decide) (by decide) x l

/-! ## Section 2: Every security test declares its verdict -/

/-- What is promised of a test: there is exactly one STATUS line between its
    `add_executable(` and the one before, and the map records what that line says. -/
def Declares (cml : Text) (r : Report) (name : Text) : Prop :=
  ∃ banner value, bannerText W cml name = some banner ∧ statusLines W banner = [value] ∧
    (checkSecurityTestsDeclareStatus W cml r).declared.lookup name = some value

/-- Every test that a command labels `security` declares its verdict, or the check fails. -/
def DeclaresOrFails (cml : Text) (r : Report) : Prop :=
  ∀ cmd ∈ commands cml, ∀ name ∈ securityNames cmd,
    Declares W cml r name ∨ (checkSecurityTestsDeclareStatus W cml r).report.errors ≠ r.errors

/-- The expression finds the name, and there is a STATUS line above its `add_executable(`. -/
def SeenWithStatus (cml name : Text) : Prop :=
  name ∈ (securityRe W).findall cml ∧
    ∃ banner, bannerText W cml name = some banner ∧ statusLines W banner ≠ []

/-- **When every security test declares its verdict**: the check has something to object
    to, or the expression finds every name that CMake gives the label to, and there is a
    STATUS line in the text above the `add_executable(` of each. -/
theorem declares_or_fails_iff (cml : Text) (r : Report) :
    DeclaresOrFails W cml r ↔
      Objects W cml ∨ ∀ cmd ∈ commands cml, ∀ name ∈ securityNames cmd, SeenWithStatus W cml name := by
  by_cases hobjects : Objects W cml
  · refine iff_of_true ?_ (Or.inl hobjects)
    intro cmd _ name _
    exact Or.inr ((objects_iff W cml r).mpr hobjects)
  · have haccept : ¬ (checkSecurityTestsDeclareStatus W cml r).report.errors ≠ r.errors :=
      mt (objects_iff W cml r).mp hobjects
    rw [or_iff_right hobjects]
    constructor
    · intro h cmd hcmd name hname
      obtain ⟨banner, value, hbanner, hlines, hlookup⟩ := (h cmd hcmd name hname).resolve_right haccept
      exact ⟨found_of_declared W hlookup, banner, hbanner, by simp [hlines]⟩
    · intro h cmd hcmd name hname
      obtain ⟨hfound, part, hpart, hlines⟩ := h cmd hcmd name hname
      -- nothing was objected to, so there is one match, and it is the line's
      have hone : ∃ banner, bannerOf W cml name = some banner ∧
          ((statusRe W).findall banner).length = 1 := by
        by_contra hno
        exact hobjects ⟨name, hfound, fun banner hbanner hlen => hno ⟨banner, hbanner, hlen⟩⟩
      obtain ⟨banner, hbanner, hlen⟩ := hone
      obtain ⟨value, hvalue⟩ := List.length_eq_one_iff.mp hlen
      have hsub := partLines_sublist W hbanner hpart
      rw [hvalue] at hsub
      have hline : statusLines W part = [value] :=
        (List.sublist_singleton.mp hsub).resolve_left hlines
      exact Or.inl ⟨part, value, hpart, hline, lookup_declared W r hfound hbanner hvalue⟩

/-- **The second name of a command is not seen**, and need not declare anything. -/
theorem second_name_is_not_seen :
    ¬ ∀ (W : WordClass) (cml : Text) (r : Report), DeclaresOrFails W cml r := by
  intro hclaim
  let cml := text ("# STATUS: PASSES\nadd_executable(a a.cpp)\nadd_executable(b b.cpp)\n" ++
    "set_tests_properties(a b PROPERTIES LABELS security)\n")
  have hcommand : ∃ cmd ∈ commands cml, text "b" ∈ securityNames cmd := by
    decide +kernel
  obtain ⟨cmd, hcmd, hname⟩ := hcommand
  rcases hclaim asciiWords cml ⟨[], []⟩ cmd hcmd _ hname with hdeclares | hfails
  · obtain ⟨-, value, -, -, hlookup⟩ := hdeclares
    have hnone : (checkSecurityTestsDeclareStatus asciiWords cml ⟨[], []⟩).declared.lookup
        (text "b") = none := by
      decide +kernel
    rw [hnone] at hlookup
    cases hlookup
  · have hgreen : (checkSecurityTestsDeclareStatus asciiWords cml ⟨[], []⟩).report.errors = [] := by
      decide +kernel
    exact hfails hgreen

/-! ## Section 3: What the expression sees -/

/-- What stands behind the name. -/
def behindName : Re :=
  .seq (.many (· != ')')) <| .seq (.lit (text "LABELS")) <| .seq (.many (· != ')')) <|
  .seq (.edge W.isWord) <| .seq (.lit (text "security")) (.edge W.isWord)

/-- A match has no closing parenthesis in it. -/
theorem securityRe_avoids : (securityRe W).Avoids ')' := by
  have hword : W.isWord ')' = false := by
    rw [W.ascii ')' (by decide)]
    decide
  have hspace : isSpace ')' = false := by decide
  have hparen : ((')' : Char) != ')') = false := by decide
  have hset : ')' ∉ text "set_tests_properties" := by decide
  have hopen : ')' ∉ text "(" := by decide
  have hlabels : ')' ∉ text "LABELS" := by decide
  have hsecurity : ')' ∉ text "security" := by decide
  exact ⟨hset, hspace, hopen, hspace, ⟨hword, hword⟩, hparen, hlabels, hparen, trivial, hsecurity,
    trivial⟩

/-- The longest name is tried first. -/
theorem wordRe_head? {name l : Text} (prev : Option Char) (hne : name ≠ [])
    (hname : ∀ c ∈ name, W.isWord c = true) (hl : l.head?.any W.isWord = false) :
    ((wordRe W).runs ⟨prev, name ++ l⟩).head? = some ⟨name.length, []⟩ := by
  obtain ⟨c, cs, rfl⟩ := List.exists_cons_of_ne_nil hne
  have hone := head?_one (p := W.isWord) prev (cs ++ l) (hname c List.mem_cons_self)
  have hmany := head?_many (p := W.isWord) (lastOf prev [c])
    (fun b hb => hname b (List.mem_cons_of_mem _ hb)) hl
  have hseq := head?_seq hone hmany
  rw [List.length_singleton, Nat.add_comm] at hseq
  exact hseq

theorem behindName_head? {a b rest : Text} (prev : Option Char) (ha : ')' ∉ a) (hb : ')' ∉ b)
    (hedge : b.getLast?.any W.isWord = false) (hbne : b ≠ [])
    (hrest : rest.head?.any W.isWord = false) :
    ∃ m, ((behindName W).runs ⟨prev, a ++ (text "LABELS" ++ (b ++ text "security")) ++ rest⟩).head? =
      some m := by
  have hparen : ∀ {l : Text}, ')' ∉ l → ∀ c ∈ l, (c != ')') = true := by
    intro l hl c hc
    rw [bne_iff_ne]
    rintro rfl
    exact hl hc
  have hlast : ∀ prev, lastOf prev b = b.getLast? := by
    intro prev
    unfold lastOf
    rw [List.getLast?_eq_some_getLast hbne]
    rfl
  have hs : W.isWord 's' = true := by
    rw [W.ascii 's' (by decide)]
    decide
  have hy : ∀ prev, (lastOf prev (text "security")).any W.isWord = true := fun prev =>
    W.any_ascii (c := 'y') (by decide) (by decide)
  have hreads : (behindName W).Reads prev (a ++ (text "LABELS" ++ (b ++ text "security"))) rest [] := by
    refine ⟨a, _, [], [], rfl, rfl, ⟨hparen ha, rfl⟩, text "LABELS", _, [], [], rfl, rfl, ⟨rfl, rfl⟩,
      b, text "security", [], [], rfl, rfl, ⟨hparen hb, rfl⟩, [], text "security", [], [], rfl, rfl,
      ⟨⟨rfl, rfl⟩, ?_⟩, text "security", [], [], [], (List.append_nil _).symm, rfl, ⟨rfl, rfl⟩,
      ⟨rfl, rfl⟩, ?_⟩
    · rw [hlast, hedge]
      exact fun h => Bool.false_ne_true (h.trans hs)
    · rw [hy, hrest]
      exact Bool.noConfusion
  exact Option.ne_none_iff_exists'.mp fun hnone => by
    rw [List.head?_eq_none_iff] at hnone
    have hmem := mem_runs_append.mpr hreads
    rw [hnone] at hmem
    cases hmem

/-- The command, read from its beginning: the group is the name. -/
theorem securityRe_head? {s₁ s₂ name behind : Text} (prev : Option Char)
    (hs₁ : ∀ c ∈ s₁, isSpace c = true) (hs₂ : ∀ c ∈ s₂, isSpace c = true) (hne : name ≠ [])
    (hname : ∀ c ∈ name, W.isWord c = true) (hbehind : behind.head?.any W.isWord = false)
    (hrest : ∀ prev, ∃ m, ((behindName W).runs ⟨prev, behind⟩).head? = some m) :
    ∃ m, ((securityRe W).runs ⟨prev, text "set_tests_properties" ++
      (s₁ ++ (text "(" ++ (s₂ ++ (name ++ behind))))⟩).head? = some m ∧
        m.groups.headD [] = name := by
  have hopen : (text "(" ++ (s₂ ++ (name ++ behind))).head?.any isSpace = false := by
    show isSpace '(' = false
    decide
  have hfirst : (name ++ behind).head?.any isSpace = false := by
    obtain ⟨c, cs, rfl⟩ := List.exists_cons_of_ne_nil hne
    show isSpace c = false
    rw [Bool.eq_false_iff]
    intro hspace
    have hword := hname c List.mem_cons_self
    rw [W.space c hspace] at hword
    cases hword
  obtain ⟨m, hm⟩ := hrest (lastOf (lastOf (lastOf (lastOf (lastOf prev (text "set_tests_properties"))
    s₁) (text "(")) s₂) name)
  have hgroup := head?_seq (head?_group (wordRe_head? W _ hne hname hbehind)) hm
  have hskip₂ := head?_seq (head?_many _ hs₂ hfirst) hgroup
  have hparen := head?_seq (head?_lit _ _ _) hskip₂
  have hskip₁ := head?_seq (head?_many _ hs₁ hopen) hparen
  exact ⟨_, head?_seq (head?_lit prev (text "set_tests_properties") _) hskip₁, rfl⟩

/-- **A command written out plainly is seen**: nothing closes a parenthesis between its
    name and the label, and no earlier text that looks like its beginning is left open. -/
theorem found_of_plain {front s₁ s₂ name a b rest : Text} (hs₁ : ∀ c ∈ s₁, isSpace c = true)
    (hs₂ : ∀ c ∈ s₂, isSpace c = true) (hne : name ≠ []) (hname : ∀ c ∈ name, W.isWord c = true)
    (ha : ')' ∉ a) (hane : a ≠ []) (haword : a.head?.any W.isWord = false) (hb : ')' ∉ b)
    (hbne : b ≠ []) (hbword : b.getLast?.any W.isWord = false)
    (hrest : rest.head?.any W.isWord = false) {cml : Text}
    (hcml : cml = front ++ (text "set_tests_properties" ++ (s₁ ++ (text "(" ++ (s₂ ++ (name ++
      (a ++ (text "LABELS" ++ (b ++ text "security")) ++ rest)))))))
    (hclosed : ∀ j < front.length, text "set_tests_properties" <+: cml.drop j →
      ')' ∈ (cml.drop j).take (front.length - j)) :
    name ∈ (securityRe W).findall cml := by
  have hbehind : (a ++ (text "LABELS" ++ (b ++ text "security")) ++ rest).head?.any W.isWord =
      false := by
    obtain ⟨c, cs, rfl⟩ := List.exists_cons_of_ne_nil hane
    exact haword
  obtain ⟨m, hm, hgroup⟩ := securityRe_head? W (lastOf none front) hs₁ hs₂ hne hname hbehind
    fun prev => behindName_head? W prev ha hb hbword hbne hrest
  rw [← Place.advance_append, ← hcml] at hm
  have hlen : front.length < cml.length := by
    rw [hcml]
    have hset : (text "set_tests_properties").length = 20 := by decide
    simp only [List.length_append, hset]
    omega
  have hmatch : (⟨front.length, m.groups⟩ : Match) ∈ (securityRe W).finditer cml := by
    apply mem_finditer hm hlen
    intro j hj m' hm'
    -- an earlier match that reached so far would have a closing parenthesis in it
    obtain ⟨hle, hreads⟩ := mem_runs.mp hm'
    have hparen := (securityRe_avoids W).not_mem hreads
    obtain ⟨u₁, u₂, -, -, hu, -, ⟨rfl, -⟩, -⟩ := hreads
    have hbegins : text "set_tests_properties" <+: cml.drop j :=
      (hu ▸ List.prefix_append _ _ : text "set_tests_properties" <+: (cml.drop j).take m'.len).trans
        (List.take_prefix _ _)
    by_contra hlong
    apply hparen
    have hmem := hclosed j hj hbegins
    have hshort : front.length - j ≤ m'.len := by omega
    exact (List.take_prefix_take_left hshort).subset hmem
  exact List.mem_map.mpr ⟨_, hmatch, hgroup⟩

end RepoChecks
