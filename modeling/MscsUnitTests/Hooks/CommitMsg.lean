import MscsUnitTests.Lib.Lines
import MscsUnitTests.Lib.Regex

/-! # The commit-msg Hook

    `tools/hooks/commit-msg`: an awk filter that drops the lines with which a tool
    attributes a commit to itself, and a rewrite of the message when the filter has made
    a difference. A message is a file of any bytes.

    * `awk`, `commitMsg`: the script.
    * `attribution_iff`: what the three patterns look for.
    * `onlyAttribution_iff`: when nothing but attribution is touched. The rewrite is for
      any difference, and the filter makes two that no pattern is about: it trims the
      end of the message, and it ends the last line.
-/

open Regex TextLines

namespace CommitMsg

/-! ## Section 1: The script -/

abbrev Bytes := List UInt8

def LF : UInt8 := 10

def CR : UInt8 := 13

/-- A byte as the patterns see it. -/
def asChar (b : UInt8) : Char := Char.ofNat b.toNat

/-- `[ \t]`. -/
def isBlank (c : Char) : Bool := c = ' ' || c = '\t'

/-- `/^[ \t]*co-authored-by:/` -/
def coAuthored : Re := .seq .lineStart (.seq (.many isBlank) (.lit "co-authored-by:".toList))

/-- `/(claude|anthropic\.com)/` -/
def named : Re := .alt (.lit "claude".toList) (.lit "anthropic.com".toList)

/-- `/^[ \t]*claude-session:/` -/
def session : Re := .seq .lineStart (.seq (.many isBlank) (.lit "claude-session:".toList))

/-- A character that may be there. -/
def optional (c : Char) : Re := .alt (.lit [c]) (.lit [])

/-- `/generated with \[?claude code\]?/` -/
def generated : Re :=
  .seq (.lit "generated with ".toList)
    (.seq (optional '[') (.seq (.lit "claude code".toList) (optional ']')))

/-- `sub(/\r$/, "", line)`, and `tolower` of it. -/
def low (line : Bytes) : List Char :=
  (dropEnd CR line).map fun b => (asChar b).toLower

/-- The line is dropped: one of the three `next`. -/
def attribution (line : Bytes) : Bool :=
  (coAuthored.search (low line) && named.search (low line)) || session.search (low line) ||
    generated.search (low line)

/-- `t ~ /^[ \t]*$/`, behind which a CR may stand. -/
def blank (line : Bytes) : Bool :=
  (dropEnd CR line).all fun b => isBlank (asChar b)

/-- The records of awk. -/
def records (msg : Bytes) : List Bytes := splitLines LF msg

/-- The lines that are kept, the blank ones at the end excepted. -/
def out (msg : Bytes) : List Bytes :=
  ((records msg).filter fun line => !attribution line).rdropWhile blank

/-- The awk program: what it prints. -/
def awk (msg : Bytes) : Bytes := joinLines LF (out msg)

/-- What the hook leaves in the file, and the line it prints, if any. -/
structure Outcome where
  msg : Bytes
  note : Option String
  deriving DecidableEq

def removed : String := "commit-msg: removed Claude attribution from the commit message"

/-- The hook, from `awk` on. -/
def commitMsg (msg : Bytes) : Outcome :=
  let tmp := awk msg
  -- `cmp -s`
  if msg = tmp then ⟨msg, none⟩ else ⟨tmp, some removed⟩

/-! ## Section 2: What the patterns look for -/

/-- An anchored pattern is looked for at the beginning only, as a line has no line end
    within it. -/
theorem search_anchored {l s : List Char} (hl : '\n' ∉ l) :
    (Re.seq .lineStart (.seq (.many isBlank) (.lit s))).search l = true ↔
      ∃ blanks rest, (∀ c ∈ blanks, isBlank c = true) ∧ l = blanks ++ s ++ rest := by
  rw [search_iff]
  constructor
  · intro ⟨before, u, rest, groups, hs, u₁, u₂, g₁, g₂, hu, _, ⟨⟨hu₁, _⟩, hstart⟩, hmany⟩
    obtain ⟨blanks, v, _, _, hu₂, _, ⟨hblanks, _⟩, hv, _⟩ := hmany
    subst hu hu₁ hu₂ hv
    -- what stands before the match ends in a line end, so nothing does
    have hnone : before = [] := by
      by_contra hne
      have hlast := List.getLast?_eq_some_getLast hne
      unfold lastOf at hstart
      rw [hlast] at hstart
      have hlf : before.getLast hne = '\n' := by simpa using hstart
      exact hl (hs ▸ List.mem_append_left _ (hlf ▸ List.getLast_mem hne))
    subst hnone
    exact ⟨blanks, rest, hblanks, by simpa using hs⟩
  · intro ⟨blanks, rest, hblanks, hs⟩
    refine ⟨[], blanks ++ s, rest, [], by simpa using hs, [], blanks ++ s, [], [], rfl, rfl,
      ⟨⟨rfl, rfl⟩, rfl⟩, blanks, s, [], [], rfl, rfl, ⟨hblanks, rfl⟩, rfl, rfl⟩

/-- The footer, with or without its brackets. -/
def footers : List (List Char) :=
  ["generated with claude code".toList, "generated with [claude code".toList]

/-- The bracket at the end makes no difference. -/
theorem search_generated {l : List Char} :
    generated.search l = true ↔ ∃ footer ∈ footers, footer <:+: l := by
  rw [search_iff]
  constructor
  · intro ⟨before, u, rest, groups, hs, a, b, _, _, hu, _, ⟨ha, _⟩, o, c, _, _, hb, _, ho, d, e,
      _, _, hc, _, ⟨hd, _⟩, _⟩
    subst hu ha hb hc hd
    rcases ho with ⟨ho, _⟩ | ⟨ho, _⟩
    · subst ho
      exact ⟨_, List.mem_cons_of_mem _ List.mem_cons_self, before, e ++ rest, by simp [hs]⟩
    · subst ho
      exact ⟨_, List.mem_cons_self, before, e ++ rest, by simp [hs]⟩
  · intro ⟨footer, hmem, before, rest, hs⟩
    have hlit : ∀ (o : List Char), o = ['['] ∨ o = [] →
        l = before ++ ("generated with ".toList ++ (o ++ ("claude code".toList ++ [])) ++ rest) →
        ∃ before u rest groups, l = before ++ (u ++ rest) ∧
          generated.Reads (lastOf none before) u rest groups := by
      intro o ho hl
      refine ⟨before, _, rest, [], hl, _, _, [], [], rfl, rfl, ⟨rfl, rfl⟩, _, _, [], [], rfl, rfl, ?_,
        _, _, [], [], rfl, rfl, ⟨rfl, rfl⟩, Or.inr ⟨rfl, rfl⟩⟩
      rcases ho with ho | ho
      · exact Or.inl ⟨ho, rfl⟩
      · exact Or.inr ⟨ho, rfl⟩
    rcases List.mem_cons.mp hmem with h | h
    · exact hlit [] (Or.inr rfl) (by rw [← hs, h]; simp)
    · obtain rfl := List.mem_singleton.mp h
      exact hlit ['['] (Or.inl rfl) (by rw [← hs]; simp)

theorem lf_not_mem_low {line : Bytes} (h : LF ∉ line) : '\n' ∉ low line := by
  have hbyte : ∀ n < 256, (Char.ofNat n).toLower = '\n' → n = 10 := by decide +kernel
  intro hmem
  obtain ⟨b, hb, hlow⟩ := List.mem_map.mp hmem
  have hten : b.toNat = 10 := hbyte b.toNat b.toNat_lt hlow
  have hin : b ∈ line := by
    unfold dropEnd at hb
    split at hb
    · exact (List.dropLast_prefix _).subset hb
    · exact hb
  exact h ((UInt8.toNat_inj.mp hten : b = LF) ▸ hin)

/-- **What is dropped**: a co-author trailer that names the tool or its maker, a session
    trailer, and the footer. A co-author of another name stays. -/
theorem attribution_iff {line : Bytes} (h : LF ∉ line) : attribution line = true ↔
    ((∃ blanks rest, (∀ c ∈ blanks, isBlank c = true) ∧
        low line = blanks ++ "co-authored-by:".toList ++ rest) ∧
      ("claude".toList <:+: low line ∨ "anthropic.com".toList <:+: low line)) ∨
    (∃ blanks rest, (∀ c ∈ blanks, isBlank c = true) ∧
      low line = blanks ++ "claude-session:".toList ++ rest) ∨
    ∃ footer ∈ footers, footer <:+: low line := by
  have hlow := lf_not_mem_low h
  unfold attribution
  rw [Bool.or_eq_true, Bool.or_eq_true, Bool.and_eq_true, or_assoc]
  unfold coAuthored named session
  rw [search_anchored hlow, search_anchored hlow, search_alt, search_lit, search_lit,
    search_generated]

/-! ## Section 3: What the filter makes of a message -/

theorem records_joinLines {lines : List Bytes} (h : ∀ l ∈ lines, LF ∉ l) :
    records (joinLines LF lines) = lines := by
  have hsplit := splitLines_joinLines LF h []
  rw [List.append_nil] at hsplit
  unfold records
  rw [hsplit]
  simp [splitLines]

theorem records_unterminated {front : List Bytes} {last : Bytes} (hfront : ∀ l ∈ front, LF ∉ l)
    (hlast : LF ∉ last) (hne : last ≠ []) :
    records (joinLines LF front ++ last) = front ++ [last] := by
  unfold records
  rw [splitLines_joinLines LF hfront, splitLines_last LF hlast hne]

/-- The lines of a message, none with a line end in it. -/
theorem lf_not_mem_records (msg : Bytes) : ∀ l ∈ records msg, LF ∉ l := by
  obtain ⟨front, last, hfront, hlast, rfl⟩ := exists_lines LF msg
  unfold records
  rw [splitLines_joinLines LF hfront]
  by_cases hempty : last = []
  · rw [hempty]
    simpa [splitLines] using hfront
  · rw [splitLines_last LF hlast hempty]
    intro l hl
    rcases List.mem_append.mp hl with h | h
    · exact hfront l h
    · exact List.mem_singleton.mp h ▸ hlast

theorem mem_out {msg l : Bytes} (h : l ∈ out msg) : l ∈ records msg ∧ attribution l = false := by
  have hmem := (List.rdropWhile_prefix _ _).subset h
  obtain ⟨hrec, hnot⟩ := List.mem_filter.mp hmem
  exact ⟨hrec, by simpa using hnot⟩

theorem filter_of_none {lines : List Bytes} (hnone : ∀ l ∈ lines, attribution l = false) :
    (lines.filter fun line => !attribution line) = lines := by
  rw [List.filter_eq_self]
  intro l hl
  rw [hnone l hl]
  rfl

/-- What the filter has made, it makes no more of. -/
theorem awk_awk (msg : Bytes) : awk (awk msg) = awk msg := by
  have hlines : ∀ l ∈ out msg, LF ∉ l := fun l hl => lf_not_mem_records msg l (mem_out hl).1
  have hkept : (out msg).filter (fun line => !attribution line) = out msg :=
    filter_of_none fun l hl => (mem_out hl).2
  have hout : out (awk msg) = out msg := by
    show ((records (joinLines LF (out msg))).filter _).rdropWhile blank = out msg
    rw [records_joinLines hlines, hkept]
    exact List.rdropWhile_idempotent _ _
  unfold awk at hout ⊢
  rw [hout]

/-- A text of whole lines ends in a line end. -/
theorem getLast?_joinLines_concat (front : List Bytes) (l : Bytes) :
    (joinLines LF (front.concat l)).getLast? = some LF := by
  unfold joinLines
  rw [List.concat_eq_append, List.flatMap_append, List.flatMap_singleton, ← List.append_assoc]
  exact List.getLast?_concat

theorem getLast?_joinLines (lines : List Bytes) :
    (joinLines LF lines).getLast? = none ∨ (joinLines LF lines).getLast? = some LF := by
  rcases List.eq_nil_or_concat lines with h | ⟨front, l, h⟩
  · rw [h]
    exact Or.inl rfl
  · rw [h]
    exact Or.inr (getLast?_joinLines_concat front l)

/-! ## Section 4: Only attribution -/

/-- The message without its attribution lines, and without the blank lines that are
    then at its end. Every other line is there with the end it has. -/
def stripped (msg : Bytes) : Bytes :=
  (((withEnds LF msg).filter fun l => !attribution (dropEnd LF l)).rdropWhile
    fun l => blank (dropEnd LF l)).flatten

/-- What the header promises of the hook. -/
structure OnlyAttribution (msg : Bytes) : Prop where
  /-- No attribution: not a byte is touched, and nothing is said. -/
  untouched : (∀ l ∈ records msg, attribution l = false) → commitMsg msg = ⟨msg, none⟩
  removed : (∃ l ∈ records msg, attribution l = true) →
    commitMsg msg = ⟨stripped msg, some removed⟩
  again : (commitMsg (commitMsg msg).msg).msg = (commitMsg msg).msg

/-- The message has a last line, and the line has its end. -/
def Terminated (msg : Bytes) : Prop := msg.getLast? = some LF

theorem commitMsg_msg (msg : Bytes) : (commitMsg msg).msg = awk msg := by
  unfold commitMsg
  dsimp only
  split
  · next h => exact h
  · rfl

/-- The front of the expected text: whole lines that are kept. -/
theorem filter_withEnds (front : List Bytes) :
    (front.map fun l => l ++ [LF]).filter (fun l => !attribution (dropEnd LF l)) =
      (front.filter fun l => !attribution l).map fun l => l ++ [LF] := by
  rw [List.filter_map]
  congr 1
  apply List.filter_congr
  intro l _
  show (!attribution (dropEnd LF (l ++ [LF]))) = !attribution l
  rw [dropEnd_append]

theorem rdropWhile_withEnds (front : List Bytes) :
    (front.map fun l => l ++ [LF]).rdropWhile (fun l => blank (dropEnd LF l)) =
      (front.rdropWhile blank).map fun l => l ++ [LF] := by
  rw [rdropWhile_map]
  congr 2
  funext l
  show blank (dropEnd LF (l ++ [LF])) = blank l
  rw [dropEnd_append]

/-- Of whole lines, the filter makes what is expected of it. -/
theorem stripped_joinLines {front : List Bytes} (hfront : ∀ l ∈ front, LF ∉ l) :
    stripped (joinLines LF front) = awk (joinLines LF front) := by
  have hends := withEnds_joinLines LF hfront []
  rw [List.append_nil] at hends
  unfold stripped awk out
  rw [hends, records_joinLines hfront]
  simp only [withEnds, List.append_nil]
  rw [filter_withEnds, rdropWhile_withEnds]
  rfl

/-- When the last line has no end, this is so when the line goes. -/
theorem stripped_unterminated_iff {front : List Bytes} {last : Bytes}
    (hfront : ∀ l ∈ front, LF ∉ l) (hlast : LF ∉ last) (hne : last ≠ []) :
    stripped (joinLines LF front ++ last) = awk (joinLines LF front ++ last) ↔
      attribution last = true ∨ blank last = true := by
  have hrecords := records_unterminated hfront hlast hne
  have hends : withEnds LF (joinLines LF front ++ last) =
      front.map (fun l => l ++ [LF]) ++ [last] := by
    rw [withEnds_joinLines LF hfront, withEnds_last LF hlast hne]
  unfold stripped awk out
  rw [hends, hrecords, List.filter_append, List.filter_append, filter_withEnds]
  have hchomp := dropEnd_of_not_mem LF hlast
  by_cases hattr : attribution last = true
  · -- it is dropped by both
    have hdrop : [last].filter (fun l => !attribution l) = [] := by simp [hattr]
    have hdrop' : [last].filter (fun l => !attribution (dropEnd LF l)) = [] := by
      simp [hchomp, hattr]
    rw [hdrop, hdrop', List.append_nil, List.append_nil, rdropWhile_withEnds]
    exact ⟨fun _ => Or.inl hattr, fun _ => rfl⟩
  · have hkeep : [last].filter (fun l => !attribution l) = [last] := by simp [hattr]
    have hkeep' : [last].filter (fun l => !attribution (dropEnd LF l)) = [last] := by
      simp [hchomp, hattr]
    rw [hkeep, hkeep', List.rdropWhile_concat, List.rdropWhile_concat, hchomp]
    by_cases hblank : blank last = true
    · rw [if_pos hblank, if_pos hblank, rdropWhile_withEnds]
      exact ⟨fun _ => Or.inr hblank, fun _ => rfl⟩
    · -- it is kept by both, but the filter adds an end
      rw [if_neg hblank, if_neg hblank]
      constructor
      · intro heq
        unfold joinLines at heq
        rw [List.flatMap_append, List.flatMap_singleton, List.flatten_append, List.flatten_singleton,
          ← List.flatMap_def] at heq
        have hlen := List.append_cancel_left heq
        exact absurd (congrArg List.length hlen) (by simp)
      · intro h
        rcases h with h | h
        · exact absurd h hattr
        · exact absurd h hblank

/-- Whole lines are left alone just when all of them are kept. -/
theorem awk_joinLines_eq_iff {front : List Bytes} (hfront : ∀ l ∈ front, LF ∉ l) :
    awk (joinLines LF front) = joinLines LF front ↔
      (∀ l ∈ front, attribution l = false) ∧ ∀ l ∈ front.getLast?, blank l = false := by
  have hout : out (joinLines LF front) =
      (front.filter fun line => !attribution line).rdropWhile blank := by
    unfold out
    rw [records_joinLines hfront]
  constructor
  · intro h
    have hsame : out (joinLines LF front) = front := by
      have hlines : ∀ l ∈ out (joinLines LF front), LF ∉ l :=
        fun l hl => lf_not_mem_records _ l (mem_out hl).1
      have hrecords := congrArg records h
      unfold awk at hrecords
      rwa [records_joinLines hlines, records_joinLines hfront] at hrecords
    have hnone : ∀ l ∈ front, attribution l = false := by
      intro l hl
      rw [← hsame] at hl
      exact (mem_out hl).2
    refine ⟨hnone, fun l hl => ?_⟩
    rw [hout, filter_of_none hnone, List.rdropWhile_eq_self_iff] at hsame
    obtain ⟨hne, rfl⟩ := List.mem_getLast?_eq_getLast hl
    exact Bool.eq_false_iff.mpr (hsame hne)
  · intro ⟨hnone, hlast⟩
    have hsame : out (joinLines LF front) = front := by
      rw [hout, filter_of_none hnone, List.rdropWhile_eq_self_iff]
      intro hne
      rw [hlast _ (List.getLast?_eq_some_getLast hne)]
      exact Bool.false_ne_true
    unfold awk
    rw [hsame]

/-- A last line without an end is never left as it is. -/
theorem awk_unterminated_ne (front : List Bytes) {last : Bytes} (hlast : LF ∉ last)
    (hne : last ≠ []) : awk (joinLines LF front ++ last) ≠ joinLines LF front ++ last := by
  intro h
  have hend : (joinLines LF front ++ last).getLast? = some (last.getLast hne) := by
    rw [List.getLast?_append, List.getLast?_eq_some_getLast hne]
    rfl
  rw [← h] at hend
  rcases getLast?_joinLines (out (joinLines LF front ++ last)) with hnone | hlf
  · exact absurd (hend.symm.trans hnone) (by simp)
  · have heq := Option.some.inj (hend.symm.trans hlf)
    exact hlast (heq ▸ List.getLast_mem hne)

theorem commitMsg_again (msg : Bytes) :
    (commitMsg (commitMsg msg).msg).msg = (commitMsg msg).msg := by
  rw [commitMsg_msg, commitMsg_msg, awk_awk]

/-- Without a last line that has its end, a text of whole lines has none at all. -/
theorem getLast?_of_not_terminated {front : List Bytes} (h : ¬ Terminated (joinLines LF front)) :
    front.getLast? = none := by
  rcases List.eq_nil_or_concat front with hnil | ⟨front', l, hfront⟩
  · rw [hnil]
    rfl
  · rw [hfront] at h
    exact absurd (getLast?_joinLines_concat front' l) h

theorem not_terminated_append (front : List Bytes) {last : Bytes} (hlast : LF ∉ last)
    (hne : last ≠ []) : ¬ Terminated (joinLines LF front ++ last) := by
  unfold Terminated
  rw [List.getLast?_append, List.getLast?_eq_some_getLast hne]
  intro h
  exact hlast (Option.some.inj h ▸ List.getLast_mem hne)

/-- The condition for a message of whole lines. -/
theorem onlyAttribution_joinLines_iff {front : List Bytes} (hfront : ∀ l ∈ front, LF ∉ l) :
    OnlyAttribution (joinLines LF front) ↔
      ((∀ l ∈ front, attribution l = false) → ∀ l ∈ front.getLast?, blank l = false) := by
  have hrecords := records_joinLines hfront
  have hsame := awk_joinLines_eq_iff hfront
  constructor
  · intro h hnone
    have hunt := congrArg Outcome.msg (h.untouched (hrecords.symm ▸ hnone))
    rw [commitMsg_msg] at hunt
    exact (hsame.mp hunt).2
  · intro hblank
    refine ⟨fun hnone => ?_, fun hsome => ?_, commitMsg_again _⟩
    · rw [hrecords] at hnone
      exact if_pos (hsame.mpr ⟨hnone, hblank hnone⟩).symm
    · obtain ⟨l, hl, hattr⟩ := hsome
      rw [hrecords] at hl
      rw [stripped_joinLines hfront]
      apply if_neg
      intro heq
      rw [(hsame.mp heq.symm).1 l hl] at hattr
      cases hattr

/-- The condition for a message whose last line has no end: the message is always
    rewritten, so there is to be attribution in it, and the last line is to go. -/
theorem onlyAttribution_unterminated_iff {front : List Bytes} {last : Bytes}
    (hfront : ∀ l ∈ front, LF ∉ l) (hlast : LF ∉ last) (hne : last ≠ []) :
    OnlyAttribution (joinLines LF front ++ last) ↔
      (¬ ∀ l ∈ front ++ [last], attribution l = false) ∧
        (attribution last = true ∨ blank last = true) := by
  have hrecords := records_unterminated hfront hlast hne
  have hstripped := stripped_unterminated_iff hfront hlast hne
  have hnote : commitMsg (joinLines LF front ++ last) =
      ⟨awk (joinLines LF front ++ last), some removed⟩ :=
    if_neg (Ne.symm (awk_unterminated_ne front hlast hne))
  constructor
  · intro h
    have hsome : ¬ ∀ l ∈ front ++ [last], attribution l = false := by
      intro hnone
      have hunt := h.untouched (hrecords.symm ▸ hnone)
      rw [hnote] at hunt
      cases congrArg Outcome.note hunt
    refine ⟨hsome, ?_⟩
    push Not at hsome
    obtain ⟨l, hl, hattr⟩ := hsome
    have hremoved := h.removed ⟨l, hrecords.symm ▸ hl, by simpa using hattr⟩
    rw [hnote] at hremoved
    exact hstripped.mp (congrArg Outcome.msg hremoved).symm
  · intro ⟨hsome, hgoes⟩
    refine ⟨fun hnone => ?_, fun _ => ?_, commitMsg_again _⟩
    · rw [hrecords] at hnone
      exact absurd hnone hsome
    · rw [hnote, hstripped.mpr hgoes]

/-- **When only attribution is touched**: a message without any does not end in a blank
    line, and a last line without an end is one that goes anyway. -/
theorem onlyAttribution_iff (msg : Bytes) : OnlyAttribution msg ↔
    ((∀ l ∈ records msg, attribution l = false) →
      ∀ l ∈ (records msg).getLast?, blank l = false) ∧
    (¬ Terminated msg →
      ∀ l ∈ (records msg).getLast?, attribution l = true ∨ blank l = true) := by
  obtain ⟨front, last, hfront, hlast, rfl⟩ := exists_lines LF msg
  by_cases hempty : last = []
  · -- whole lines
    subst hempty
    rw [List.append_nil, onlyAttribution_joinLines_iff hfront, records_joinLines hfront]
    refine ⟨fun hblank => ⟨hblank, fun hterm l hl => ?_⟩, fun h => h.1⟩
    rw [getLast?_of_not_terminated hterm] at hl
    cases hl
  · -- a last line without an end
    have hterm := not_terminated_append front hlast hempty
    have hlastRec : (front ++ [last]).getLast? = some last := List.getLast?_concat
    rw [onlyAttribution_unterminated_iff hfront hlast hempty,
      records_unterminated hfront hlast hempty, hlastRec]
    constructor
    · intro ⟨hsome, hgoes⟩
      refine ⟨fun hnone => absurd hnone hsome, fun _ l hl => ?_⟩
      obtain rfl := Option.some.inj hl
      exact hgoes
    · intro ⟨hblank, hgoes⟩
      have hlastGoes := hgoes hterm last rfl
      refine ⟨fun hnone => ?_, hlastGoes⟩
      -- a line that is neither attribution nor blank would have to stay
      have hnot := hnone last (List.mem_append_right _ (List.mem_singleton_self last))
      rw [hnot, hblank hnone last rfl] at hlastGoes
      simp at hlastGoes

/-- A message with a blank line at its end, and no attribution. -/
def helloBlank : Bytes := [104, 101, 108, 108, 111, 10, 10]

/-- It is rewritten all the same, and a removal is reported. -/
theorem blank_line_is_dropped :
    (∀ l ∈ records helloBlank, attribution l = false) ∧
    commitMsg helloBlank = ⟨[104, 101, 108, 108, 111, 10], some removed⟩ ∧
    ¬ OnlyAttribution helloBlank := by
  have hnone : ∀ l ∈ records helloBlank, attribution l = false := by decide +kernel
  have hrun : commitMsg helloBlank = ⟨[104, 101, 108, 108, 111, 10], some removed⟩ := by
    decide +kernel
  refine ⟨hnone, hrun, fun h => ?_⟩
  have hunt := h.untouched hnone
  rw [hrun] at hunt
  cases congrArg Outcome.note hunt

end CommitMsg
