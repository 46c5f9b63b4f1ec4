import MscsUnitTests.Ci.Report

/-! # Repository Checks: Every Source Is Wired

    `check_every_source_is_wired` of `check_repo_invariants.py`: every `.cpp` in
    the repository root is mentioned by `CMakeLists.txt`, or is a recorded
    exception. A mention is a whole-word match anywhere in the file's text; what
    CMake executes is the text outside comments.
-/

namespace RepoChecks

/-! ## Section 1: The check -/

/-- The repository root: the entries `os.listdir` gives, each with whether it is a
    regular file. -/
abbrev RootDir : Type := List (Text × Bool)

/-- `os.listdir`. -/
def RootDir.names (root : RootDir) : List Text := root.map Prod.fst

/-- `os.path.isfile`. -/
def RootDir.isFile (root : RootDir) (name : Text) : Bool :=
  root.any fun entry => entry == (name, true)

/-- The keys of `KNOWN_UNWIRED`. -/
def knownUnwired : List Text := [text "crypto_kat.cpp", text "stdafx.cpp"]

/-- `entry.endswith(".cpp")`. -/
def isCpp (entry : Text) : Bool := (text ".cpp").isSuffixOf entry

/-- `entry[:-4]`. -/
def stemOf (entry : Text) : Text := entry.take (entry.length - 4)

/-- `[A-Za-z0-9_]`. -/
def isWordChar (c : Char) : Bool :=
  c.isAlphanum || c == '_'

/-- The stem stands at a position, with no word character on either side. -/
def wholeWordAt (stem cml : Text) (i : Nat) : Bool :=
  stem.isPrefixOf (cml.drop i) && !(cml.take i).getLast?.any isWordChar &&
    !(cml.drop (i + stem.length)).head?.any isWordChar

/-- The regular expression of the check, searched for in the whole text. -/
def searchWord (stem cml : Text) : Bool :=
  (List.range (cml.length + 1)).any (wholeWordAt stem cml)

def movedText (entry : Text) : Text :=
  entry ++ text (" is in KNOWN_UNWIRED but is not in this directory any more -- delete the entry " ++
    "(it moved or was removed)")

def resolvedText (entry : Text) : Text :=
  entry ++ text (" is in KNOWN_UNWIRED but IS now referenced by CMakeLists.txt -- delete the " ++
    "entry, the exception has been resolved")

def unwiredText (entry : Text) : Text :=
  entry ++ text (" is in the repository but nothing in CMakeLists.txt refers to it. Register it, " ++
    "or add it to KNOWN_UNWIRED with a reason.")

/-- The variables of the check's loops. -/
structure Wiring where
  report : Report
  wired : Nat
  unwired : List Text

/-- One pass over `sorted(KNOWN_UNWIRED)`. -/
def checkKnown (root : RootDir) (r : Report) (entry : Text) : Report :=
  if root.isFile entry then r else r.fail (text "wiring") (movedText entry)

/-- One pass over `sorted(os.listdir(REPO))`. -/
def checkEntry (cml : Text) (w : Wiring) (entry : Text) : Wiring :=
  if !isCpp entry then w
  else if searchWord (stemOf entry) cml then
    { w with
      report :=
        if entry ∈ knownUnwired then w.report.fail (text "wiring") (resolvedText entry)
        else w.report
      wired := w.wired + 1 }
  else if entry ∈ knownUnwired then { w with unwired := w.unwired ++ [entry] }
  else { w with report := w.report.fail (text "wiring") (unwiredText entry) }

/-- The closing note. -/
def wiringNote (w : Wiring) : Text :=
  decimal w.wired ++ text " sources wired into CMakeLists.txt; " ++ decimal w.unwired.length ++
    text " deliberately not (" ++
    (if w.unwired = [] then text "none" else commaJoin w.unwired) ++ text ")"

def checkEverySourceIsWired (root : RootDir) (cml : Text) (r : Report) : Report :=
  let r := (sorted knownUnwired).foldl (checkKnown root) r
  let w := (sorted root.names).foldl (checkEntry cml) ⟨r, 0, []⟩
  w.report.note (wiringNote w)

/-! ## Section 2: What the check reports -/

/-- The errors an exception gives rise to. -/
def knownErrors (root : RootDir) (entry : Text) : List Text :=
  (checkKnown root ⟨[], []⟩ entry).errors

/-- The errors an entry gives rise to. -/
def entryErrors (cml entry : Text) : List Text :=
  (checkEntry cml ⟨⟨[], []⟩, 0, []⟩ entry).report.errors

theorem errors_checkKnown (root : RootDir) (r : Report) (entry : Text) :
    (checkKnown root r entry).errors = r.errors ++ knownErrors root entry := by
  unfold knownErrors checkKnown
  cases root.isFile entry <;> simp

theorem errors_checkEntry (cml : Text) (w : Wiring) (entry : Text) :
    (checkEntry cml w entry).report.errors = w.report.errors ++ entryErrors cml entry := by
  unfold entryErrors checkEntry
  cases isCpp entry with
  | false => simp
  | true =>
    by_cases hknown : entry ∈ knownUnwired <;> cases searchWord (stemOf entry) cml <;>
      simp [hknown]

theorem errors_checkEverySourceIsWired (root : RootDir) (cml : Text) (r : Report) :
    (checkEverySourceIsWired root cml r).errors =
      r.errors ++ ((sorted knownUnwired).flatMap (knownErrors root) ++
        (sorted root.names).flatMap (entryErrors cml)) := by
  unfold checkEverySourceIsWired
  dsimp only
  have hknown := errors_foldl id (checkKnown root) (knownErrors root) (errors_checkKnown root)
    (sorted knownUnwired) r
  have hentries := errors_foldl Wiring.report (checkEntry cml) (entryErrors cml)
    (errors_checkEntry cml) (sorted root.names)
  rw [Report.errors_note, hentries]
  show ((sorted knownUnwired).foldl (checkKnown root) r).errors ++ _ = _
  rw [show ((sorted knownUnwired).foldl (checkKnown root) r).errors = _ from hknown]
  exact List.append_assoc _ _ _

/-- An exception is complained about when it is not a file. -/
theorem knownErrors_eq_nil_iff (root : RootDir) (entry : Text) :
    knownErrors root entry = [] ↔ root.isFile entry = true := by
  unfold knownErrors checkKnown
  cases root.isFile entry <;> simp

/-- A source is complained about when the exceptions and the mentions disagree. -/
theorem entryErrors_eq_nil_iff (cml entry : Text) :
    entryErrors cml entry = [] ↔
      (isCpp entry = true → (entry ∈ knownUnwired ↔ searchWord (stemOf entry) cml = false)) := by
  unfold entryErrors checkEntry
  cases isCpp entry with
  | false => simp
  | true =>
    by_cases hknown : entry ∈ knownUnwired <;> cases searchWord (stemOf entry) cml <;>
      simp [hknown]

/-- The check raises a failure: an exception is no longer a file, an exception is
    mentioned, or a source that is not an exception is not. -/
def RaisesFailure (root : RootDir) (cml : Text) : Prop :=
  (∃ entry ∈ knownUnwired, root.isFile entry = false) ∨
    ∃ entry ∈ root.names, isCpp entry = true ∧
      ¬ (entry ∈ knownUnwired ↔ searchWord (stemOf entry) cml = false)

theorem raisesFailure_iff (root : RootDir) (cml : Text) (r : Report) :
    (checkEverySourceIsWired root cml r).errors ≠ r.errors ↔ RaisesFailure root cml := by
  rw [errors_checkEverySourceIsWired, ne_eq, List.append_right_eq_self, List.append_eq_nil_iff,
    List.flatMap_eq_nil_iff, List.flatMap_eq_nil_iff]
  simp only [mem_sorted, knownErrors_eq_nil_iff, entryErrors_eq_nil_iff]
  unfold RaisesFailure
  constructor
  · intro h
    by_contra hno
    push Not at hno
    apply h
    constructor
    · intro entry hentry
      simpa using hno.1 entry hentry
    · intro entry hentry hcpp
      exact hno.2 entry hentry hcpp
  · rintro (⟨entry, hentry, hfile⟩ | ⟨entry, hentry, hcpp, hdis⟩) ⟨hknown, hall⟩
    · rw [hknown entry hentry] at hfile
      cases hfile
    · exact hdis (hall entry hentry hcpp)

/-! ## Section 3: Comments of a CMake file -/

/-- Where CMake's lexer stands. A bracket argument or comment is closed by as many
    `=` as opened it. -/
inductive Lexer where
  | start
  | word
  | escape
  | quoted
  | quotedEscape
  | hash
  | line
  | opening (comment : Bool) (eqs : Nat)
  | bracket (comment : Bool) (eqs : Nat)
  | closing (comment : Bool) (eqs seen : Nat)
  deriving DecidableEq

/-- Outside of quotes, brackets and comments: the next state, and whether the
    character is part of a comment. -/
def Lexer.plain (c : Char) : Lexer × Bool :=
  if c = '#' then (.hash, true)
  else if c = '"' then (.quoted, false)
  else if c = '\\' then (.escape, false)
  else if c = ' ' ∨ c = '\t' ∨ c = '\n' ∨ c = '(' ∨ c = ')' then (.start, false)
  else (.word, false)

/-- Inside a line comment. -/
def Lexer.inLine (c : Char) : Lexer × Bool :=
  if c = '\n' then (.start, false) else (.line, true)

/-- Inside a bracket. -/
def Lexer.inBracket (comment : Bool) (eqs : Nat) (c : Char) : Lexer × Bool :=
  if c = ']' then (.closing comment eqs 0, comment) else (.bracket comment eqs, comment)

def Lexer.step : Lexer → Char → Lexer × Bool
  -- a bracket opens at the start of an argument, or right after the `#`
  | .start, c => if c = '[' then (.opening false 0, false) else plain c
  | .hash, c => if c = '[' then (.opening true 0, true) else inLine c
  | .word, c => plain c
  | .escape, _ => (.word, false)
  | .quoted, c =>
    if c = '"' then (.start, false)
    else if c = '\\' then (.quotedEscape, false)
    else (.quoted, false)
  | .quotedEscape, _ => (.quoted, false)
  | .line, c => inLine c
  | .opening comment eqs, c =>
    if c = '=' then (.opening comment (eqs + 1), comment)
    else if c = '[' then (.bracket comment eqs, comment)
    else if comment then inLine c
    else plain c
  | .bracket comment eqs, c => inBracket comment eqs c
  | .closing comment eqs seen, c =>
    if c = '=' then (.closing comment eqs (seen + 1), comment)
    else if c = ']' ∧ seen = eqs then (.start, comment)
    else inBracket comment eqs c

/-- Which characters are part of a comment, from a state of the lexer on. -/
def commentMaskFrom : Lexer → Text → List Bool
  | _, [] => []
  | s, c :: rest => (s.step c).2 :: commentMaskFrom (s.step c).1 rest

def commentMask (cml : Text) : List Bool := commentMaskFrom .start cml

/-- The stem stands at a position as a whole word, outside comments. -/
def commandWordAt (stem cml : Text) (i : Nat) : Bool :=
  wholeWordAt stem cml i && !(((commentMask cml).drop i).take stem.length).any id

/-- The stem is a whole word of the command text. -/
def MentionedInCommand (stem cml : Text) : Prop :=
  ∃ i ∈ List.range (cml.length + 1), commandWordAt stem cml i = true

/-- The stem is a whole word of the text, but of its comments only. -/
def OnlyInComments (stem cml : Text) : Prop :=
  searchWord stem cml = true ∧
    ∀ i ∈ List.range (cml.length + 1), wholeWordAt stem cml i = true →
      (((commentMask cml).drop i).take stem.length).any id = true

instance (stem cml : Text) : Decidable (MentionedInCommand stem cml) :=
  inferInstanceAs (Decidable (∃ _ ∈ _, _))

instance (stem cml : Text) : Decidable (OnlyInComments stem cml) :=
  inferInstanceAs (Decidable (_ ∧ _))

theorem mentionedInCommand_or_onlyInComments (stem cml : Text)
    (h : searchWord stem cml = true) : MentionedInCommand stem cml ∨ OnlyInComments stem cml := by
  -- every mention has a masked character, or one has none
  by_cases hcmd : MentionedInCommand stem cml
  · exact Or.inl hcmd
  · refine Or.inr ⟨h, ?_⟩
    intro i hi hword
    by_contra hmask
    apply hcmd
    refine ⟨i, hi, ?_⟩
    unfold commandWordAt
    rw [hword, Bool.eq_false_iff.mpr hmask]
    rfl

theorem not_onlyInComments_of_mentioned (stem cml : Text) (h : MentionedInCommand stem cml) :
    ¬ OnlyInComments stem cml := by
  rintro ⟨-, hall⟩
  obtain ⟨i, hi, hcmd⟩ := h
  unfold commandWordAt at hcmd
  rw [Bool.and_eq_true] at hcmd
  rw [hall i hi hcmd.1] at hcmd
  exact absurd hcmd.2 (by decide)

/-! ## Section 4: What the check is worth -/

/-- Every source that is not an exception is mentioned by a command. -/
def AllWired (root : RootDir) (cml : Text) : Prop :=
  ∀ name, (name, true) ∈ root → isCpp name = true → name ∉ knownUnwired →
    MentionedInCommand (stemOf name) cml

/-- What the check accepts, and no comment alone mentions, is wired. -/
theorem allWired_of_accepted (root : RootDir) (cml : Text) (r : Report)
    (haccept : (checkEverySourceIsWired root cml r).errors = r.errors)
    (hcomments : ∀ name, (name, true) ∈ root → isCpp name = true → name ∉ knownUnwired →
      ¬ OnlyInComments (stemOf name) cml) : AllWired root cml := by
  intro name hname hcpp hunknown
  -- nothing was raised for this source, so the search found it
  have hfound : searchWord (stemOf name) cml = true := by
    by_contra hnone
    apply (raisesFailure_iff root cml r).mpr ?_ haccept
    right
    refine ⟨name, List.mem_map.mpr ⟨_, hname, rfl⟩, hcpp, ?_⟩
    intro hiff
    exact hunknown (hiff.mpr (Bool.eq_false_iff.mpr hnone))
  rcases mentionedInCommand_or_onlyInComments _ _ hfound with hcmd | honly
  · exact hcmd
  · exact absurd honly (hcomments name hname hcpp hunknown)

/-- **When acceptance means wired**: the check raises a failure, or no source that
    is not an exception is mentioned by comments alone. -/
theorem accepted_is_wired_iff (root : RootDir) (cml : Text) (r : Report) :
    ((checkEverySourceIsWired root cml r).errors = r.errors → AllWired root cml) ↔
      RaisesFailure root cml ∨
        ∀ name, (name, true) ∈ root → isCpp name = true → name ∉ knownUnwired →
          ¬ OnlyInComments (stemOf name) cml := by
  constructor
  · intro h
    by_cases hraise : RaisesFailure root cml
    · exact Or.inl hraise
    · right
      have haccept : (checkEverySourceIsWired root cml r).errors = r.errors := by
        by_contra hne
        exact hraise ((raisesFailure_iff root cml r).mp hne)
      intro name hname hcpp hunknown
      exact not_onlyInComments_of_mentioned _ _ (h haccept name hname hcpp hunknown)
  · intro h haccept
    apply allWired_of_accepted root cml r haccept
    rcases h with hraise | hcomments
    · exact absurd haccept ((raisesFailure_iff root cml r).mpr hraise)
    · exact hcomments

/-- The states inside a comment. -/
def Lexer.inComment : Lexer → Bool
  | .hash | .line => true
  | .opening comment _ | .bracket comment _ | .closing comment _ _ => comment
  | _ => false

/-- Only a `#` starts a comment. -/
theorem step_no_hash (s : Lexer) (c : Char) (hs : s.inComment = false) (hc : c ≠ '#') :
    (s.step c).2 = false ∧ (s.step c).1.inComment = false := by
  -- outside of brackets and quotes only `#` matters
  have hplain : (Lexer.plain c).2 = false ∧ (Lexer.plain c).1.inComment = false := by
    unfold Lexer.plain
    rw [if_neg hc]
    split_ifs <;> exact ⟨rfl, rfl⟩
  have hbracket : ∀ eqs, (Lexer.inBracket false eqs c).2 = false ∧
      (Lexer.inBracket false eqs c).1.inComment = false := by
    intro eqs
    unfold Lexer.inBracket
    split_ifs <;> exact ⟨rfl, rfl⟩
  cases s with
  | hash => cases hs
  | line => cases hs
  | word => exact hplain
  | escape => exact ⟨rfl, rfl⟩
  | quotedEscape => exact ⟨rfl, rfl⟩
  | start =>
    simp only [Lexer.step]
    split_ifs
    · exact ⟨rfl, rfl⟩
    · exact hplain
  | quoted =>
    simp only [Lexer.step]
    split_ifs <;> exact ⟨rfl, rfl⟩
  | opening comment eqs =>
    cases (show comment = false from hs)
    simp only [Lexer.step]
    split_ifs
    · exact ⟨rfl, rfl⟩
    · exact ⟨rfl, rfl⟩
    · contradiction
    · exact hplain
  | bracket comment eqs =>
    cases (show comment = false from hs)
    exact hbracket eqs
  | closing comment eqs seen =>
    cases (show comment = false from hs)
    simp only [Lexer.step]
    split_ifs
    · exact ⟨rfl, rfl⟩
    · exact ⟨rfl, rfl⟩
    · exact hbracket eqs

theorem commentMaskFrom_no_hash (s : Lexer) (cml : Text) (hs : s.inComment = false)
    (hcml : '#' ∉ cml) : ∀ b ∈ commentMaskFrom s cml, b = false := by
  induction cml generalizing s with
  | nil => intro b hb; cases hb
  | cons c rest ih =>
    obtain ⟨hc, hrest⟩ := not_or.mp (mt List.mem_cons.mpr hcml)
    obtain ⟨hmask, hnext⟩ := step_no_hash s c hs (Ne.symm hc)
    intro b hb
    rcases List.mem_cons.mp hb with rfl | hb
    · exact hmask
    · exact ih _ hnext hrest b hb

/-- In a file without a `#`, acceptance means wired. -/
theorem accepted_is_wired_of_no_hash (root : RootDir) (cml : Text) (r : Report)
    (hcml : '#' ∉ cml) (haccept : (checkEverySourceIsWired root cml r).errors = r.errors) :
    AllWired root cml := by
  apply allWired_of_accepted root cml r haccept
  rintro name - - - ⟨hfound, hall⟩
  obtain ⟨i, hi, hword⟩ := List.any_eq_true.mp hfound
  obtain ⟨b, hb, htrue⟩ := List.any_eq_true.mp (hall i hi hword)
  have hfalse : b = false :=
    commentMaskFrom_no_hash .start cml rfl hcml b (List.mem_of_mem_drop (List.mem_of_mem_take hb))
  rw [hfalse] at htrue
  cases htrue

/-- **A source that only a comment names is accepted.** -/
theorem prose_counts_as_wired :
    ¬ ∀ (root : RootDir) (cml : Text) (r : Report),
      (checkEverySourceIsWired root cml r).errors = r.errors → AllWired root cml := by
  intro hclaim
  let root : RootDir :=
    [(text "crypto_kat.cpp", true), (text "p2p_u8_smoke.cpp", true), (text "stdafx.cpp", true)]
  let cml := text "# p2p_u8_smoke\n"
  have haccept : (checkEverySourceIsWired root cml ⟨[], []⟩).errors = [] := by
    decide +kernel
  have hwired : MentionedInCommand (text "p2p_u8_smoke") cml :=
    hclaim root cml ⟨[], []⟩ haccept (text "p2p_u8_smoke.cpp") (by decide) (by decide) (by decide)
  exact absurd hwired (by decide +kernel)

end RepoChecks
