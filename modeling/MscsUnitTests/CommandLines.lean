import MscsUnitTests.Lib.Arguments
import MscsUnitTests.Lib.Lines
import MscsUnitTests.Lib.Numerals
import MscsUnitTests.Frame.Replay
import MscsUnitTests.Block.Replay

/-! # The Command Lines of Both Harnesses

    `DumpCursor` prints a command for the input that is being processed, and `main` goes
    through its arguments in a loop. This module says that the one is read by the other.

    * `FuzzFrame.frame_command_reads_back`: of the framing harness.
    * `FuzzBlock.block_command_reads_back`: of the block harness.
-/

open ByteMem CFiles CNumerals TextLines ArgumentLoop

/-! ## Section 1: The printed command -/

namespace ReplayCommand

/-- `(int)strtol(s, 0, 0)`, where `long` has `w` bits. -/
def number (w : Nat) (s : CStr) : Int := toInt (strtol w prefixed s)

/-- The first value of an option. -/
def first (values : List CStr) : CStr := values.headD []

def second (values : List CStr) : CStr := values.getD 1 []

/-- What stands behind the name of the program. -/
def text (nSeed : BitVec 32) (nCase nIter : Int) : CStr :=
  cstr "0x" ++ hex8 nSeed.toNat ++ cstr " --replay " ++ decimal nCase ++ cstr " " ++ decimal nIter

/-- The words of it. -/
def words (nSeed : BitVec 32) (nCase nIter : Int) : List CStr :=
  [cstr "0x" ++ hex8 nSeed.toNat, cstr "--replay", decimal nCase, decimal nIter]

theorem splitLines_text (nSeed : BitVec 32) (nCase nIter : Int) :
    splitLines 32 (text nSeed nCase nIter) = words nSeed nCase nIter := by
  have hseed : (32 : UInt8) ∉ cstr "0x" ++ hex8 nSeed.toNat := by
    intro h
    rcases List.mem_append.mp h with hprefix | hmem
    · exact absurd hprefix (by decide)
    · exact space_not_mem_hex8 _ hmem
  have hoption : (32 : UInt8) ∉ cstr "--replay" := by decide
  have hspell : text nSeed nCase nIter = (cstr "0x" ++ hex8 nSeed.toNat) ++
      32 :: (cstr "--replay" ++ 32 :: (decimal nCase ++ 32 :: decimal nIter)) := by
    have hmiddle : cstr " --replay " = 32 :: (cstr "--replay" ++ [32]) := by decide
    have hspace : cstr " " = [32] := by decide
    unfold text
    rw [hmiddle, hspace]
    simp
  rw [hspell, splitLines_append 32 hseed, splitLines_append 32 hoption,
    splitLines_append 32 (space_not_mem_decimal nCase),
    splitLines_last 32 (space_not_mem_decimal nIter) (decimal_ne_nil nIter)]
  rfl

theorem strtoul_seed {w : Nat} (hw : 32 ≤ w) (nSeed : BitVec 32) :
    BitVec.ofNat 32 (strtoul w prefixed (cstr "0x" ++ hex8 nSeed.toNat)) = nSeed := by
  have hlt : nSeed.toNat < 2 ^ w :=
    Nat.lt_of_lt_of_le nSeed.isLt (Nat.pow_le_pow_right (by omega) hw)
  rw [strtoul_hex8 hlt, BitVec.ofNat_toNat, BitVec.setWidth_eq]

/-- An argument that does not begin with a minus sign is no option. -/
theorem beq_option {a name : CStr} (ha : a.head? ≠ some 45) (hname : name.head? = some 45) :
    (a == name) = false := by
  rw [beq_eq_false_iff_ne]
  rintro rfl
  exact ha hname

end ReplayCommand

open ReplayCommand

/-! ## Section 2: The framing harness -/

namespace FuzzFrame

/-- What the loop has read. -/
structure Parsed where
  args : Args := {}
  nPos : Nat := 0
  bVerbose : Bool := false

/-- An argument that is no option: the seed first, then the iterations. An option that lacks
    a value is one of these. -/
def Parsed.positional (w : Nat) (s : CStr) (p : Parsed) : Parsed :=
  if p.nPos = 0 then
    ⟨{ p.args with nSeed := BitVec.ofNat 32 (strtoul w prefixed s) }, p.nPos + 1, p.bVerbose⟩
  else if p.nPos = 1 then
    ⟨{ p.args with nIters := number w s }, p.nPos + 1, p.bVerbose⟩
  else p

/-- An option that is written in one way, and what it does to the arguments. -/
def option (name : CStr) (arity : Nat) (set : List CStr → Args → Args) : Rule CStr Parsed :=
  ⟨fun a => a == name, arity, fun _ values p => { p with args := set values p.args }⟩

/-- The tests of the loop, in their order. -/
def options (w : Nat) : List (Rule CStr Parsed) :=
  [option (cstr "--strict-assert") 0 fun _ args => { args with nAssertBase := 0 },
    ⟨fun a => (cstr "--assert-baseline=").isPrefixOf a, 0, fun a _ p =>
      { p with args := { p.args with nAssertBase := number w (a.drop 18) } }⟩,
    option (cstr "--assert-baseline") 1 fun values args =>
      { args with nAssertBase := number w (first values) },
    ⟨fun a => a == cstr "--verbose", 0, fun _ _ p => { p with bVerbose := true }⟩,
    option (cstr "--corpus") 1 fun values args => { args with pszCorpus := some (first values) },
    option (cstr "--repro-dir") 1 fun values args => { args with szReproDir := first values },
    option (cstr "--seconds") 1 fun values args => { args with nSeconds := number w (first values) },
    option (cstr "--replay") 2 fun values args =>
      { args with
        nReplayCse := number w (first values)
        nReplayItr := number w (second values) }]

/-- The loop. -/
def parseFrom (w : Nat) (p : Parsed) (argv : List CStr) : Parsed :=
  loop (options w) (Parsed.positional w) p argv

/-- `main` up to the first line it prints. -/
def parseArgs (w : Nat) (argv : List CStr) : Parsed :=
  let p := parseFrom w {} argv
  { p with args := { p.args with nIters := max 0 p.args.nIters } }

/-- A number is no option. -/
theorem options_number (w : Nat) {a : CStr} (ha : a.head? ≠ some 45) :
    (options w).find? (fun q => q.accepts a) = none := by
  have hprefix : (cstr "--assert-baseline=").isPrefixOf a = false := by
    cases a with
    | nil => rfl
    | cons c s =>
      have hc : (45 == c) = false := by
        rw [beq_eq_false_iff_ne]
        rintro rfl
        exact ha rfl
      exact (Bool.and_eq_false_iff).mpr (Or.inl hc)
  rw [List.find?_eq_none]
  intro q hq
  rw [Bool.not_eq_true]
  simp only [options, option, List.mem_cons, List.not_mem_nil, or_false] at hq
  rcases hq with rfl | rfl | rfl | rfl | rfl | rfl | rfl | rfl
  all_goals first | exact hprefix | exact beq_option ha (by decide)

/-- The printed command: a number and an option. -/
def replayTokens (w : Nat) (nSeed : BitVec 32) (nCase nIter : Int) : List (Token CStr Parsed) :=
  [.word (cstr "0x" ++ hex8 nSeed.toNat),
    .option (option (cstr "--replay") 2 fun values args =>
      { args with
        nReplayCse := number w (first values)
        nReplayItr := number w (second values) })
      (cstr "--replay") [decimal nCase, decimal nIter]]

theorem replayTokens_wellFormed (w : Nat) (nSeed : BitVec 32) (nCase nIter : Int) :
    ∀ t ∈ replayTokens w nSeed nCase nIter, t.WellFormed (options w) := by
  unfold replayTokens
  rw [List.forall_mem_cons, List.forall_mem_singleton]
  refine ⟨options_number w ?_, ⟨?_, rfl⟩⟩
  · show some (48 : UInt8) ≠ some 45
    decide
  · -- the names before it are others
    rfl

/-- **The printed command is read back**: typed at a prompt, with whatever else behind it,
    it sets the seed, the case and the iteration that it was printed for, and nothing
    else. -/
theorem frame_command_reads_back {w : Nat} (hw : 32 ≤ w) (cur : Cursor)
    (hcase : -2 ^ 31 ≤ cur.nCase ∧ cur.nCase < 2 ^ 31)
    (hiter : -2 ^ 31 ≤ cur.nIter ∧ cur.nIter < 2 ^ 31) (more : List CStr) :
    parseFrom w {} (splitLines 32 (text cur.nSeed cur.nCase cur.nIter) ++ more) =
      parseFrom w ⟨replayArgs cur, 1, false⟩ more := by
  rw [splitLines_text]
  refine (loop_tokens (replayTokens_wellFormed w cur.nSeed cur.nCase cur.nIter) _ more).trans ?_
  have hread : ∀ i : Int, -2 ^ 31 ≤ i ∧ i < 2 ^ 31 → number w (decimal i) = i :=
    fun i hi => strtol_decimal hw prefixed_decimal hi.1 hi.2
  have hfold : (replayTokens w cur.nSeed cur.nCase cur.nIter).foldl
      (Token.apply (Parsed.positional w)) {} = ⟨replayArgs cur, 1, false⟩ := by
    simp only [replayTokens, List.foldl_cons, List.foldl_nil, Token.apply, Parsed.positional,
      option, first, second, replayArgs, List.headD_cons, List.getD_cons_succ, List.getD_cons_zero,
      if_pos, strtoul_seed hw, hread _ hcase, hread _ hiter]
  rw [hfold]
  rfl

/-- The command of a mutant, and an option behind it. -/
theorem frame_command_reads_back_mutant :
    parseFrom 64 {} (splitLines 32 (text 0x5EEDF00D 3 17) ++ [cstr "--verbose"]) =
      parseFrom 64 ⟨replayArgs ⟨none, 3, 17, 0x5EEDF00D, 0, []⟩, 1, false⟩ [cstr "--verbose"] :=
  frame_command_reads_back (by decide) ⟨none, 3, 17, 0x5EEDF00D, 0, []⟩ (by decide) (by decide)
    [cstr "--verbose"]

end FuzzFrame

/-! ## Section 3: The block harness -/

namespace FuzzBlock

/-- What the loop has read. -/
structure Parsed where
  args : Args := {}
  nPos : Nat := 0
  bVerbose : Bool := false

/-- An argument that is no option: where it does not begin with a minus sign, the seed first,
    then the iterations. -/
def Parsed.positional (w : Nat) (s : CStr) (p : Parsed) : Parsed :=
  if s.head? = some 45 then p
  else if p.nPos = 0 then
    ⟨{ p.args with nSeed := BitVec.ofNat 32 (strtoul w prefixed s) }, p.nPos + 1, p.bVerbose⟩
  else ⟨{ p.args with nIters := atoi w s }, p.nPos + 1, p.bVerbose⟩

/-- An option, and what it does to the arguments. -/
def option (name : CStr) (arity : Nat) (set : List CStr → Args → Args) : Rule CStr Parsed :=
  ⟨fun a => a == name, arity, fun _ values p => { p with args := set values p.args }⟩

/-- The tests of the loop, in their order. -/
def options (w : Nat) : List (Rule CStr Parsed) :=
  [option (cstr "--replay") 2 fun values args =>
      { args with
        nReplayTgt := atoi w (first values)
        nReplayIter := atoi w (second values) },
    option (cstr "--corpus") 1 fun values args => { args with pszCorpus := some (first values) },
    option (cstr "--repro-dir") 1 fun values args => { args with szReproDir := first values },
    option (cstr "--seconds") 1 fun values args => { args with nSeconds := atoi w (first values) },
    ⟨fun a => a == cstr "--verbose", 0, fun _ _ p => { p with bVerbose := true }⟩]

/-- `main` up to the first line it prints. -/
def parseFrom (w : Nat) (p : Parsed) (argv : List CStr) : Parsed :=
  loop (options w) (Parsed.positional w) p argv

/-- A number is no option. -/
theorem options_number (w : Nat) {a : CStr} (ha : a.head? ≠ some 45) :
    (options w).find? (fun q => q.accepts a) = none := by
  rw [List.find?_eq_none]
  intro q hq
  rw [Bool.not_eq_true]
  simp only [options, option, List.mem_cons, List.not_mem_nil, or_false] at hq
  rcases hq with rfl | rfl | rfl | rfl | rfl
  all_goals exact beq_option ha (by decide)

/-- The printed command: a number and an option. -/
def replayTokens (w : Nat) (nSeed : BitVec 32) (nTgt nIter : Int) : List (Token CStr Parsed) :=
  [.word (cstr "0x" ++ hex8 nSeed.toNat),
    .option (option (cstr "--replay") 2 fun values args =>
      { args with
        nReplayTgt := atoi w (first values)
        nReplayIter := atoi w (second values) })
      (cstr "--replay") [decimal nTgt, decimal nIter]]

theorem replayTokens_wellFormed (w : Nat) (nSeed : BitVec 32) (nTgt nIter : Int) :
    ∀ t ∈ replayTokens w nSeed nTgt nIter, t.WellFormed (options w) := by
  unfold replayTokens
  rw [List.forall_mem_cons, List.forall_mem_singleton]
  refine ⟨options_number w ?_, ⟨rfl, rfl⟩⟩
  show some (48 : UInt8) ≠ some 45
  decide

/-- **The printed command is read back**, the numbers here by `atoi`. -/
theorem block_command_reads_back {w : Nat} (hw : 32 ≤ w) (nSeed : BitVec 32) (t : Target)
    {nIter : Int} (hiter : -2 ^ 31 ≤ nIter ∧ nIter < 2 ^ 31) (more : List CStr) :
    parseFrom w {} (splitLines 32 (text nSeed t.index nIter) ++ more) =
      parseFrom w ⟨replayArgs nSeed t nIter, 1, false⟩ more := by
  rw [splitLines_text]
  refine (loop_tokens (replayTokens_wellFormed w nSeed t.index nIter) _ more).trans ?_
  have htgt : atoi w (decimal (t.index : Int)) = t.index := by
    have hindex : t.index < 4 := by cases t <;> decide
    exact atoi_decimal hw (by omega) (by omega)
  have hdigit : (cstr "0x" ++ hex8 nSeed.toNat).head? ≠ some 45 := by
    show some (48 : UInt8) ≠ some 45
    decide
  have hfold : (replayTokens w nSeed t.index nIter).foldl
      (Token.apply (Parsed.positional w)) {} = ⟨replayArgs nSeed t nIter, 1, false⟩ := by
    simp only [replayTokens, List.foldl_cons, List.foldl_nil, Token.apply, Parsed.positional,
      option, first, second, replayArgs, List.headD_cons, List.getD_cons_succ, List.getD_cons_zero,
      if_pos, if_neg hdigit, strtoul_seed hw, htgt, atoi_decimal hw hiter.1 hiter.2]
  rw [hfold]
  rfl

/-- The command of a saved input, whose iteration is `-1`. -/
theorem block_command_reads_back_saved :
    parseFrom 32 {} (splitLines 32 (text 0x51CEB00D (Target.index .relay) (-1)) ++ []) =
      parseFrom 32 ⟨replayArgs 0x51CEB00D .relay (-1), 1, false⟩ [] :=
  block_command_reads_back (by decide) 0x51CEB00D .relay (by decide) []

end FuzzBlock
