import MscsUnitTests.Lib.Watchdog
import MscsUnitTests.Frame.Harness
import MscsUnitTests.Block.Harness

/-! # The Hang Watchdogs of Both Harnesses

    A hang does not report itself: `WatchdogThread` samples `g_nProgress`, which is raised
    once per input, and ends the process when it has not moved for `kHangSeconds`. The
    counter is a machine word, so moving means modulo its width.

    * `FuzzFrame.idle_watchdog`: four samples a second, from the counter as it was found.
    * `FuzzBlock.still_watchdog`: one sample a second, and the first one finds a change,
      since `nLast` starts at `-1`.
-/

open Transitions Watchdog FuzzRng CFiles

/-! ## Section 1: The framing harness -/

namespace FuzzFrame

variable {σ : Type} {w : Nat}

/-- Seconds one input may spend inside the parser before it is called a hang. -/
def kHangSeconds : Nat := 10

/-- The bound of `nIdle`, at four samples a second. -/
def kIdleLimit : Nat := kHangSeconds * 4

/-- The globals between two inputs, as the watchdog sees them. -/
def Proc.watched (s : Proc σ) (nLast : BitVec w) (nIdle : Nat) :
    Watchdog.State (Cursor × Wire) w :=
  ⟨.on (s.cur, s.oCurWire), BitVec.ofNat w s.nProgress, nLast, nIdle, none⟩

/-- `SetCursor` is the worker's part: it writes the cursor, and then it counts. -/
theorem setCursor_watched (pszCase : CStr) (nCase nIter : Int) (nSeed : BitVec 32) (oWire : Wire)
    (s : Proc σ) (nLast : BitVec w) (nIdle : Nat) :
    let s' := setCursor pszCase nCase nIter nSeed oWire s
    Run (step kIdleLimit) (s.watched nLast nIdle) [.write (s'.cur, oWire), .bump]
      (s'.watched nLast nIdle) := by
  refine run_of_exec ?_
  simp [exec, step, Proc.watched, setCursor, BitVec.ofNat_add]

/-- **The watchdog of the framing harness**, in every interleaving from the first load of
    the counter on, wherever the harness is then: the process has been ended exactly when
    the last forty samples found the counter where it was, what it dumps is what is on the
    cursor, and an input that does not come back is dumped within forty-one samples. -/
theorem idle_watchdog {ι : Type} {cursor : Watchdog.Cursor ι} {nProgress : BitVec w}
    {as : List (Action ι)} {s : State ι w}
    (hrun : Run (step kIdleLimit) (start cursor nProgress nProgress) as s) :
    (s.fired.isSome = true ↔ Silent (0 : BitVec w) kIdleLimit as) ∧
      (∀ c, s.fired = some c → c = s.cursor) ∧
      (s.fired = none → ∃ n t, n ≤ kIdleLimit + 1 ∧
        Run (step kIdleLimit) s (List.replicate n .sample) t ∧ t.fired = some s.cursor) := by
  have hlimit : 1 ≤ kIdleLimit := by decide
  refine ⟨?_, (run_trace hlimit hrun).dumped, stuck_reported hlimit hrun⟩
  have hiff := fired_iff hlimit hrun
  rwa [BitVec.sub_self] at hiff

/-- An input is taken up, and has not come back for thirty-nine samples. -/
theorem idle_watchdog_one :
    (((none : Option (Watchdog.Cursor Char)).isSome = true ↔ Silent (0 : BitVec 64) kIdleLimit
        ([.write 'a', .bump, .sample] ++ List.replicate 39 .sample)) ∧
      (∀ c, none = some c → c = Watchdog.Cursor.on 'a') ∧
      ((none : Option (Watchdog.Cursor Char)) = none → ∃ n t, n ≤ kIdleLimit + 1 ∧
        Run (step kIdleLimit) (⟨.on 'a', 1, 1, 39, none⟩ : State Char 64)
          (List.replicate n .sample) t ∧ t.fired = some (.on 'a'))) :=
  idle_watchdog (s := (⟨.on 'a', 1, 1, 39, none⟩ : State Char 64))
    (show Run (step kIdleLimit) (start .unset 0 0) _ _ from run_of_exec rfl)

end FuzzFrame

/-! ## Section 2: The block harness -/

namespace FuzzBlock

variable {H : Type} {w : Nat}

def kHangSeconds : Nat := 10

/-- What is on the cursor. -/
abbrev CurrentInput : Type := Option Target × Int × CStr × Block

def Proc.current (s : Proc H) : CurrentInput :=
  (s.nCurTgt, s.nCurIter, s.pszCurSrc, s.oCurInput)

/-- The globals between two inputs, as the watchdog sees them; the cursor has been counted
    or, behind a control, has not. -/
def Proc.watched (s : Proc H) (cursor : CurrentInput → Watchdog.Cursor CurrentInput)
    (nLast : BitVec w) (nStill : Nat) : Watchdog.State CurrentInput w :=
  ⟨cursor s.current, BitVec.ofNat w s.nProgress, nLast, nStill, none⟩

/-- The watchdog sees no difference. -/
structure Proc.SeenAlike (s u : Proc H) : Prop where
  current : u.current = s.current
  nProgress : u.nProgress = s.nProgress

theorem finding_seenAlike (B : Build H) (pszWhat pszWhy : CStr) (s : Proc H) :
    s.SeenAlike (finding B pszWhat pszWhy s) := by
  unfold finding emitRepro
  split <;> exact ⟨rfl, rfl⟩

theorem findingIf_seenAlike (B : Build H) (b : Bool) (pszWhat pszWhy : CStr) (s : Proc H) :
    s.SeenAlike (findingIf B b pszWhat pszWhy s) := by
  cases b with
  | true => exact finding_seenAlike B pszWhat pszWhy s
  | false => exact ⟨rfl, rfl⟩

/-- A target works on the rig; a finding is no progress. -/
theorem runTarget_seenAlike (B : Build H) (t : Target) (p : List UInt8) (bMutant : Bool)
    (s : Proc H) : s.SeenAlike (runTarget B t p bMutant s).2 := by
  cases t with
  | login => exact ⟨rfl, rfl⟩
  | ack => exact ⟨rfl, rfl⟩
  | relay =>
    obtain ⟨hcurrent, hprogress⟩ := findingIf_seenAlike B _ _ _ _
    exact ⟨hcurrent, hprogress⟩
  | revoke =>
    cases bMutant with
    | true => exact ⟨rfl, rfl⟩
    | false => exact ⟨rfl, rfl⟩

theorem judge_seenAlike (B : Build H) (aSeed : Target → Block) (texts : OfferTexts) (t : Target)
    (w : Block) (a : Answer Bool) (s : Proc H) : s.SeenAlike (judge B aSeed texts t w a s) := by
  cases a with
  | event => exact finding_seenAlike _ _ _ _
  | escaped => exact finding_seenAlike _ _ _ _
  | returned bAccepted => exact findingIf_seenAlike _ _ _ _ _

/-- An input that is offered is the worker's part: it is written on the cursor, and then
    counted. -/
theorem offer_watched (B : Build H) (aSeed : Target → Block) (texts : OfferTexts) (t : Target)
    (nIter : Int) (pszSrc : CStr) (oInput : Block) (s : Proc H)
    (cursor : CurrentInput → Watchdog.Cursor CurrentInput) (nLast : BitVec w) (nStill : Nat) :
    Run (step kHangSeconds) (s.watched cursor nLast nStill)
      [.write (some t, nIter, pszSrc, oInput), .bump]
      ((offer B aSeed texts t nIter pszSrc oInput s).watched .on nLast nStill) := by
  let s₁ : Proc H := { setCursor (some t) nIter pszSrc oInput s with nProgress := s.nProgress + 1 }
  -- neither the target nor the judgement touches the cursor or the counter
  have hcall := runTarget_seenAlike B t oInput.bytes true s₁
  have hjudge := judge_seenAlike B aSeed texts t oInput (runTarget B t oInput.bytes true s₁).1
    (runTarget B t oInput.bytes true s₁).2
  have hcurrent : (offer B aSeed texts t nIter pszSrc oInput s).current =
      (some t, nIter, pszSrc, oInput) :=
    hjudge.current.trans hcall.current
  have hprogress : (offer B aSeed texts t nIter pszSrc oInput s).nProgress = s.nProgress + 1 :=
    hjudge.nProgress.trans hcall.nProgress
  refine run_of_exec ?_
  simp [exec, step, Proc.watched, hcurrent, hprogress, BitVec.ofNat_add]

/-- A control is written on the cursor and not counted. -/
theorem control_watched (B : Build H) (aSeed : Target → Block) (bControls : Bool) (t : Target)
    (s : Proc H) (cursor : CurrentInput → Watchdog.Cursor CurrentInput) (nLast : BitVec w)
    (nStill : Nat) :
    Run (step kHangSeconds) (s.watched cursor nLast nStill)
      [.write (some t, -1, cstr "(seed)", aSeed t)]
      ((control B aSeed (some bControls, s) t).2.watched .writing nLast nStill) := by
  have hcall := runTarget_seenAlike B t (aSeed t).bytes false
    (setCursor (some t) (-1) (cstr "(seed)") (aSeed t) s)
  have hcontrol : (control B aSeed (some bControls, s) t).2 =
      (runTarget B t (aSeed t).bytes false
        (setCursor (some t) (-1) (cstr "(seed)") (aSeed t) s)).2 := by
    unfold control
    dsimp only
    split <;> rfl
  refine run_of_exec ?_
  simp only [exec, step, Proc.watched, hcontrol, hcall.current, hcall.nProgress]
  rfl

/-- **The watchdog of the block harness**, in every interleaving: as that of the framing
    harness, with ten samples. A first sample that finds the counter different from what
    `nLast` starts with is not among them, so that it takes eleven from the start, unless
    the counter has wrapped by then. A control that does not come back is dumped too. -/
theorem still_watchdog {ι : Type} {cursor : Watchdog.Cursor ι} {as : List (Action ι)}
    {s : State ι w} (hrun : Run (step kHangSeconds) (start cursor 0 (-1)) as s) :
    (s.fired.isSome = true ↔ Silent (-1 : BitVec w) kHangSeconds as) ∧
      (∀ c, s.fired = some c → c = s.cursor) ∧
      (s.fired.isSome = true → kHangSeconds + 1 ≤ samples as ∨ 2 ^ w - 1 ≤ bumps as) ∧
      (s.fired = none → ∃ n t, n ≤ kHangSeconds + 1 ∧
        Run (step kHangSeconds) s (List.replicate n .sample) t ∧ t.fired = some s.cursor) := by
  have hlimit : 1 ≤ kHangSeconds := by decide
  have hiff := fired_iff hlimit hrun
  have hlead : (-1 - 0 : BitVec w) = -1 := BitVec.sub_zero _
  rw [hlead] at hiff
  refine ⟨hiff, (run_trace hlimit hrun).dumped, ?_, stuck_reported hlimit hrun⟩
  intro hfired
  obtain ⟨hle, hfirst⟩ := (hiff.mp hfired).lead_le
  by_cases heq : kHangSeconds = samples as
  · -- every sample was counted, the first one too: the counter had come to `nLast`
    rcases hfirst heq with hnil | hraised
    · subst hnil
      cases heq
    · refine Or.inr ?_
      have hall : (-1 : BitVec w) = BitVec.allOnes w := BitVec.neg_one_eq_allOnes
      rwa [hall, BitVec.toNat_allOnes] at hraised
  · omega

/-- A control that does not come back: the eleventh sample. -/
theorem still_watchdog_control :
    ((some (Watchdog.Cursor.writing 'a')).isSome = true ↔ Silent (-1 : BitVec 64) kHangSeconds
        (.write 'a' :: List.replicate 11 .sample)) ∧
      (∀ c, some (Watchdog.Cursor.writing 'a') = some c → c = .writing 'a') ∧
      ((some (Watchdog.Cursor.writing 'a')).isSome = true →
        kHangSeconds + 1 ≤ samples (Action.write 'a' :: List.replicate 11 .sample) ∨
          2 ^ 64 - 1 ≤ bumps (Action.write 'a' :: List.replicate 11 .sample)) ∧
      (some (Watchdog.Cursor.writing 'a') = none → ∃ n t, n ≤ kHangSeconds + 1 ∧
        Run (step kHangSeconds) (⟨.writing 'a', 0, 0, 10, some (.writing 'a')⟩ : State Char 64)
          (List.replicate n .sample) t ∧ t.fired = some (.writing 'a')) :=
  still_watchdog (s := (⟨.writing 'a', 0, 0, 10, some (.writing 'a')⟩ : State Char 64))
    (show Run (step kHangSeconds) (start .unset 0 (-1)) _ _ from run_of_exec rfl)

end FuzzBlock
