import Mathlib.Data.List.Induction

/-! # A Hub Watched from Outside

    `HubMonitor` of `p2p_hubsnap.cpp` polls a hub by what `Serialise` returns, and nothing else:
    it keeps three numbers and two alarms. A snapshot that it cannot read leaves it with older
    ones, so that what it says can be of different polls.

    * `alarms_of_last_read`: after any polls, the alarms are those of the last snapshot that
      could be read, and `bReadable` says whether the numbers are of the last one.
    * `exit_code_iff`: `main` passes exactly when it could read all of its four snapshots, and
      they say what they should. It never passes on an older reading.
-/

namespace HubSnap

/-! ## Section 1: Snapshots -/

/-- What a snapshot has under a name, for `Exists` and `ReadAnyInt`. -/
inductive Cell where
  | absent
  | noInteger
  | integer (i64 : BitVec 64)

abbrev Snapshot : Type := String → Cell

section width
variable (wLong : Nat)

/-- `(long)i64`, where `long` has `wLong` bits. -/
def asLong (i64 : BitVec 64) : Int := (i64.setWidth wLong).toInt

/-- `ReadNum`: the number that it writes, nothing where it returns `false`. -/
def readNum (oSnap : Snapshot) (lpszName : String) : Option Int :=
  match oSnap lpszName with
  | .absent => none
  | .noInteger => none
  | .integer i64 => some (asLong wLong i64)

/-! ## Section 2: The monitor -/

structure HubMonitor where
  nQueAlarmAt : Int
  nAccAlarmAt : Int
  bReadable : Bool
  nQue : Int
  nAcc : Int
  nPumpsMax : Int
  bQueAlarm : Bool
  bAccAlarm : Bool

/-- The constructor. -/
def HubMonitor.new (nQueAt nAccAt : Int) : HubMonitor :=
  ⟨nQueAt, nAccAt, false, -1, -1, -1, false, false⟩

/-- `Poll`. A number is written where its field is read, even if a later field is not. -/
def HubMonitor.poll (m : HubMonitor) (oSnap : Snapshot) : HubMonitor :=
  match readNum wLong oSnap "QueDepth" with
  | none => { m with bReadable := false }
  | some nQue =>
    match readNum wLong oSnap "Accepted" with
    | none => { m with bReadable := false, nQue := nQue }
    | some nAcc =>
      match readNum wLong oSnap "PumpsMax" with
      | none => { m with bReadable := false, nQue := nQue, nAcc := nAcc }
      | some nPumpsMax =>
        { m with
          bReadable := true
          nQue := nQue
          nAcc := nAcc
          nPumpsMax := nPumpsMax
          bQueAlarm := decide (m.nQueAlarmAt < nQue)
          bAccAlarm := decide (m.nAccAlarmAt < nAcc) }

/-- The three numbers of a snapshot. -/
structure Reading where
  nQue : Int
  nAcc : Int
  nPumpsMax : Int

/-- They can be read. -/
def readingOf (oSnap : Snapshot) : Option Reading := do
  let nQue ← readNum wLong oSnap "QueDepth"
  let nAcc ← readNum wLong oSnap "Accepted"
  let nPumpsMax ← readNum wLong oSnap "PumpsMax"
  return ⟨nQue, nAcc, nPumpsMax⟩

variable {wLong}

theorem poll_read {oSnap : Snapshot} {r : Reading} (h : readingOf wLong oSnap = some r)
    (m : HubMonitor) : m.poll wLong oSnap =
      ⟨m.nQueAlarmAt, m.nAccAlarmAt, true, r.nQue, r.nAcc, r.nPumpsMax,
        decide (m.nQueAlarmAt < r.nQue), decide (m.nAccAlarmAt < r.nAcc)⟩ := by
  unfold readingOf at h
  obtain ⟨nQue, hque, h⟩ := Option.bind_eq_some_iff.mp h
  obtain ⟨nAcc, hacc, h⟩ := Option.bind_eq_some_iff.mp h
  obtain ⟨nPumpsMax, hmax, h⟩ := Option.bind_eq_some_iff.mp h
  cases h
  simp only [HubMonitor.poll, hque, hacc, hmax]

/-- What a snapshot leaves that cannot be read: the alarms, and some of the numbers. -/
theorem poll_unread {oSnap : Snapshot} (h : readingOf wLong oSnap = none) (m : HubMonitor) :
    ∃ nQue nAcc, m.poll wLong oSnap =
      { m with bReadable := false, nQue := nQue, nAcc := nAcc } := by
  unfold HubMonitor.poll
  rcases hque : readNum wLong oSnap "QueDepth" with _ | nQue
  · exact ⟨m.nQue, m.nAcc, rfl⟩
  · rcases hacc : readNum wLong oSnap "Accepted" with _ | nAcc
    · exact ⟨nQue, m.nAcc, rfl⟩
    · rcases hmax : readNum wLong oSnap "PumpsMax" with _ | nPumpsMax
      · exact ⟨nQue, nAcc, rfl⟩
      · simp [readingOf, hque, hacc, hmax] at h

theorem poll_thresholds (m : HubMonitor) (oSnap : Snapshot) :
    (m.poll wLong oSnap).nQueAlarmAt = m.nQueAlarmAt ∧
      (m.poll wLong oSnap).nAccAlarmAt = m.nAccAlarmAt := by
  rcases hread : readingOf wLong oSnap with _ | r
  · obtain ⟨nQue, nAcc, hpoll⟩ := poll_unread hread m
    rw [hpoll]
    exact ⟨rfl, rfl⟩
  · rw [poll_read hread]
    exact ⟨rfl, rfl⟩

/-! ## Section 3: Any polls -/

/-- What a monitor shows after a history of snapshots. -/
structure Shows (wLong : Nat) (nQueAt nAccAt : Int) (H : List Snapshot) (m : HubMonitor) :
    Prop where
  thresholds : m.nQueAlarmAt = nQueAt ∧ m.nAccAlarmAt = nAccAt
  numbers : m.bReadable = true ↔
    H.getLast?.bind (readingOf wLong) = some ⟨m.nQue, m.nAcc, m.nPumpsMax⟩
  readable : m.bReadable = (H.getLast?.bind (readingOf wLong)).isSome
  alarms : ((H.filterMap (readingOf wLong)).getLast? = none ∧
      m.bQueAlarm = false ∧ m.bAccAlarm = false) ∨
    ∃ r, (H.filterMap (readingOf wLong)).getLast? = some r ∧
      m.bQueAlarm = decide (nQueAt < r.nQue) ∧ m.bAccAlarm = decide (nAccAt < r.nAcc)

/-- A poll, after any others. -/
theorem Shows.poll {nQueAt nAccAt : Int} {H : List Snapshot} {m : HubMonitor}
    (h : Shows wLong nQueAt nAccAt H m) (oSnap : Snapshot) :
    Shows wLong nQueAt nAccAt (H ++ [oSnap]) (m.poll wLong oSnap) := by
  have hlast : (H ++ [oSnap]).getLast?.bind (readingOf wLong) = readingOf wLong oSnap := by
    rw [List.getLast?_concat, Option.bind_some]
  rcases hread : readingOf wLong oSnap with _ | r
  · -- the alarms stay as they were, and so does the last snapshot that was read
    obtain ⟨nQue, nAcc, hpoll⟩ := poll_unread hread m
    rw [hpoll]
    have hsame : (H ++ [oSnap]).filterMap (readingOf wLong) = H.filterMap (readingOf wLong) := by
      rw [List.filterMap_append, List.filterMap_cons_none hread, List.filterMap_nil,
        List.append_nil]
    refine ⟨h.thresholds, ?_, ?_, ?_⟩
    · rw [hlast, hread]
      simp
    · rw [hlast, hread]
      rfl
    · rw [hsame]
      exact h.alarms
  · rw [poll_read hread m]
    have hnew : ((H ++ [oSnap]).filterMap (readingOf wLong)).getLast? = some r := by
      rw [List.filterMap_append, List.filterMap_cons_some hread, List.filterMap_nil,
        List.getLast?_concat]
    refine ⟨h.thresholds, ?_, ?_, ?_⟩
    · rw [hlast, hread]
      simp
    · rw [hlast, hread]
      rfl
    · refine .inr ⟨r, hnew, ?_, ?_⟩
      · rw [h.thresholds.1]
      · rw [h.thresholds.2]

/-- **The alarms are of the last snapshot that could be read**, after any polls, and
    `bReadable` says that the numbers are of the last snapshot. -/
theorem alarms_of_last_read (nQueAt nAccAt : Int) (H : List Snapshot) :
    Shows wLong nQueAt nAccAt H
      (H.foldl (fun m oSnap => m.poll wLong oSnap) (.new nQueAt nAccAt)) := by
  induction H using List.reverseRecOn with
  | nil => exact ⟨⟨rfl, rfl⟩, by simp [HubMonitor.new], rfl, .inl ⟨rfl, rfl, rfl⟩⟩
  | append_singleton H oSnap ih =>
    rw [List.foldl_append]
    exact ih.poll oSnap

/-! ## Section 4: The test -/

/-- The loop that waits for the parked pump, from turn `i` on, with what each turn reads. -/
def awaitPump (nPumpID : Nat → Int) : Nat → Nat → Int → Int
  | 0, _, nParkPump => nParkPump
  | turns + 1, i, nParkPump =>
    if nParkPump = 0 then awaitPump nPumpID turns (i + 1) (nPumpID i) else nParkPump

/-- What `main` finds, in the order in which it looks at it. -/
structure Findings where
  bPresent : Bool
  bRestQuiet : Bool
  bRestZero : Bool
  bPumpsMax : Bool
  bDialled : Bool
  bAccExact : Bool
  bAccFired : Bool
  bQueQuiet : Bool
  bParked : Bool
  bQueRose : Bool
  bQueFired : Bool
  bQueFell : Bool

/-- The verdict. -/
def nExit (f : Findings) : Nat :=
  if !f.bPresent then 1
  else if !f.bRestQuiet || !f.bRestZero then 1
  else if !f.bPumpsMax then 1
  else if !f.bDialled then 3
  else if !f.bAccExact || !f.bAccFired then 1
  else if !f.bQueQuiet then 1
  else if !f.bParked then 3
  else if !f.bQueRose || !f.bQueFired then 1
  else if !f.bQueFell then 1
  else 0

/-- What the test meets: whether the library and the hub start, what `Serialise` returns each
    time, which of the three peers connect, and what is read of the parked pump's id. -/
structure World where
  bStarted : Bool
  atRest : Snapshot
  connected : Snapshot
  parked : Snapshot
  closed : Snapshot
  a1 : Bool
  a2 : Bool
  a3 : Bool
  nPumpID : Nat → Int

variable (wLong) in
def findings (w : World) : Findings :=
  let oMon := HubMonitor.poll wLong (.new 3 2) w.atRest
  let oMon₂ := oMon.poll wLong w.connected
  let nParkPump := awaitPump w.nPumpID 100 0 0
  -- there is no third and no fourth poll where there is no parked pump
  let bParked := nParkPump ≠ 0 && nParkPump ≠ -1
  let oMon₃ := oMon₂.poll wLong w.parked
  let oMon₄ := oMon₃.poll wLong w.closed
  { bPresent := oMon.bReadable
    bRestQuiet := oMon.bReadable && !oMon.bQueAlarm && !oMon.bAccAlarm
    bRestZero := oMon.bReadable && oMon.nQue = 0 && oMon.nAcc = 0
    bPumpsMax := oMon.bReadable && 0 < oMon.nPumpsMax
    bDialled := w.a1 && w.a2 && w.a3
    bAccExact := oMon₂.nAcc = 3
    bAccFired := oMon₂.bAccAlarm
    bQueQuiet := !oMon₂.bQueAlarm
    bParked := bParked
    bQueRose := bParked && 4 ≤ oMon₃.nQue
    bQueFired := bParked && oMon₃.bQueAlarm
    bQueFell := bParked && oMon₄.nQue = 0 && !oMon₄.bQueAlarm }

variable (wLong) in
def main (w : World) : Nat := if w.bStarted then nExit (findings wLong w) else 2

/-! ## Section 5: What the verdict bears out -/

/-- The thread came up with a pump within the hundred turns. -/
def Parked (nPumpID : Nat → Int) : Prop :=
  ∃ i < 100, nPumpID i ≠ 0 ∧ nPumpID i ≠ -1 ∧ ∀ j < i, nPumpID j = 0

/-- A snapshot can be read, and says this. -/
def Says (wLong : Nat) (oSnap : Snapshot) (P : Reading → Prop) : Prop :=
  ∃ r, readingOf wLong oSnap = some r ∧ P r

/-- At rest. -/
def RestsAt (r : Reading) : Prop := r.nQue = 0 ∧ r.nAcc = 0 ∧ 0 < r.nPumpsMax

/-- With three peers. -/
def CountsThree (r : Reading) : Prop := r.nAcc = 3 ∧ r.nQue ≤ 3

theorem awaitPump_of_ne (nPumpID : Nat → Int) (turns i : Nat) {n : Int} (hn : n ≠ 0) :
    awaitPump nPumpID turns i n = n := by
  cases turns with
  | zero => rfl
  | succ turns =>
    unfold awaitPump
    rw [if_neg hn]

/-- The first reading that is not zero, if there is one in time. -/
theorem awaitPump_spec (nPumpID : Nat → Int) (turns i : Nat) :
    (awaitPump nPumpID turns i 0 ≠ 0 ∧ awaitPump nPumpID turns i 0 ≠ -1) ↔
      ∃ k < turns, nPumpID (i + k) ≠ 0 ∧ nPumpID (i + k) ≠ -1 ∧
        ∀ j < k, nPumpID (i + j) = 0 := by
  induction turns generalizing i with
  | zero => simp [awaitPump]
  | succ turns ih =>
    unfold awaitPump
    rw [if_pos rfl]
    by_cases hzero : nPumpID i = 0
    · rw [hzero, ih]
      constructor
      · rintro ⟨k, hk, hne, hfail, hbefore⟩
        have hshift : i + 1 + k = i + (k + 1) := by omega
        rw [hshift] at hne hfail
        refine ⟨k + 1, by omega, hne, hfail, ?_⟩
        intro j hj
        rcases j with _ | j
        · exact hzero
        · have hprev := hbefore j (by omega)
          rwa [show i + 1 + j = i + (j + 1) by omega] at hprev
      · rintro ⟨k, hk, hne, hfail, hbefore⟩
        rcases k with _ | k
        · exact absurd hzero hne
        · have hshift : i + (k + 1) = i + 1 + k := by omega
          rw [hshift] at hne hfail
          refine ⟨k, by omega, hne, hfail, ?_⟩
          intro j hj
          have hnext := hbefore (j + 1) (by omega)
          rwa [show i + (j + 1) = i + 1 + j by omega] at hnext
    · rw [awaitPump_of_ne nPumpID turns (i + 1) hzero]
      constructor
      · rintro ⟨hne, hfail⟩
        exact ⟨0, by omega, hne, hfail, by simp⟩
      · rintro ⟨k, -, hne, hfail, hbefore⟩
        rcases k with _ | k
        · exact ⟨hne, hfail⟩
        · exact absurd (hbefore 0 (by omega)) hzero

theorem parked_iff (nPumpID : Nat → Int) :
    (awaitPump nPumpID 100 0 0 ≠ 0 && awaitPump nPumpID 100 0 0 ≠ -1) = true ↔
      Parked nPumpID := by
  have hspec := awaitPump_spec nPumpID 100 0
  simp only [Nat.zero_add] at hspec
  rw [Bool.and_eq_true, decide_eq_true_iff, decide_eq_true_iff]
  exact hspec

variable {m : HubMonitor} {oSnap : Snapshot}

/-- A judgement of the monitor after a poll. It says what the snapshot says, if it is refused of
    a monitor that could not read. -/
theorem judged_iff {J : HubMonitor → Prop} {P : Reading → Prop}
    (hold : ∀ nQue nAcc, ¬ J { m with bReadable := false, nQue := nQue, nAcc := nAcc })
    (hnew : ∀ r : Reading, J ⟨m.nQueAlarmAt, m.nAccAlarmAt, true, r.nQue, r.nAcc, r.nPumpsMax,
      decide (m.nQueAlarmAt < r.nQue), decide (m.nAccAlarmAt < r.nAcc)⟩ ↔ P r) :
    J (m.poll wLong oSnap) ↔ Says wLong oSnap P := by
  unfold Says
  rcases hread : readingOf wLong oSnap with _ | r
  · obtain ⟨nQue, nAcc, hpoll⟩ := poll_unread hread m
    rw [hpoll]
    simp [hold]
  · rw [poll_read hread, hnew]
    simp

/-- The first poll: the monitor has nothing older, and it asks whether it could read. -/
theorem rests_iff (hat : m.nQueAlarmAt = 3 ∧ m.nAccAlarmAt = 2) :
    ((m.poll wLong oSnap).bReadable = true ∧ (m.poll wLong oSnap).bQueAlarm = false ∧
      (m.poll wLong oSnap).bAccAlarm = false ∧ (m.poll wLong oSnap).nQue = 0 ∧
      (m.poll wLong oSnap).nAcc = 0 ∧ 0 < (m.poll wLong oSnap).nPumpsMax) ↔
        Says wLong oSnap RestsAt := by
  refine judged_iff (J := fun m => m.bReadable = true ∧ m.bQueAlarm = false ∧
    m.bAccAlarm = false ∧ m.nQue = 0 ∧ m.nAcc = 0 ∧ 0 < m.nPumpsMax) ?_ ?_
  · simp
  · intro r
    simp only [hat, decide_eq_false_iff_not, true_and]
    unfold RestsAt
    omega

/-- The second poll: an old alarm is quiet, so it does not pass for one that fires. -/
theorem countsThree_iff (hat : m.nQueAlarmAt = 3 ∧ m.nAccAlarmAt = 2)
    (hquiet : m.bAccAlarm = false) :
    ((m.poll wLong oSnap).nAcc = 3 ∧ (m.poll wLong oSnap).bAccAlarm = true ∧
      (m.poll wLong oSnap).bQueAlarm = false) ↔ Says wLong oSnap CountsThree := by
  refine judged_iff (J := fun m => m.nAcc = 3 ∧ m.bAccAlarm = true ∧ m.bQueAlarm = false) ?_ ?_
  · simp [hquiet]
  · intro r
    simp only [hat, decide_eq_true_iff, decide_eq_false_iff_not]
    unfold CountsThree
    omega

/-- The third poll, likewise. -/
theorem rose_iff (hat : m.nQueAlarmAt = 3) (hquiet : m.bQueAlarm = false) :
    (4 ≤ (m.poll wLong oSnap).nQue ∧ (m.poll wLong oSnap).bQueAlarm = true) ↔
      Says wLong oSnap fun r => 4 ≤ r.nQue := by
  refine judged_iff (J := fun m => 4 ≤ m.nQue ∧ m.bQueAlarm = true) ?_ ?_
  · simp [hquiet]
  · intro r
    simp only [hat, decide_eq_true_iff]
    omega

/-- The fourth poll: now an old alarm fires, and does not pass for a quiet one. -/
theorem fell_iff (hat : m.nQueAlarmAt = 3) (hfired : m.bQueAlarm = true) :
    ((m.poll wLong oSnap).nQue = 0 ∧ (m.poll wLong oSnap).bQueAlarm = false) ↔
      Says wLong oSnap fun r => r.nQue = 0 := by
  refine judged_iff (J := fun m => m.nQue = 0 ∧ m.bQueAlarm = false) ?_ ?_
  · simp [hfired]
  · intro r
    simp only [hat, decide_eq_false_iff_not]
    omega

/-- A check that has another verdict is passed. -/
theorem passes_iff {c : Prop} [Decidable c] {x rest n : Nat} (hx : x ≠ n) :
    (if c then x else rest) = n ↔ ¬ c ∧ rest = n := by
  by_cases hc : c
  · simp [hc, hx]
  · simp [hc]

/-- A check that has this verdict is not, or a later one has it too. -/
theorem stops_iff {c : Prop} [Decidable c] {rest n : Nat} :
    (if c then n else rest) = n ↔ c ∨ rest = n := by
  by_cases hc : c
  · simp [hc]
  · simp [hc]

theorem nExit_zero_iff (f : Findings) : nExit f = 0 ↔
    (f.bPresent = true ∧ f.bRestQuiet = true ∧ f.bRestZero = true ∧ f.bPumpsMax = true) ∧
      f.bDialled = true ∧ (f.bAccExact = true ∧ f.bAccFired = true ∧ f.bQueQuiet = true) ∧
      f.bParked = true ∧ (f.bQueRose = true ∧ f.bQueFired = true) ∧ f.bQueFell = true := by
  unfold nExit
  iterate 9 rw [passes_iff (by decide)]
  simp [and_assoc]

theorem nExit_three_iff (f : Findings) : nExit f = 3 ↔
    (f.bPresent = true ∧ f.bRestQuiet = true ∧ f.bRestZero = true ∧ f.bPumpsMax = true) ∧
      (f.bDialled = false ∨
        (f.bAccExact = true ∧ f.bAccFired = true ∧ f.bQueQuiet = true) ∧ f.bParked = false) := by
  unfold nExit
  iterate 3 rw [passes_iff (by decide)]
  rw [stops_iff]
  iterate 2 rw [passes_iff (by decide)]
  rw [stops_iff]
  iterate 2 rw [passes_iff (by decide)]
  simp [and_assoc]

theorem nExit_ne_two (f : Findings) : nExit f ≠ 2 := by
  unfold nExit
  intro h
  iterate 9 rw [passes_iff (by decide)] at h
  simp at h

/-- The poll at rest, as `main` judges it. -/
theorem findings_rests (w : World) : ((findings wLong w).bPresent = true ∧
    (findings wLong w).bRestQuiet = true ∧ (findings wLong w).bRestZero = true ∧
      (findings wLong w).bPumpsMax = true) ↔ Says wLong w.atRest RestsAt := by
  rw [← rests_iff (m := .new 3 2) ⟨rfl, rfl⟩]
  simp only [findings, Bool.and_eq_true, Bool.not_eq_true', decide_eq_true_iff]
  tauto

/-- What the monitor is after it. -/
theorem poll_of_rests {w : World} (h : Says wLong w.atRest RestsAt) :
    ∃ nPumpsMax, HubMonitor.poll wLong (.new 3 2) w.atRest =
      ⟨3, 2, true, 0, 0, nPumpsMax, false, false⟩ := by
  obtain ⟨r, hread, hque, hacc, -⟩ := h
  refine ⟨r.nPumpsMax, ?_⟩
  rw [poll_read hread, hque, hacc]
  rfl

/-- The poll with three peers. -/
theorem findings_countsThree {w : World} (h : Says wLong w.atRest RestsAt) :
    ((findings wLong w).bAccExact = true ∧ (findings wLong w).bAccFired = true ∧
      (findings wLong w).bQueQuiet = true) ↔ Says wLong w.connected CountsThree := by
  obtain ⟨nPumpsMax, hrest⟩ := poll_of_rests h
  simp only [findings, hrest, Bool.not_eq_true', decide_eq_true_iff]
  exact countsThree_iff ⟨rfl, rfl⟩ rfl

/-- The two polls with the parked pump. -/
theorem findings_queue {w : World} (h : Says wLong w.atRest RestsAt)
    (hthree : Says wLong w.connected CountsThree) (hparked : (findings wLong w).bParked = true) :
    (((findings wLong w).bQueRose = true ∧ (findings wLong w).bQueFired = true) ∧
      (findings wLong w).bQueFell = true) ↔
    Says wLong w.parked (fun r => 4 ≤ r.nQue) ∧ Says wLong w.closed fun r => r.nQue = 0 := by
  obtain ⟨nPumpsMax, hrest⟩ := poll_of_rests h
  obtain ⟨r, hread, -, hque⟩ := hthree
  obtain ⟨m, hm, hat, hquiet⟩ : ∃ m, (HubMonitor.poll wLong (.new 3 2) w.atRest).poll wLong
      w.connected = m ∧ m.nQueAlarmAt = 3 ∧ m.bQueAlarm = false := by
    rw [hrest, poll_read hread]
    exact ⟨_, rfl, rfl, decide_eq_false (Int.not_lt.mpr hque)⟩
  have hat' : (m.poll wLong w.parked).nQueAlarmAt = 3 := (poll_thresholds m _).1.trans hat
  have hpump : (awaitPump w.nPumpID 100 0 0 ≠ 0 && awaitPump w.nPumpID 100 0 0 ≠ -1) = true :=
    hparked
  simp only [findings, hm, hpump, Bool.true_and, Bool.and_eq_true, Bool.not_eq_true',
    decide_eq_true_iff]
  constructor
  · rintro ⟨⟨hrose, hfired⟩, hfell⟩
    exact ⟨(rose_iff hat hquiet).mp ⟨hrose, hfired⟩, (fell_iff hat' hfired).mp hfell⟩
  · rintro ⟨hrose, hfell⟩
    have hup := (rose_iff hat hquiet).mpr hrose
    exact ⟨hup, (fell_iff hat' hup.2).mpr hfell⟩

/-- All three peers have connected. -/
def Dialled (w : World) : Prop := w.a1 = true ∧ w.a2 = true ∧ w.a3 = true

theorem findings_dialled (w : World) : (findings wLong w).bDialled = true ↔ Dialled w := by
  simp only [findings, Dialled, Bool.and_eq_true]
  tauto

/-- **What the exit code says**: 0 exactly when all of the four snapshots could be read and say
    what they should, 3 exactly when a peer or the parked pump is missing and what was polled
    before says what it should. No verdict but 1 comes of an older reading. -/
theorem exit_code_iff (w : World) :
    (main wLong w = 0 ↔ w.bStarted = true ∧ Says wLong w.atRest RestsAt ∧ Dialled w ∧
      Says wLong w.connected CountsThree ∧ Parked w.nPumpID ∧
      Says wLong w.parked (fun r => 4 ≤ r.nQue) ∧ Says wLong w.closed fun r => r.nQue = 0) ∧
    (main wLong w = 3 ↔ w.bStarted = true ∧ Says wLong w.atRest RestsAt ∧
      (¬ Dialled w ∨ Says wLong w.connected CountsThree ∧ ¬ Parked w.nPumpID)) ∧
    (main wLong w = 2 ↔ w.bStarted = false) := by
  unfold main
  rcases hstarted : w.bStarted with _ | _
  · simp
  have hparked : (findings wLong w).bParked = true ↔ Parked w.nPumpID := parked_iff w.nPumpID
  rw [if_pos rfl]
  refine ⟨?_, ?_, ?_⟩
  · rw [nExit_zero_iff, findings_rests, findings_dialled]
    constructor
    · rintro ⟨hrest, hdialled, hthree, hpump, hup, hdown⟩
      rw [findings_countsThree hrest] at hthree
      have hqueue := (findings_queue hrest hthree hpump).mp ⟨hup, hdown⟩
      exact ⟨rfl, hrest, hdialled, hthree, hparked.mp hpump, hqueue⟩
    · rintro ⟨-, hrest, hdialled, hthree, hpump, hqueue⟩
      have hfound := (findings_queue hrest hthree (hparked.mpr hpump)).mpr hqueue
      exact ⟨hrest, hdialled, (findings_countsThree hrest).mpr hthree, hparked.mpr hpump, hfound⟩
  · rw [nExit_three_iff, findings_rests]
    simp only [true_and, ← Bool.not_eq_true]
    refine and_congr_right fun hrest => ?_
    rw [findings_dialled, findings_countsThree hrest, hparked]
  · simp [nExit_ne_two]

/-- The fields as a hub writes them. -/
def written (nQue nAcc : Int) : Snapshot
  | "QueDepth" => .integer (BitVec.ofInt 64 nQue)
  | "Accepted" => .integer (BitVec.ofInt 64 nAcc)
  | "PumpsMax" => .integer 16
  | _ => .absent

/-- A hub that does what the test asks for. -/
def healthy : World where
  bStarted := true
  atRest := written 0 0
  connected := written 0 3
  parked := written 5 3
  closed := written 0 3
  a1 := true
  a2 := true
  a3 := true
  nPumpID := fun i => if i < 2 then 0 else 7

/-- Without its last snapshot the older depth is judged, and that does not pass. -/
example : main 32 healthy = 0 ∧ main 32 { healthy with closed := fun _ => .absent } = 1 := by
  decide +kernel

end width

end HubSnap
