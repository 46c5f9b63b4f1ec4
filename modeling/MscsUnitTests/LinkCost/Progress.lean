import MscsUnitTests.LinkCost.Window

/-! # The Link Cost Harness: Every Run Ends

    The sender and the callbacks of `p2p_linkcost.cpp` again, and what becomes of a run.
    Completion is two things: a run cannot go on for ever, and it cannot get stuck before
    everything has been counted.

    * `work`: what is left to do, and every step does some of it.
    * `Reported`: `bDone` is true only when `nCount` messages have been counted.
    * `send_window_completes`: for every interleaving, without a timeout.
-/

open Transitions

namespace LinkCost

/-! ## Section 1: What is left to do -/

/-- The steps of a callback that are still to come, with two more for the `SetEvent` that
    the sender may have to answer. -/
def Phase.work : Phase → Nat
  | .posted => 8
  | .entered => 7
  | .sized => 6
  | .released _ => 5
  | .signalled => 2
  | .counted _ => 1
  | .returned => 0

/-- What is left of the sender, with eleven steps for each message it has not posted. -/
def senderWork (nCount : Nat) (s : State) : Nat :=
  match s.pc with
  | .check => 11 * (nCount - s.i) + 2
  | .waitDrain => 11 * (nCount - s.i) + 1
  | .increment => 11 * (nCount - s.i) + 1
  | .post => 11 * (nCount - s.i)
  | .checkDone => 2
  | .waitDone => 1
  | .finished _ => 0

/-- An event that is set can send the sender round its wait once more. -/
def work (nCount : Nat) (s : State) : Nat :=
  senderWork nCount s + (s.msgs.map Phase.work).sum + if s.drain = true then 2 else 0

section variant
variable {nWindow : Int} {nCount : Nat} {s s' : State}

theorem work_start (nCount : Nat) : work nCount (start nCount) ≤ 11 * nCount + 2 := by
  unfold work senderWork start
  by_cases h : 0 < nCount
  · simp [h]
  · simp [h]

/-- A callback that goes on has less to do, and so has the system. -/
theorem work_callback {k : Nat} {old new : Phase} (hk : s.msgs[k]? = some old)
    (hmsgs : s'.msgs = s.msgs.set k new) (hpc : s'.pc = s.pc) (hi : s'.i = s.i)
    (hless : (new.work + if s'.drain = true then 2 else 0) <
      old.work + if s.drain = true then 2 else 0) : work nCount s' < work nCount s := by
  have hsum := sum_map_set Phase.work new hk
  unfold work senderWork
  rw [hmsgs, hpc, hi]
  omega

/-- So has the sender, where it touches no message. -/
theorem work_sender (hmsgs : s'.msgs = s.msgs)
    (hless : (senderWork nCount s' + if s'.drain = true then 2 else 0) <
      senderWork nCount s + if s.drain = true then 2 else 0) : work nCount s' < work nCount s := by
  unfold work
  rw [hmsgs]
  omega

theorem work_post (hlt : s.i < nCount) (hpc : s.pc = .post) :
    work nCount { s with
      msgs := s.msgs ++ [.posted]
      i := s.i + 1
      pc := if s.i + 1 < nCount then .check else .checkDone } < work nCount s := by
  have hlast : (([Phase.posted].map Phase.work).sum) = 8 := rfl
  unfold work senderWork
  rw [hpc]
  dsimp only
  rw [List.map_append, List.sum_append, hlast]
  by_cases hmore : s.i + 1 < nCount
  · rw [if_pos hmore]
    dsimp only
    omega
  · rw [if_neg hmore]
    dsimp only
    omega

/-- Whatever holds of the state that a guarded step leads to, holds behind the step. -/
theorem holds_of_guard {P : State → Prop} {guard : Prop} [Decidable guard] {next : State}
    (hnext : guard → P next) (hstep : (if guard then some next else none) = some s') : P s' := by
  obtain ⟨hguard, heq⟩ := Option.ite_none_right_eq_some.mp hstep
  cases heq
  exact hnext hguard

/-- **Every step does some of the work.** -/
theorem work_step (h : Inv nWindow nCount s) {a : Action}
    (hstep : step nWindow nCount s a = some s') : work nCount s' < work nCount s := by
  cases a with
  | loadInFlight =>
    refine holds_of_guard (P := fun s' => work nCount s' < work nCount s) ?_ hstep
    intro hpc
    refine work_sender rfl ?_
    unfold senderWork
    rw [hpc]
    by_cases hfull : s.nInFlight ≥ nWindow
    · rw [if_pos hfull]
      dsimp only
      omega
    · rw [if_neg hfull]
      dsimp only
      omega
  | drained =>
    refine holds_of_guard (P := fun s' => work nCount s' < work nCount s) ?_ hstep
    intro hpc
    refine work_sender rfl ?_
    -- the event that was set is used up
    unfold senderWork
    rw [hpc.1, hpc.2]
    simp
  | drainTimeout =>
    refine holds_of_guard (P := fun s' => work nCount s' < work nCount s) ?_ hstep
    intro hpc
    refine work_sender rfl ?_
    unfold senderWork
    rw [hpc.1]
    dsimp only
    omega
  | increment =>
    refine holds_of_guard (P := fun s' => work nCount s' < work nCount s) ?_ hstep
    intro hpc
    refine work_sender rfl ?_
    unfold senderWork
    rw [hpc]
    dsimp only
    omega
  | post =>
    refine holds_of_guard (P := fun s' => work nCount s' < work nCount s) ?_ hstep
    intro hpc
    refine work_post (h.sending ?_) hpc
    rw [hpc]
    rfl
  | loadRecv =>
    refine holds_of_guard (P := fun s' => work nCount s' < work nCount s) ?_ hstep
    intro hpc
    refine work_sender rfl ?_
    unfold senderWork
    rw [hpc]
    by_cases hall : s.nRecv ≥ nCount
    · rw [if_pos hall]
      dsimp only
      omega
    · rw [if_neg hall]
      dsimp only
      omega
  | arrived =>
    refine holds_of_guard (P := fun s' => work nCount s' < work nCount s) ?_ hstep
    intro hpc
    refine work_sender rfl ?_
    unfold senderWork
    rw [hpc.1]
    dsimp only
    omega
  | doneTimeout =>
    refine holds_of_guard (P := fun s' => work nCount s' < work nCount s) ?_ hstep
    intro hpc
    refine work_sender rfl ?_
    unfold senderWork
    rw [hpc.1]
    dsimp only
    omega
  | deliver k =>
    simp only [LinkCost.step] at hstep
    split at hstep
    · next hk =>
      cases hstep
      exact work_callback hk rfl rfl rfl (Nat.add_lt_add_right (by simp [Phase.work]) _)
    · cases hstep
  | size k short =>
    simp only [LinkCost.step] at hstep
    split at hstep
    · next hk =>
      cases hstep
      exact work_callback hk rfl rfl rfl (Nat.add_lt_add_right (by simp [Phase.work]) _)
    · cases hstep
  | release k =>
    simp only [LinkCost.step] at hstep
    split at hstep
    · next hk =>
      cases hstep
      exact work_callback hk rfl rfl rfl (Nat.add_lt_add_right (by simp [Phase.work]) _)
    · cases hstep
  | signalDrain k =>
    simp only [LinkCost.step] at hstep
    split at hstep
    · next nLeft hk =>
      cases hstep
      refine work_callback hk rfl rfl rfl ?_
      -- whether or not the event was set before, it may be set now
      simp only [Phase.work]
      split <;> split <;> omega
    · cases hstep
  | count k =>
    simp only [LinkCost.step] at hstep
    split at hstep
    · next hk =>
      cases hstep
      exact work_callback hk rfl rfl rfl (Nat.add_lt_add_right (by simp [Phase.work]) _)
    · cases hstep
  | signalDone k =>
    simp only [LinkCost.step] at hstep
    split at hstep
    · next nGot hk =>
      cases hstep
      exact work_callback hk rfl rfl rfl (Nat.add_lt_add_right (by simp [Phase.work]) _)
    · cases hstep

/-- A run takes no more steps than that. -/
theorem run_length_le (hW : 1 ≤ nWindow) {as : List Action}
    (hrun : Run (step nWindow nCount) (start nCount) as s) : as.length ≤ 11 * nCount + 2 := by
  have hbound := hrun.length_le (f := work nCount) (fun _ _ _ hI hs => hI.step hs)
    (fun _ _ _ hI hs => work_step hI hs) (inv_start hW)
  have hstart := work_start nCount
  omega

end variant

/-! ## Section 2: What is reported -/

/-- What the sender has been told is so. -/
structure Reported (nCount : Nat) (s : State) : Prop where
  /-- Behind its loop it has posted everything, unless it gave up. -/
  posted : s.pc.sending = false → s.pc ≠ .finished false → s.i = nCount
  counted : ∀ phase ∈ s.msgs, ∀ nGot, phase = .counted nGot → nGot ≤ s.nRecv
  /-- `g_hDone` is set when all messages have been counted, and not before. -/
  done : s.done = true → nCount ≤ s.nRecv
  finished : s.pc = .finished true → nCount ≤ s.nRecv

section reported
variable {nWindow : Int} {nCount : Nat} {s s' : State}

theorem reported_start (nCount : Nat) : Reported nCount (start nCount) := by
  by_cases h : 0 < nCount
  · constructor <;> simp [start, h, Pc.sending]
  · constructor <;> simp [start, h]
    omega

/-- A callback reports no more than has been counted. -/
theorem Reported.callback (h : Reported nCount s) {k : Nat} {new : Phase}
    (hmsgs : s'.msgs = s.msgs.set k new) (hpc : s'.pc = s.pc) (hi : s'.i = s.i)
    (hrecv : s.nRecv ≤ s'.nRecv) (hnew : ∀ nGot, new = .counted nGot → nGot ≤ s'.nRecv)
    (hdone : s'.done = true → s.done = true ∨ nCount ≤ s'.nRecv) : Reported nCount s' where
  posted := by
    rw [hpc, hi]
    exact h.posted
  counted := by
    rw [hmsgs]
    intro phase hmem nGot hphase
    rcases List.mem_or_eq_of_mem_set hmem with hold | rfl
    · exact Int.le_trans (h.counted phase hold nGot hphase) hrecv
    · exact hnew nGot hphase
  done := by
    intro hset
    rcases hdone hset with hold | hall
    · exact Int.le_trans (h.done hold) hrecv
    · exact hall
  finished := by
    rw [hpc]
    exact fun hfinished => Int.le_trans (h.finished hfinished) hrecv

/-- The sender goes by what has been reported. -/
theorem Reported.sender (h : Reported nCount s) (hmsgs : s'.msgs = s.msgs)
    (hrecv : s'.nRecv = s.nRecv) (hdone : s'.done = true → s.done = true)
    (hposted : s'.pc.sending = false → s'.pc ≠ .finished false → s'.i = nCount)
    (hfinished : s'.pc = .finished true → nCount ≤ s.nRecv) : Reported nCount s' where
  posted := hposted
  counted := by
    rw [hmsgs, hrecv]
    exact h.counted
  done := by
    rw [hrecv]
    exact fun hset => h.done (hdone hset)
  finished := by
    rw [hrecv]
    exact hfinished

theorem Reported.post (h : Reported nCount s) (hlt : s.i < nCount) :
    Reported nCount { s with
      msgs := s.msgs ++ [.posted]
      i := s.i + 1
      pc := if s.i + 1 < nCount then .check else .checkDone } where
  posted := by
    dsimp only
    split
    · simp [Pc.sending]
    · intro _ _
      omega
  counted := by
    intro phase hmem nGot hphase
    rcases List.mem_append.mp hmem with hold | hnew
    · exact h.counted phase hold nGot hphase
    · rw [List.mem_singleton.mp hnew] at hphase
      cases hphase
  done := h.done
  finished := by
    dsimp only
    split <;> simp

theorem Reported.loadRecv (h : Reported nCount s) (hpc : s.pc = .checkDone) :
    Reported nCount
      { s with pc := if s.nRecv ≥ nCount then .finished true else .waitDone } := by
  have hall : s.i = nCount := h.posted (by rw [hpc]; rfl) (by rw [hpc]; simp)
  refine h.sender rfl rfl id (fun _ _ => hall) ?_
  dsimp only
  split
  · next hge => exact fun _ => hge
  · simp

/-- **One step** keeps what is reported true. -/
theorem Reported.step (h : Reported nCount s) (hinv : Inv nWindow nCount s) {a : Action}
    (hstep : step nWindow nCount s a = some s') : Reported nCount s' := by
  cases a with
  | loadInFlight =>
    refine holds_of_guard ?_ hstep
    intro _
    refine h.sender rfl rfl id ?_ ?_
    · dsimp only
      split <;> simp [Pc.sending]
    · dsimp only
      split <;> simp
  | drained =>
    refine holds_of_guard ?_ hstep
    intro _
    exact h.sender rfl rfl id (by simp [Pc.sending]) (by simp)
  | drainTimeout =>
    refine holds_of_guard ?_ hstep
    intro _
    exact h.sender rfl rfl id (fun _ hno => absurd rfl hno) (by simp)
  | increment =>
    refine holds_of_guard ?_ hstep
    intro _
    exact h.sender rfl rfl id (by simp [Pc.sending]) (by simp)
  | post =>
    refine holds_of_guard ?_ hstep
    intro hpc
    exact h.post (hinv.sending (by rw [hpc]; rfl))
  | loadRecv =>
    refine holds_of_guard ?_ hstep
    exact h.loadRecv
  | arrived =>
    refine holds_of_guard ?_ hstep
    rintro ⟨hpc, hset⟩
    have hall : s.i = nCount := h.posted (by rw [hpc]; rfl) (by rw [hpc]; simp)
    exact h.sender rfl rfl (by simp) (fun _ _ => hall) (fun _ => h.done hset)
  | doneTimeout =>
    refine holds_of_guard ?_ hstep
    intro _
    exact h.sender rfl rfl id (fun _ hno => absurd rfl hno) (by simp)
  | deliver k =>
    simp only [LinkCost.step] at hstep
    split at hstep
    · cases hstep
      exact h.callback rfl rfl rfl (Int.le_refl _) (by simp) Or.inl
    · cases hstep
  | size k short =>
    simp only [LinkCost.step] at hstep
    split at hstep
    · cases hstep
      exact h.callback rfl rfl rfl (Int.le_refl _) (by simp) Or.inl
    · cases hstep
  | release k =>
    simp only [LinkCost.step] at hstep
    split at hstep
    · cases hstep
      exact h.callback rfl rfl rfl (Int.le_refl _) (by simp) Or.inl
    · cases hstep
  | signalDrain k =>
    simp only [LinkCost.step] at hstep
    split at hstep
    · cases hstep
      exact h.callback rfl rfl rfl (Int.le_refl _) (by simp) Or.inl
    · cases hstep
  | count k =>
    simp only [LinkCost.step] at hstep
    split at hstep
    · cases hstep
      refine h.callback rfl rfl rfl ?_ ?_ Or.inl
      · dsimp only
        omega
      · intro nGot hnew
        cases hnew
        exact Int.le_refl _
    · cases hstep
  | signalDone k =>
    simp only [LinkCost.step] at hstep
    split at hstep
    · next nGot hk =>
      cases hstep
      refine h.callback rfl rfl rfl (Int.le_refl _) (by simp) ?_
      -- what the callback got is no more than what has been counted since
      have hgot := h.counted _ (List.mem_of_getElem? hk) nGot rfl
      dsimp only
      split
      · next hge => exact fun _ => Or.inr (Int.le_trans hge hgot)
      · exact Or.inl
    · cases hstep

end reported

/-! ## Section 3: How a run ends -/

/-- A wait that is given up. -/
def Action.isTimeout : Action → Bool
  | .drainTimeout | .doneTimeout => true
  | _ => false

/-- The action of a callback, by where it stands. -/
def Phase.next (k : Nat) : Phase → Option Action
  | .posted => some (.deliver k)
  | .entered => some (.size k false)
  | .sized => some (.release k)
  | .released _ => some (.signalDrain k)
  | .signalled => some (.count k)
  | .counted _ => some (.signalDone k)
  | .returned => none

/-- Everything was posted, delivered and counted, and the sender knows it. -/
structure Completed (nCount : Nat) (s : State) : Prop where
  sender : s.pc = .finished true
  callbacks : s.msgs = List.replicate nCount .returned
  recv : s.nRecv = nCount
  inFlight : s.nInFlight = 0

section ends
variable {nWindow : Int} {nCount : Nat} {s : State}

/-- A callback that has not returned can go on. -/
theorem step_next {k : Nat} {phase : Phase} (hk : s.msgs[k]? = some phase) {a : Action}
    (ha : phase.next k = some a) : a.isTimeout = false ∧ step nWindow nCount s a ≠ none := by
  cases phase <;> cases ha <;> simp [step, hk, Action.isTimeout]

/-- Without a timeout the sender does not give up. -/
theorem not_given_up {as : List Action} (hrun : Run (step nWindow nCount) (start nCount) as s)
    (hquick : ∀ a ∈ as, a.isTimeout = false) : s.pc ≠ .finished false := by
  refine hrun.inv_on (A := fun a => a.isTimeout = false) (I := fun s => s.pc ≠ .finished false)
    ?_ hquick ?_
  · intro s a s' ha hs hstep
    cases a <;> cases ha <;> simp only [step] at hstep <;> split at hstep <;> cases hstep <;>
      first
      | exact hs
      | (dsimp only; split <;> simp)
      | simp
  · unfold start
    split <;> simp

/-- Where every callback has returned, the sender can go on until it is done. -/
theorem finished_of_stuck (hW : 1 ≤ nWindow) (hinv : Inv nWindow nCount s)
    (hreported : Reported nCount s) (hgave : s.pc ≠ .finished false)
    (hreturned : ∀ phase ∈ s.msgs, phase = .returned)
    (hstuck : ∀ a : Action, a.isTimeout = false → step nWindow nCount s a = none) :
    s.pc = .finished true := by
  cases hpc : s.pc with
  | check => exact absurd (hstuck .loadInFlight rfl) (by simp [step, hpc])
  | increment => exact absurd (hstuck .increment rfl) (by simp [step, hpc])
  | post => exact absurd (hstuck .post rfl) (by simp [step, hpc])
  | checkDone => exact absurd (hstuck .loadRecv rfl) (by simp [step, hpc])
  | waitDrain =>
    by_cases hdrain : s.drain = true
    · exact absurd (hstuck .drained rfl) (by simp [step, hpc, hdrain])
    · -- nobody would have been left to wake the sender
      obtain ⟨phase, hmem, hheld⟩ := hinv.noLostWakeUp hW hpc (by simpa using hdrain)
        fun phase hmem => by rw [hreturned phase hmem]; rfl
      rw [hreturned phase hmem] at hheld
      cases hheld
  | waitDone =>
    by_cases hdone : s.done = true
    · exact absurd (hstuck .arrived rfl) (by simp [step, hpc, hdone])
    · have hall : s.i = nCount := hreported.posted (by rw [hpc]; rfl) hgave
      have hposted := hinv.posted
      have hblocked := (hinv.complete (by omega) hreturned).1
      exact absurd (Or.inr ⟨hpc, by simpa using hdone⟩) hblocked
  | finished bDone =>
    cases bDone with
    | true => rfl
    | false => exact absurd hpc hgave

/-- **The send window completes**: for every window, count and interleaving, a run has a
    bounded number of steps, what the sender reports as complete is, and a run without a
    timeout that cannot go on has delivered and counted everything. -/
theorem send_window_completes (hW : 1 ≤ nWindow) {as : List Action}
    (hrun : Run (step nWindow nCount) (start nCount) as s) :
    as.length ≤ 11 * nCount + 2 ∧ (s.pc = .finished true → s.i = nCount ∧ s.nRecv = nCount) ∧
    ((∀ a ∈ as, a.isTimeout = false) →
      (∀ a : Action, a.isTimeout = false → step nWindow nCount s a = none) →
      Completed nCount s) := by
  have hboth : Inv nWindow nCount s ∧ Reported nCount s :=
    hrun.inv (I := fun s => Inv nWindow nCount s ∧ Reported nCount s)
      (fun _ _ _ hI hs => ⟨hI.1.step hs, hI.2.step hI.1 hs⟩) ⟨inv_start hW, reported_start nCount⟩
  obtain ⟨hinv, hreported⟩ := hboth
  have hposted := hinv.posted
  have hrecv := hinv.recv
  have hcounted := tally_le_length Phase.isCounted s.msgs
  have hfinished : s.pc = .finished true → s.i = nCount ∧ s.nRecv = nCount := by
    intro hpc
    have hall : s.i = nCount := hreported.posted (by rw [hpc]; rfl) (by rw [hpc]; simp)
    have hge := hreported.finished hpc
    exact ⟨hall, by omega⟩
  refine ⟨run_length_le hW hrun, hfinished, ?_⟩
  intro hquick hstuck
  have hreturned : ∀ phase ∈ s.msgs, phase = .returned := by
    intro phase hmem
    obtain ⟨k, hk⟩ := List.mem_iff_getElem?.mp hmem
    cases hnext : phase.next k with
    | none => cases phase <;> first | rfl | cases hnext
    | some a =>
      have hcan : a.isTimeout = false ∧ step nWindow nCount s a ≠ none := step_next hk hnext
      obtain ⟨hquiet, hgo⟩ := hcan
      exact absurd (hstuck a hquiet) hgo
  have hpc := finished_of_stuck hW hinv hreported (not_given_up hrun hquick) hreturned hstuck
  obtain ⟨hall, hrecvAll⟩ := hfinished hpc
  have hcounter := hinv.counter
  have hnone : unit (Pc.finished true == .post) = 0 := rfl
  have hreleased : tally Phase.isReleased s.msgs = s.msgs.length :=
    tally_eq_length fun phase hmem => by rw [hreturned phase hmem]; rfl
  rw [hpc, hnone] at hcounter
  exact {
    sender := hpc
    callbacks := List.eq_replicate_iff.mpr ⟨by omega, hreturned⟩
    recv := hrecvAll
    inFlight := by omega }

end ends

/-- One message, from the first load to the last. -/
def oneMessage : List Action :=
  [.loadInFlight, .increment, .post, .deliver 0, .size 0 false, .release 0, .signalDrain 0,
    .count 0, .signalDone 0, .loadRecv]

theorem send_window_completes_one :
    oneMessage.length ≤ 11 * 1 + 2 ∧
    ((⟨0, 1, 0, true, true, .finished true, 1, [.returned]⟩ : State).pc = .finished true →
      (1 : Nat) = 1 ∧ (1 : Int) = 1) ∧
    ((∀ a ∈ oneMessage, a.isTimeout = false) →
      (∀ a : Action, a.isTimeout = false →
        step 1 1 ⟨0, 1, 0, true, true, .finished true, 1, [.returned]⟩ a = none) →
      Completed 1 ⟨0, 1, 0, true, true, .finished true, 1, [.returned]⟩) :=
  send_window_completes (s := ⟨0, 1, 0, true, true, .finished true, 1, [.returned]⟩) (by decide)
    (run_of_exec rfl)

end LinkCost
