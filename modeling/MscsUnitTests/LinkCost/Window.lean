import MscsUnitTests.Lib.Transitions

/-! # The Link Cost Harness: The Send Window

    The run of `p2p_linkcost.cpp`: the sender of `RunPosture`, which keeps at most a
    window of messages in flight, and the callbacks `On_P2PeerBCast` of the receiver,
    which make room. Every access to a counter or an event that they share is a step of
    its own, and the steps of all parties come in any order.
-/

open Transitions

namespace LinkCost

/-! ## Section 1: State -/

/-- Where the callback of a posted message stands. -/
inductive Phase where
  /-- The callback has not been called. -/
  | posted
  | entered
  /-- The size has been looked at. -/
  | sized
  /-- `g_nInFlight` is one less, and `g_hDrain` has not been set yet. -/
  | released (nLeft : Int)
  | signalled
  /-- `g_nRecv` is one more, and `g_hDone` has not been set yet. -/
  | counted (nGot : Int)
  | returned
  deriving DecidableEq

/-- Where the sender stands. -/
inductive Pc where
  /-- Before the load of `g_nInFlight`. -/
  | check
  /-- In the wait for `g_hDrain`. -/
  | waitDrain
  | increment
  | post
  /-- Before the load of `g_nRecv`. -/
  | checkDone
  /-- In the wait for `g_hDone`. -/
  | waitDone
  | finished (bDone : Bool)
  deriving DecidableEq

structure State where
  nInFlight : Int
  nRecv : Int
  nOpenFail : Int
  /-- `g_hDrain`, auto-reset. -/
  drain : Bool
  /-- `g_hDone`, auto-reset. -/
  done : Bool
  pc : Pc
  i : Nat
  /-- The messages that have been posted. -/
  msgs : List Phase

/-- What `RunPosture` resets before the run. -/
def start (nCount : Nat) : State where
  nInFlight := 0
  nRecv := 0
  nOpenFail := 0
  drain := false
  done := false
  pc := if 0 < nCount then .check else .checkDone
  i := 0
  msgs := []

/-! ## Section 2: Steps -/

/-- A step of the sender, or of the callback of message `k`. -/
inductive Action where
  | loadInFlight
  | drained
  | drainTimeout
  | increment
  | post
  | loadRecv
  | arrived
  | doneTimeout
  | deliver (k : Nat)
  | size (k : Nat) (short : Bool)
  | release (k : Nat)
  | signalDrain (k : Nat)
  | count (k : Nat)
  | signalDone (k : Nat)
  deriving DecidableEq

/-- The callback of message `k` goes on. -/
def State.move (s : State) (k : Nat) (phase : Phase) : State :=
  { s with msgs := s.msgs.set k phase }

/-- What an action does, if it is possible. -/
def step (nWindow : Int) (nCount : Nat) (s : State) : Action → Option State
  | .loadInFlight =>
    if s.pc = .check then
      some { s with pc := if s.nInFlight ≥ nWindow then .waitDrain else .increment }
    else none
  | .drained =>
    if s.pc = .waitDrain ∧ s.drain = true then some { s with drain := false, pc := .check } else none
  -- the run has stalled, so `bDone` is false
  | .drainTimeout =>
    if s.pc = .waitDrain ∧ s.drain = false then some { s with pc := .finished false } else none
  | .increment =>
    if s.pc = .increment then some { s with nInFlight := s.nInFlight + 1, pc := .post } else none
  | .post =>
    if s.pc = .post then
      some { s with
        msgs := s.msgs ++ [.posted]
        i := s.i + 1
        pc := if s.i + 1 < nCount then .check else .checkDone }
    else none
  | .loadRecv =>
    if s.pc = .checkDone then
      some { s with pc := if s.nRecv ≥ nCount then .finished true else .waitDone }
    else none
  | .arrived =>
    if s.pc = .waitDone ∧ s.done = true then
      some { s with done := false, pc := .finished true }
    else none
  | .doneTimeout =>
    if s.pc = .waitDone ∧ s.done = false then some { s with pc := .finished false } else none
  | .deliver k =>
    match s.msgs[k]? with
    | some .posted => some (s.move k .entered)
    | _ => none
  | .size k short =>
    match s.msgs[k]? with
    | some .entered =>
      some { s.move k .sized with nOpenFail := if short then s.nOpenFail + 1 else s.nOpenFail }
    | _ => none
  | .release k =>
    match s.msgs[k]? with
    | some .sized =>
      some { s.move k (.released (s.nInFlight - 1)) with nInFlight := s.nInFlight - 1 }
    | _ => none
  | .signalDrain k =>
    match s.msgs[k]? with
    | some (.released nLeft) =>
      some { s.move k .signalled with drain := if nLeft < nWindow then true else s.drain }
    | _ => none
  | .count k =>
    match s.msgs[k]? with
    | some .signalled =>
      some { s.move k (.counted (s.nRecv + 1)) with nRecv := s.nRecv + 1 }
    | _ => none
  | .signalDone k =>
    match s.msgs[k]? with
    | some (.counted nGot) =>
      -- `g_nTarget` is the count of the run
      some { s.move k .returned with done := if nGot ≥ nCount then true else s.done }
    | _ => none

/-- Has the callback taken its message out of the window? -/
def Phase.isReleased : Phase → Bool
  | .posted | .entered | .sized => false
  | .released _ | .signalled | .counted _ | .returned => true

/-- Is the callback between its decrement and its `SetEvent`? -/
def Phase.isSignalling : Phase → Bool
  | .released _ => true
  | _ => false

/-- Has the callback counted its message? -/
def Phase.isCounted : Phase → Bool
  | .counted _ | .returned => true
  | _ => false

/-- Is the callback about to set `g_hDone`? -/
def Phase.isLast (nCount : Nat) : Phase → Bool
  | .counted nGot => decide (nGot ≥ nCount)
  | _ => false

/-! ## Section 3: The invariant -/

/-- Is the sender in its loop? -/
def Pc.sending : Pc → Bool
  | .check | .waitDrain | .increment | .post => true
  | _ => false

structure Inv (nWindow : Int) (nCount : Nat) (s : State) : Prop where
  posted : s.msgs.length = s.i
  sending : s.pc.sending = true → s.i < nCount
  /-- In flight is what was added and not taken out yet. -/
  counter : s.nInFlight = s.msgs.length + unit (s.pc == .post) - tally Phase.isReleased s.msgs
  cap : s.nInFlight ≤ nWindow
  room : s.pc = .increment → s.nInFlight < nWindow
  small : ∀ phase ∈ s.msgs, ∀ nLeft, phase = .released nLeft → nLeft < nWindow
  /-- While the sender waits for an event that is not set, the window is full, but for
      the callbacks that are about to set it. -/
  wake : s.pc = .waitDrain → s.drain = false →
    nWindow ≤ s.nInFlight + tally Phase.isSignalling s.msgs
  recv : s.nRecv = tally Phase.isCounted s.msgs
  /-- While the sender waits for the end, there is more to come, or a callback that is
      about to say that there is not. -/
  arrive : s.pc = .waitDone → s.done = false →
    s.nRecv < nCount ∨ 1 ≤ tally (Phase.isLast nCount) s.msgs

section preservation
variable {nWindow : Int} {nCount : Nat} {s s' : State}

theorem inv_start (hW : 1 ≤ nWindow) : Inv nWindow nCount (start nCount) where
  posted := rfl
  sending := by
    unfold start
    split
    · next h => exact fun _ => h
    · intro h
      cases h
  counter := by
    unfold start
    split <;> rfl
  cap := by
    show (0 : Int) ≤ nWindow
    omega
  room := by
    intro _
    show (0 : Int) < nWindow
    omega
  small := by simp [start]
  wake := by
    unfold start
    split <;> simp
  recv := rfl
  arrive := by
    unfold start
    split <;> simp

/-- **A step of a callback** keeps the invariant when it accounts for what it changes. -/
theorem Inv.callback (h : Inv nWindow nCount s) {k : Nat} {old new : Phase}
    (hk : s.msgs[k]? = some old) (hmsgs : s'.msgs = s.msgs.set k new) (hpc : s'.pc = s.pc)
    (hi : s'.i = s.i)
    (hflight : s'.nInFlight = s.nInFlight + unit old.isReleased - unit new.isReleased)
    (hle : s'.nInFlight ≤ s.nInFlight)
    (hrecv : s'.nRecv = s.nRecv - unit old.isCounted + unit new.isCounted)
    (hsmall : ∀ nLeft, new = .released nLeft → nLeft < nWindow)
    (hwake : s'.drain = false → s.drain = false ∧
      s.nInFlight + unit old.isSignalling ≤ s'.nInFlight + unit new.isSignalling)
    (harrive : s'.done = false → s.done = false ∧ old.isLast nCount = false ∧
      (s'.nRecv = s.nRecv ∨ s'.nRecv < nCount ∨ new.isLast nCount = true)) :
    Inv nWindow nCount s' := by
  have hlength : s'.msgs.length = s.msgs.length := by
    rw [hmsgs, List.length_set]
  exact {
    posted := by
      rw [hlength, hi]
      exact h.posted
    sending := by
      rw [hpc, hi]
      exact h.sending
    counter := by
      have hcounter := h.counter
      rw [hlength, hpc, hmsgs, tally_set _ new hk, hflight]
      omega
    cap := Int.le_trans hle h.cap
    room := by
      rw [hpc]
      exact fun hinc => Int.lt_of_le_of_lt hle (h.room hinc)
    small := by
      rw [hmsgs]
      intro phase hmem nLeft hphase
      rcases List.mem_or_eq_of_mem_set hmem with hold | rfl
      · exact h.small phase hold nLeft hphase
      · exact hsmall nLeft hphase
    wake := by
      rw [hpc]
      intro hwait hdrain
      obtain ⟨hunset, hsum⟩ := hwake hdrain
      have hfull := h.wake hwait hunset
      rw [hmsgs, tally_set _ new hk]
      omega
    recv := by
      have hcount := h.recv
      rw [hmsgs, tally_set _ new hk, hrecv]
      omega
    arrive := by
      rw [hpc]
      intro hwait hdone
      obtain ⟨hunset, hold, hcase⟩ := harrive hdone
      have hmore := h.arrive hwait hunset
      have hpos := tally_nonneg (Phase.isLast nCount) s.msgs
      rw [hmsgs, tally_set _ new hk, hold]
      have hnone : unit false = 0 := rfl
      have hunit : 0 ≤ unit (new.isLast nCount) := by
        unfold unit
        split <;> omega
      rcases hcase with heq | hlt | hlast
      · rw [heq]
        omega
      · exact Or.inl hlt
      · have hone : unit (new.isLast nCount) = 1 := by
          rw [hlast]
          rfl
        omega }

/-- Ahead of its decrement a callback has done nothing else either. -/
theorem Phase.early {phase : Phase} (h : phase.isReleased = false) (nCount : Nat) :
    phase.isSignalling = false ∧ phase.isCounted = false ∧ phase.isLast nCount = false := by
  cases phase <;> first | exact ⟨rfl, rfl, rfl⟩ | cases h

/-- So a step ahead of it keeps the invariant, whatever the size of the message. -/
theorem Inv.early (h : Inv nWindow nCount s) {k : Nat} {old : Phase} (new : Phase) (n : Int)
    (hk : s.msgs[k]? = some old) (hold : old.isReleased = false)
    (hnew : new.isReleased = false) :
    Inv nWindow nCount { s.move k new with nOpenFail := n } := by
  obtain ⟨hsignal, hcounted, hlast⟩ := Phase.early hold nCount
  obtain ⟨hsignal', hcounted', _⟩ := Phase.early hnew nCount
  refine h.callback hk rfl rfl rfl ?_ (Int.le_refl _) ?_ ?_ ?_ ?_
  · rw [hold, hnew]
    exact (Int.add_sub_cancel _ _).symm
  · rw [hcounted, hcounted']
    exact (Int.sub_add_cancel _ _).symm
  · intro nLeft hreleased
    rw [hreleased] at hnew
    cases hnew
  · intro hunset
    rw [hsignal, hsignal']
    exact ⟨hunset, Int.le_refl _⟩
  · intro hunset
    exact ⟨hunset, hlast, Or.inl rfl⟩

/-- **A step of the sender** that touches neither counter keeps the invariant when it
    goes where it may. -/
theorem Inv.sender (h : Inv nWindow nCount s) (hmsgs : s'.msgs = s.msgs) (hi : s'.i = s.i)
    (hflight : s'.nInFlight = s.nInFlight) (hrecv : s'.nRecv = s.nRecv)
    (hold : (s.pc == .post) = false) (hnew : (s'.pc == .post) = false)
    (hsending : s'.pc.sending = true → s.pc.sending = true)
    (hroom : s'.pc = .increment → s.nInFlight < nWindow)
    (hwake : s'.pc = .waitDrain → nWindow ≤ s.nInFlight)
    (harrive : s'.pc = .waitDone → s.nRecv < nCount) : Inv nWindow nCount s' where
  posted := by
    rw [hmsgs, hi]
    exact h.posted
  sending := by
    rw [hi]
    exact fun hs => h.sending (hsending hs)
  counter := by
    have hcounter := h.counter
    rw [hold] at hcounter
    rw [hmsgs, hflight, hnew]
    exact hcounter
  cap := by
    rw [hflight]
    exact h.cap
  room := by
    rw [hflight]
    exact hroom
  small := by
    rw [hmsgs]
    exact h.small
  wake := by
    rw [hflight, hmsgs]
    intro hwait _
    have hpos := tally_nonneg Phase.isSignalling s.msgs
    have hfull := hwake hwait
    omega
  recv := by
    rw [hrecv, hmsgs]
    exact h.recv
  arrive := by
    rw [hrecv]
    exact fun hwait _ => Or.inl (harrive hwait)

theorem Inv.loadInFlight (h : Inv nWindow nCount s) (hpc : s.pc = .check) :
    Inv nWindow nCount
      { s with pc := if s.nInFlight ≥ nWindow then .waitDrain else .increment } := by
  by_cases hfull : s.nInFlight ≥ nWindow
  · rw [if_pos hfull]
    exact h.sender rfl rfl rfl rfl (by rw [hpc]; rfl) rfl (fun _ => by rw [hpc]; rfl)
      (by simp) (fun _ => hfull) (by simp)
  · rw [if_neg hfull]
    exact h.sender rfl rfl rfl rfl (by rw [hpc]; rfl) rfl (fun _ => by rw [hpc]; rfl)
      (fun _ => by omega) (by simp) (by simp)

/-- A sender that gives up, or is done, is out of its loop. -/
theorem Inv.finished (h : Inv nWindow nCount s) {pc : Pc} (hpc : s.pc = pc) (hpost : pc ≠ .post)
    (bDone done : Bool) : Inv nWindow nCount { s with done := done, pc := .finished bDone } := by
  refine h.sender rfl rfl rfl rfl ?_ rfl (by simp [Pc.sending]) (by simp) (by simp) (by simp)
  rw [hpc]
  exact beq_false_of_ne hpost

theorem Inv.loadRecv (h : Inv nWindow nCount s) (hpc : s.pc = .checkDone) :
    Inv nWindow nCount
      { s with pc := if s.nRecv ≥ nCount then .finished true else .waitDone } := by
  by_cases hall : s.nRecv ≥ nCount
  · rw [if_pos hall]
    exact h.finished hpc (by simp) true s.done
  · rw [if_neg hall]
    exact h.sender rfl rfl rfl rfl (by rw [hpc]; rfl) rfl (by simp [Pc.sending])
      (by simp) (by simp) (fun _ => by omega)

/-- The sender adds to the counter only below the window. -/
theorem Inv.increment (h : Inv nWindow nCount s) (hpc : s.pc = .increment) :
    Inv nWindow nCount { s with nInFlight := s.nInFlight + 1, pc := .post } where
  posted := h.posted
  sending := fun _ => h.sending (by rw [hpc]; rfl)
  counter := by
    have hcounter := h.counter
    have hone : unit (Pc.post == .post) = 1 := rfl
    have hzero : unit (Pc.increment == .post) = 0 := rfl
    rw [hpc] at hcounter
    dsimp only
    omega
  cap := by
    have hroom := h.room hpc
    dsimp only
    omega
  room := by simp
  small := h.small
  wake := by simp
  recv := h.recv
  arrive := by simp

/-- A message that is posted is in no callback yet. -/
theorem Inv.post (h : Inv nWindow nCount s) (hpc : s.pc = .post) :
    Inv nWindow nCount { s with
      msgs := s.msgs ++ [.posted]
      i := s.i + 1
      pc := if s.i + 1 < nCount then .check else .checkDone } where
  posted := by
    simp [h.posted]
  sending := by
    dsimp only
    split
    · next hlt => exact fun _ => hlt
    · simp [Pc.sending]
  counter := by
    have hcounter := h.counter
    have hone : unit (Pc.post == .post) = 1 := rfl
    have hzero : unit ((if s.i + 1 < nCount then Pc.check else .checkDone) == .post) = 0 := by
      split <;> rfl
    have hnone : unit Phase.posted.isReleased = 0 := rfl
    rw [hpc, hone] at hcounter
    dsimp only
    rw [hzero, tally_append_singleton, hnone, List.length_append, List.length_singleton]
    omega
  cap := h.cap
  room := by
    dsimp only
    split <;> simp
  small := by
    intro phase hmem nLeft hphase
    rcases List.mem_append.mp hmem with hold | hnew
    · exact h.small phase hold nLeft hphase
    · rw [List.mem_singleton.mp hnew] at hphase
      cases hphase
  wake := by
    dsimp only
    split <;> simp
  recv := by
    have hrecv := h.recv
    have hnone : unit Phase.posted.isCounted = 0 := rfl
    dsimp only
    rw [tally_append_singleton, hnone]
    omega
  arrive := by
    dsimp only
    split <;> simp

/-- The decrement: the slot is free, and the event is about to be set. -/
theorem Inv.release (h : Inv nWindow nCount s) {k : Nat} (hk : s.msgs[k]? = some .sized) :
    Inv nWindow nCount
      { s.move k (.released (s.nInFlight - 1)) with nInFlight := s.nInFlight - 1 } := by
  have hcap := h.cap
  refine h.callback hk rfl rfl rfl (by simp [unit, Phase.isReleased]) ?_
    (by simp [State.move, unit, Phase.isCounted]) ?_ ?_
    (fun hunset => ⟨hunset, rfl, Or.inl rfl⟩)
  · dsimp only
    omega
  · intro nLeft hnew
    cases hnew
    omega
  · intro hunset
    refine ⟨hunset, ?_⟩
    simp [unit, Phase.isSignalling]

/-- The `SetEvent` for the drain: below the window the event is always set. -/
theorem Inv.signalDrain (h : Inv nWindow nCount s) {k : Nat} {nLeft : Int}
    (hk : s.msgs[k]? = some (.released nLeft)) :
    Inv nWindow nCount
      { s.move k .signalled with drain := if nLeft < nWindow then true else s.drain } := by
  have hsmall := h.small _ (List.mem_of_getElem? hk) nLeft rfl
  refine h.callback hk rfl rfl rfl (by simp [State.move, unit, Phase.isReleased])
    (Int.le_refl _) (by simp [State.move, unit, Phase.isCounted]) (by simp) ?_
    (fun hunset => ⟨hunset, rfl, Or.inl rfl⟩)
  intro hunset
  dsimp only at hunset
  rw [if_pos hsmall] at hunset
  cases hunset

/-- The last message to be counted is the one that is about to set `g_hDone`. -/
theorem Inv.count (h : Inv nWindow nCount s) {k : Nat} (hk : s.msgs[k]? = some .signalled) :
    Inv nWindow nCount { s.move k (.counted (s.nRecv + 1)) with nRecv := s.nRecv + 1 } := by
  refine h.callback hk rfl rfl rfl (by simp [State.move, unit, Phase.isReleased])
    (Int.le_refl _) (by simp [unit, Phase.isCounted]) (by simp)
    (fun hunset => ⟨hunset, Int.le_refl _⟩) ?_
  intro hunset
  refine ⟨hunset, rfl, Or.inr ?_⟩
  by_cases hlast : s.nRecv + 1 ≥ nCount
  · exact Or.inr (by simp [Phase.isLast, hlast])
  · exact Or.inl (by dsimp only; omega)

theorem Inv.signalDone (h : Inv nWindow nCount s) {k : Nat} {nGot : Int}
    (hk : s.msgs[k]? = some (.counted nGot)) :
    Inv nWindow nCount
      { s.move k .returned with done := if nGot ≥ nCount then true else s.done } := by
  refine h.callback hk rfl rfl rfl (by simp [State.move, unit, Phase.isReleased])
    (Int.le_refl _) (by simp [State.move, unit, Phase.isCounted]) (by simp)
    (fun hunset => ⟨hunset, Int.le_refl _⟩) ?_
  intro hunset
  dsimp only at hunset
  split at hunset
  · cases hunset
  · next hnot => exact ⟨hunset, by simpa [Phase.isLast] using hnot, Or.inl rfl⟩

/-- A step that asks for something keeps the invariant when what it leads to has it. -/
theorem inv_of_guard {guard : Prop} [Decidable guard] {next : State}
    (hnext : guard → Inv nWindow nCount next)
    (hstep : (if guard then some next else none) = some s') : Inv nWindow nCount s' := by
  obtain ⟨hguard, heq⟩ := Option.ite_none_right_eq_some.mp hstep
  cases heq
  exact hnext hguard

/-- **One step**, whoever takes it, keeps the invariant. -/
theorem Inv.step (h : Inv nWindow nCount s) {a : Action} (hstep : step nWindow nCount s a = some s') :
    Inv nWindow nCount s' := by
  cases a with
  | loadInFlight =>
    refine inv_of_guard ?_ hstep
    exact h.loadInFlight
  | drained =>
    refine inv_of_guard ?_ hstep
    intro hpc
    exact h.sender rfl rfl rfl rfl (by rw [hpc.1]; rfl) rfl (fun _ => by rw [hpc.1]; rfl)
      (by simp) (by simp) (by simp)
  | drainTimeout =>
    refine inv_of_guard ?_ hstep
    intro hpc
    exact h.finished hpc.1 (by simp) false s.done
  | increment =>
    refine inv_of_guard ?_ hstep
    exact h.increment
  | post =>
    refine inv_of_guard ?_ hstep
    exact h.post
  | loadRecv =>
    refine inv_of_guard ?_ hstep
    exact h.loadRecv
  | arrived =>
    refine inv_of_guard ?_ hstep
    intro hpc
    exact h.finished hpc.1 (by simp) true false
  | doneTimeout =>
    refine inv_of_guard ?_ hstep
    intro hpc
    exact h.finished hpc.1 (by simp) false s.done
  | deliver k =>
    simp only [LinkCost.step] at hstep
    split at hstep
    · next hk =>
      cases hstep
      exact h.early .entered s.nOpenFail hk rfl rfl
    · cases hstep
  | size k short =>
    simp only [LinkCost.step] at hstep
    split at hstep
    · next hk =>
      cases hstep
      exact h.early .sized _ hk rfl rfl
    · cases hstep
  | release k =>
    simp only [LinkCost.step] at hstep
    split at hstep
    · next hk =>
      cases hstep
      exact h.release hk
    · cases hstep
  | signalDrain k =>
    simp only [LinkCost.step] at hstep
    split at hstep
    · next nLeft hk =>
      cases hstep
      exact h.signalDrain hk
    · cases hstep
  | count k =>
    simp only [LinkCost.step] at hstep
    split at hstep
    · next hk =>
      cases hstep
      exact h.count hk
    · cases hstep
  | signalDone k =>
    simp only [LinkCost.step] at hstep
    split at hstep
    · next nGot hk =>
      cases hstep
      exact h.signalDone hk
    · cases hstep

end preservation

/-! ## Section 4: Every interleaving -/

/-- An increment of `g_nInFlight`. -/
def Action.isIncrement : Action → Bool
  | .increment => true
  | _ => false

/-- A decrement of `g_nInFlight`. -/
def Action.isRelease : Action → Bool
  | .release _ => true
  | _ => false

/-- The sender waits for an event that is not set. -/
def Blocked (s : State) : Prop :=
  (s.pc = .waitDrain ∧ s.drain = false) ∨ (s.pc = .waitDone ∧ s.done = false)

/-- What the window promises in a state that these steps lead to. Where the sender waits
    and nobody is about to wake it, there is a message that has not been delivered, or
    whose callback has not come to its decrement. -/
structure WindowHolds (nWindow : Int) (nCount : Nat) (as : List Action) (s : State) : Prop where
  counter : s.nInFlight = tally Action.isIncrement as - tally Action.isRelease as
  bounds : 0 ≤ s.nInFlight ∧ s.nInFlight ≤ nWindow
  noLostWakeUp : s.pc = .waitDrain → s.drain = false →
    (∀ phase ∈ s.msgs, phase.isSignalling = false) → ∃ phase ∈ s.msgs, phase.isReleased = false
  complete : s.msgs.length = nCount → (∀ phase ∈ s.msgs, phase = .returned) →
    ¬ Blocked s ∧ (s.nRecv ≥ nCount ∨ s.done = true)

section runs
variable {nWindow : Int} {nCount : Nat} {s s' : State}

/-- The counter changes by increments and decrements only. -/
theorem step_nInFlight {a : Action} (hstep : step nWindow nCount s a = some s') :
    s'.nInFlight = s.nInFlight + (unit a.isIncrement - unit a.isRelease) := by
  cases a <;> simp only [step] at hstep <;> split at hstep <;> cases hstep <;>
    simp [unit, Action.isIncrement, Action.isRelease, State.move]
  omega

theorem run_nInFlight {as : List Action} (h : Run (step nWindow nCount) (start nCount) as s) :
    s.nInFlight = tally Action.isIncrement as - tally Action.isRelease as := by
  have hsum := h.ledger (I := fun _ => True) (f := State.nInFlight)
    (g := fun a => unit a.isIncrement - unit a.isRelease) (fun _ _ _ _ _ => trivial)
    (fun _ _ _ _ hs => step_nInFlight hs) trivial
  rw [hsum, sum_map_unit_sub]
  exact Int.zero_add _

theorem Inv.noLostWakeUp (h : Inv nWindow nCount s) (hW : 1 ≤ nWindow) (hpc : s.pc = .waitDrain)
    (hdrain : s.drain = false) (hquiet : ∀ phase ∈ s.msgs, phase.isSignalling = false) :
    ∃ phase ∈ s.msgs, phase.isReleased = false := by
  -- the window is full, so not every message has been taken out of it
  have hfull := h.wake hpc hdrain
  have hcounter := h.counter
  have hzero : unit (Pc.waitDrain == .post) = 0 := rfl
  rw [tally_eq_zero hquiet] at hfull
  rw [hpc, hzero] at hcounter
  apply exists_of_tally_lt
  omega

theorem Inv.complete (h : Inv nWindow nCount s) (hall : s.msgs.length = nCount)
    (hreturned : ∀ phase ∈ s.msgs, phase = .returned) :
    ¬ Blocked s ∧ (s.nRecv ≥ nCount ∨ s.done = true) := by
  have hcounted : tally Phase.isCounted s.msgs = s.msgs.length :=
    tally_eq_length fun phase hmem => by rw [hreturned phase hmem]; rfl
  have hlast : tally (Phase.isLast nCount) s.msgs = 0 :=
    tally_eq_zero fun phase hmem => by rw [hreturned phase hmem]; rfl
  have hrecv := h.recv
  have hposted := h.posted
  rw [hcounted] at hrecv
  refine ⟨?_, Or.inl (by omega)⟩
  intro hblocked
  rcases hblocked with ⟨hpc, -⟩ | ⟨hpc, hdone⟩
  · -- everything is posted, so the sender has left its loop
    have hsending := h.sending (by rw [hpc]; rfl)
    omega
  · have harrive := h.arrive hpc hdone
    omega

/-- **The send window**: for every window, every count and every interleaving, it neither
    overruns nor loses a wake-up. -/
theorem send_window (hW : 1 ≤ nWindow) {as : List Action}
    (hrun : Run (step nWindow nCount) (start nCount) as s) : WindowHolds nWindow nCount as s := by
  have hinv : Inv nWindow nCount s :=
    hrun.inv (fun _ _ _ hI hs => hI.step hs) (inv_start hW)
  have hcounter := hinv.counter
  have hle := tally_le_length Phase.isReleased s.msgs
  have hunit : 0 ≤ unit (s.pc == .post) := by
    unfold unit
    split <;> omega
  exact {
    counter := run_nInFlight hrun
    bounds := ⟨by omega, hinv.cap⟩
    noLostWakeUp := hinv.noLostWakeUp hW
    complete := hinv.complete }

end runs

/-- A sender that waits behind a full window of one message. -/
theorem send_window_full : WindowHolds 1 2 [.loadInFlight, .increment, .post, .loadInFlight]
    { start 2 with nInFlight := 1, pc := .waitDrain, i := 1, msgs := [.posted] } :=
  send_window (by decide) (run_of_exec rfl)

/-- **A delivered message holds its slot until its callback decrements**: the sender waits,
    no `SetEvent` is due, and the only message has been delivered. -/
theorem waits_for_entered_callback :
    ¬ ∀ (nWindow : Int) (nCount : Nat) (as : List Action) (s : State), 1 ≤ nWindow →
      Run (step nWindow nCount) (start nCount) as s → s.pc = .waitDrain → s.drain = false →
      (∀ phase ∈ s.msgs, phase.isSignalling = false) → ∃ phase ∈ s.msgs, phase = .posted := by
  intro hclaim
  have hrun : Run (step 1 2) (start 2) [.loadInFlight, .increment, .post, .loadInFlight, .deliver 0]
      { start 2 with nInFlight := 1, pc := .waitDrain, i := 1, msgs := [.entered] } :=
    run_of_exec rfl
  have hposted := hclaim 1 2 _ _ (by decide) hrun rfl rfl (by decide)
  revert hposted
  decide

end LinkCost
