import MscsUnitTests.Lib.Monitor

/-! # The Loopback Benchmark: Posting and Waiting

    A phase of `perf_ab.cpp` posts messages with `PostMany` and waits with `WaitCount` until
    the server has delivered them. `NoteDelivered` counts a delivery and notifies the waiter,
    which blocks on a condition variable (`g_blockWait`).

    * `postMany`: how many messages each call hands over.
    * `recvCount_bounds`: the count stays between its two ends, so that it fits a `long`
      when they do.
    * `phase_completes`: every interleaving of the deliveries and the waiter.
    * `answered_iff_under_lock`: the notification has to be under the mutex.
-/

open Monitor Transitions

namespace PerfAb

/-! ## Section 1: Posting -/

/-- The loop of `PostMany` from message `i` on, a turn for a chunk. Every chunk has a
    message, so `fuel` is the number of messages. Where `count` and `g_batch` fit a `long`,
    everything here does: `i` never passes `count`. -/
def postChunks (g_batch : Nat) (count : Int) : Nat → Int → List Nat
  | 0, _ => []
  | fuel + 1, i =>
    if i < count then
      let n := min (g_batch : Int) (count - i)
      n.toNat :: postChunks g_batch count fuel (i + n)
    else []

/-- `PostMany`: how many messages each call of the producer hands over. Without a batch
    size each message is posted on its own. -/
def postMany (g_batch : Nat) (count : Int) : List Nat :=
  if g_batch = 0 then List.replicate count.toNat 1 else postChunks g_batch count count.toNat 0

/-- What is left is posted. -/
theorem postChunks_sum {g_batch : Nat} (hbatch : g_batch ≠ 0) (count : Int) (fuel : Nat) (i : Int)
    (hfuel : (count - i).toNat ≤ fuel) :
    (postChunks g_batch count fuel i).sum = (count - i).toNat := by
  induction fuel generalizing i with
  | zero =>
    unfold postChunks
    rw [List.sum_nil]
    omega
  | succ fuel ih =>
    unfold postChunks
    split
    · next hlt =>
      dsimp only
      rw [List.sum_cons, ih (i + min (g_batch : Int) (count - i)) (by omega)]
      omega
    · rw [List.sum_nil]
      omega

theorem postMany_sum (g_batch : Nat) (count : Int) :
    (postMany g_batch count).sum = count.toNat := by
  unfold postMany
  split
  · simp
  · next hbatch =>
    rw [postChunks_sum hbatch count count.toNat 0 (by omega)]
    omega

/-! ## Section 2: Waiting -/

/-- `NoteDelivered` against `WaitCount(target)`, over `g_recvCount`. A wait that ends with
    its budget is a wake-up that nobody asked for; a budget that is used up is given up on. -/
def waitCount (target : Int) (underLock : Bool) : Protocol Int where
  change g_recvCount := g_recvCount + 1
  ready g_recvCount := decide (target ≤ g_recvCount)
  underLock := underLock

theorem waitCount_iterate (target : Int) (underLock : Bool) (base : Int) (n : Nat) :
    (waitCount target underLock).change^[n] base = base + n := by
  induction n with
  | zero => simp
  | succ n ih =>
    rw [Function.iterate_succ_apply', ih]
    show base + n + 1 = base + (n + 1 : Nat)
    omega

/-- Every message was delivered, every callback has returned, and the waiter knows. -/
structure PhaseDone (base : Int) (count : Nat) (s : State Int) : Prop where
  waiter : s.waiter = .left true
  recvCount : s.data = base + count
  callbacks : s.tellers = List.replicate count .returned

section phase
variable {base count : Int} {s : State Int}

/-- `g_recvCount` stays between the count before the phase and the one it waits for. -/
theorem recvCount_bounds {as : List Action}
    (hrun : Run (step (waitCount (base + count) true)) (start base count.toNat) as s) :
    base ≤ s.data ∧ s.data ≤ base + count.toNat := by
  obtain ⟨hinv, hlength⟩ := run_inv rfl hrun
  have hchanged : s.tellers.countP Teller.hasChanged ≤ s.tellers.length := List.countP_le_length
  rw [hinv.data, waitCount_iterate]
  omega

/-- Notified under the mutex, and with budget left, a waiter that nobody can go on for has
    been answered. -/
theorem done_of_stuck {as : List Action}
    (hrun : Run (step (waitCount (base + count) true)) (start base count.toNat) as s)
    (hgave : .giveUp ∉ as)
    (hstuck : ∀ a : Action, a.isHasty = false →
      step (waitCount (base + count) true) s a = none) : PhaseDone base count.toNat s := by
  have hsettled := settled_of_stuck rfl hrun hstuck
  have hdata := hsettled.data
  rw [waitCount_iterate] at hdata
  refine ⟨?_, hdata, hsettled.tellers⟩
  rcases hsettled.waiter with ⟨b, hb⟩ | ⟨_, hnot⟩
  · cases b with
    | true => exact hb
    | false => exact absurd hb (not_left_false hrun hgave)
  · -- everything has been counted, so the waiter does not sleep
    have hmore : ¬ base + count ≤ s.data := of_decide_eq_false hnot
    omega

/-- **A phase of the benchmark**: for every count, batch size and interleaving, a waiter that
    is about to sleep on a count that has been reached will be notified, it reports the
    count only when it has been reached, the run has a bounded number of steps, and without
    an exhausted budget it ends with every message counted. -/
theorem phase_completes (g_batch : Nat) {as : List Action}
    (hrun : Run (step (waitCount (base + count) true))
      (start base (postMany g_batch count).sum) as s) :
    (s.waiter.waits = true → base + count ≤ s.data → ∃ t ∈ s.tellers, t.due = true) ∧
    (s.waiter = .left true → base + count ≤ s.data) ∧
    as.length ≤ 8 * count.toNat + 3 + 4 * as.count .wake ∧
    (.giveUp ∉ as →
      (∀ a : Action, a.isHasty = false → step (waitCount (base + count) true) s a = none) →
      PhaseDone base count.toNat s) := by
  rw [postMany_sum] at hrun
  obtain ⟨hinv, hlength⟩ := run_inv rfl hrun
  refine ⟨?_, ?_, run_length_le rfl hrun, ?_⟩
  · intro hwaits hreached
    exact hinv.due hwaits (decide_eq_true hreached)
  · intro hleft
    obtain ⟨n, hn, hready⟩ := hinv.left hleft
    have hreached : base + count ≤ base + (n : Int) := by
      rw [waitCount_iterate] at hready
      exact of_decide_eq_true hready
    rw [hinv.data, waitCount_iterate]
    omega
  · exact done_of_stuck hrun

end phase

/-- Two messages in one chunk, delivered while the waiter waits. -/
def twoDeliveries : List Action :=
  [.lock, .look, .change 0, .sleep, .acquire 0, .tell 0, .release 0, .change 1, .lock, .look,
    .acquire 1, .tell 1, .release 1]

theorem phase_completes_two :
    (Waiter.waits (.left true) = true → (5 : Int) + 2 ≤ 7 →
      ∃ t ∈ List.replicate 2 Teller.returned, t.due = true) ∧
    (Waiter.left true = .left true → (5 : Int) + 2 ≤ 7) ∧
    twoDeliveries.length ≤ 8 * (2 : Int).toNat + 3 + 4 * twoDeliveries.count .wake ∧
    (.giveUp ∉ twoDeliveries →
      (∀ a : Action, a.isHasty = false → step (waitCount (5 + 2) true)
        ⟨7, .nobody, .left true, List.replicate 2 .returned⟩ a = none) →
      PhaseDone 5 (2 : Int).toNat ⟨7, .nobody, .left true, List.replicate 2 .returned⟩) :=
  phase_completes 4 (s := ⟨7, .nobody, .left true, List.replicate 2 .returned⟩)
    (run_of_exec rfl)

/-- **The notification has to be under the mutex**: only then is a waiter that waits as long
    as it takes answered in every interleaving. -/
theorem answered_iff_under_lock (base count : Int) (hcount : 1 ≤ count) (underLock : Bool) :
    (∀ (as : List Action) (s : State Int),
      Run (step (waitCount (base + count) underLock)) (start base count.toNat) as s →
      .giveUp ∉ as →
      (∀ a : Action, a.isHasty = false → step (waitCount (base + count) underLock) s a = none) →
      s.waiter = .left true) ↔ underLock = true := by
  constructor
  · intro h
    cases underLock with
    | true => rfl
    | false =>
      obtain ⟨n, hn⟩ : ∃ n : Nat, count = n + 1 := ⟨(count - 1).toNat, by omega⟩
      subst hn
      obtain ⟨as, s, hrun, hgave, hasleep, _, hstuck⟩ :=
        told_outside (P := waitCount (base + (n + 1)) false) (d := base) (n := n) rfl
          (by rw [waitCount_iterate]; exact decide_eq_false (by omega))
          (by rw [waitCount_iterate]; exact decide_eq_true (by omega))
      have hleft := h as s hrun hgave hstuck
      rw [hasleep] at hleft
      cases hleft
  · intro hlock as s hrun hgave hstuck
    subst hlock
    exact (done_of_stuck hrun hgave hstuck).waiter

/-- One message, as in each round of the latency phase, and a notification that takes no lock. -/
theorem answered_iff_under_lock_one :
    (∀ (as : List Action) (s : State Int),
      Run (step (waitCount (0 + 1) false)) (start 0 (1 : Int).toNat) as s → .giveUp ∉ as →
      (∀ a : Action, a.isHasty = false → step (waitCount (0 + 1) false) s a = none) →
      s.waiter = .left true) ↔ false = true :=
  answered_iff_under_lock 0 1 (by decide) false

end PerfAb
