import Mathlib.Logic.Function.Iterate
import MscsUnitTests.Lib.Transitions

/-! # Waiting on a Condition Variable

    Some threads change shared data and tell a waiter of it. The waiter holds a lock while
    it looks at the data, and gives the lock up and falls asleep in one step. Waits time
    out, and wake-ups may be spurious.

    * `step`: every change, every use of the lock and every notification, one by one.
    * `Inv.due`: told under the lock, a waiter is never asleep on data it waits for, but
      for a thread that is about to tell it.
    * `Run.settles`: so a run that cannot go on has answered the waiter.
    * `told_outside`: told outside of the lock, it can be asleep for good.
-/

open Transitions

namespace Monitor

/-! ## Section 1: States and steps -/

/-- Where a thread stands that changes the data. -/
inductive Teller where
  | idle
  | changed
  | locked
  /-- It has told the waiter, and holds the lock still. -/
  | told
  | returned
  deriving DecidableEq

/-- Where the waiter stands. -/
inductive Waiter where
  /-- Before it locks. -/
  | start
  | check
  /-- It has seen that the data is not what it waits for. -/
  | enter
  | asleep
  /-- Awake, and without the lock. -/
  | woken
  | left (reached : Bool)
  deriving DecidableEq

inductive Holder where
  | nobody | waiter
  | teller (k : Nat)
  deriving DecidableEq

structure State (σ : Type) where
  data : σ
  holder : Holder
  waiter : Waiter
  tellers : List Teller

/-- What each thread does to the data, what is waited for, and whether the waiter is told
    under the lock. -/
structure Protocol (σ : Type) where
  change : σ → σ
  ready : σ → Bool
  underLock : Bool

/-- A step of thread `k`, or of the waiter. -/
inductive Action where
  | change (k : Nat)
  | acquire (k : Nat)
  | tell (k : Nat)
  | release (k : Nat)
  | lock
  | look
  | sleep
  /-- A wake-up that nobody asked for, or the end of the time. -/
  | wake
  | giveUp
  deriving DecidableEq

/-- A notification wakes a waiter that is asleep, and is lost on any other. -/
def Waiter.notified : Waiter → Waiter
  | .asleep => .woken
  | w => w

section steps
variable {σ : Type}

def State.move (s : State σ) (k : Nat) (t : Teller) : State σ :=
  { s with tellers := s.tellers.set k t }

@[simp] theorem State.move_holder (s : State σ) (k : Nat) (t : Teller) :
    (s.move k t).holder = s.holder := rfl

@[simp] theorem State.move_waiter (s : State σ) (k : Nat) (t : Teller) :
    (s.move k t).waiter = s.waiter := rfl

def step (P : Protocol σ) (s : State σ) : Action → Option (State σ)
  | .change k =>
    if s.tellers[k]? = some .idle then some { s.move k .changed with data := P.change s.data }
    else none
  | .acquire k =>
    if P.underLock = true ∧ s.tellers[k]? = some .changed ∧ s.holder = .nobody then
      some { s.move k .locked with holder := .teller k }
    else none
  | .tell k =>
    if P.underLock = true then
      if s.tellers[k]? = some .locked then
        some { s.move k .told with waiter := s.waiter.notified }
      else none
    else if s.tellers[k]? = some .changed then
      some { s.move k .returned with waiter := s.waiter.notified }
    else none
  | .release k =>
    if s.tellers[k]? = some .told then some { s.move k .returned with holder := .nobody } else none
  | .lock =>
    if (s.waiter = .start ∨ s.waiter = .woken) ∧ s.holder = .nobody then
      some { s with waiter := .check, holder := .waiter }
    else none
  | .look =>
    if s.waiter = .check then
      if P.ready s.data = true then some { s with waiter := .left true, holder := .nobody }
      else some { s with waiter := .enter }
    else none
  | .sleep =>
    if s.waiter = .enter then some { s with waiter := .asleep, holder := .nobody } else none
  | .wake => if s.waiter = .asleep then some { s with waiter := .woken } else none
  | .giveUp =>
    if s.waiter = .enter then some { s with waiter := .left false, holder := .nobody } else none

/-- `n` threads that have done nothing yet. -/
def start (d : σ) (n : Nat) : State σ := ⟨d, .nobody, .start, List.replicate n .idle⟩

end steps

/-! ## Section 2: The invariant -/

def Teller.holds : Teller → Bool
  | .locked | .told => true
  | _ => false

/-- Has it changed the data, and not told the waiter yet? -/
def Teller.due : Teller → Bool
  | .changed | .locked => true
  | _ => false

def Teller.hasChanged : Teller → Bool
  | .idle => false
  | _ => true

def Waiter.holds : Waiter → Bool
  | .check | .enter => true
  | _ => false

/-- Has it decided to wait? -/
def Waiter.waits : Waiter → Bool
  | .enter | .asleep => true
  | _ => false

structure Inv {σ : Type} (P : Protocol σ) (d : σ) (s : State σ) : Prop where
  /-- The lock is held by who thinks so. -/
  teller : ∀ k t, s.tellers[k]? = some t → (t.holds = true ↔ s.holder = .teller k)
  holder : ∀ k, s.holder = .teller k → k < s.tellers.length
  waiter : s.waiter.holds = true ↔ s.holder = .waiter
  /-- A waiter that has decided to wait will be told of what it waits for. -/
  due : s.waiter.waits = true → P.ready s.data = true → ∃ t ∈ s.tellers, t.due = true
  data : s.data = P.change^[s.tellers.countP Teller.hasChanged] d
  left : s.waiter = .left true → ∃ n ≤ s.tellers.countP Teller.hasChanged,
    P.ready (P.change^[n] d) = true

section preservation
variable {σ : Type} {P : Protocol σ} {d : σ} {s s' : State σ}

theorem inv_start (P : Protocol σ) (d : σ) (n : Nat) : Inv P d (start d n) where
  teller := by
    intro k t h
    rw [List.eq_of_mem_replicate (List.mem_of_getElem? h)]
    simp [Teller.holds, start]
  holder := by simp [start]
  waiter := by simp [Waiter.holds, start]
  due := by simp [Waiter.waits, start]
  data := by
    have hnone : (List.replicate n Teller.idle).countP Teller.hasChanged = 0 := by
      simp [List.countP_replicate, Teller.hasChanged]
    show d = P.change^[(List.replicate n Teller.idle).countP Teller.hasChanged] d
    rw [hnone]
    rfl
  left := by simp [start]

section moved
variable {k : Nat} {old new : Teller}

/-- The lock, when thread `k` goes on. -/
theorem Inv.teller_set (h : Inv P d s) {holder : Holder}
    (hnew : new.holds = true ↔ holder = .teller k)
    (hother : ∀ j, j ≠ k → (holder = .teller j ↔ s.holder = .teller j)) :
    ∀ j t, (s.tellers.set k new)[j]? = some t → (t.holds = true ↔ holder = .teller j) := by
  intro j t hj
  rw [List.getElem?_set] at hj
  by_cases hjk : k = j
  · subst hjk
    rw [if_pos rfl] at hj
    split at hj
    · cases hj
      exact hnew
    · cases hj
  · rw [if_neg hjk] at hj
    rw [hother j (Ne.symm hjk)]
    exact h.teller j t hj

theorem exists_due_set (hk : s.tellers[k]? = some old)
    (h : new.due = true ∨ old.due = false ∧ ∃ t ∈ s.tellers, t.due = true) :
    ∃ t ∈ s.tellers.set k new, t.due = true := by
  obtain ⟨hlt, hold⟩ := List.getElem?_eq_some_iff.mp hk
  rcases h with hnew | ⟨hdone, t, hmem, hdue⟩
  · exact ⟨new, List.mem_set hlt new, hnew⟩
  · obtain ⟨j, hj⟩ := List.mem_iff_getElem?.mp hmem
    have hjk : k ≠ j := by
      intro hjk
      rw [← hjk, hk] at hj
      cases hj
      rw [hdone] at hdue
      cases hdue
    refine ⟨t, List.mem_iff_getElem?.mpr ⟨j, ?_⟩, hdue⟩
    rw [List.getElem?_set_ne hjk, hj]

theorem countP_set_of_eq (hk : s.tellers[k]? = some old)
    (h : new.hasChanged = old.hasChanged) :
    (s.tellers.set k new).countP Teller.hasChanged = s.tellers.countP Teller.hasChanged := by
  have htally := tally_set Teller.hasChanged new hk
  rw [h] at htally
  unfold tally at htally
  omega

/-- A thread that has changed the data takes a step: what it does to the lock and to the
    waiter is told. -/
theorem Inv.moved (h : Inv P d s) (hk : s.tellers[k]? = some old) {holder : Holder}
    {waiter : Waiter} (hchanged : new.hasChanged = old.hasChanged)
    (hnew : new.holds = true ↔ holder = .teller k)
    (hother : ∀ j, j ≠ k → (holder = .teller j ↔ s.holder = .teller j))
    (hwaiter : waiter.holds = true ↔ holder = .waiter)
    (hwaits : waiter.waits = true → s.waiter.waits = true ∧ (new.due = true ∨ old.due = false))
    (hleft : waiter = .left true → s.waiter = .left true) :
    Inv P d { s.move k new with holder := holder, waiter := waiter } where
  teller := h.teller_set hnew hother
  holder := by
    intro j hj
    show j < (s.tellers.set k new).length
    rw [List.length_set]
    by_cases hjk : j = k
    · rw [hjk]
      exact (List.getElem?_eq_some_iff.mp hk).1
    · exact h.holder j ((hother j hjk).mp hj)
  waiter := hwaiter
  due := by
    intro hwait hready
    obtain ⟨hwaited, hdue⟩ := hwaits hwait
    refine exists_due_set hk ?_
    rcases hdue with hdue | hdone
    · exact Or.inl hdue
    · exact Or.inr ⟨hdone, h.due hwaited hready⟩
  data := by
    show s.data = P.change^[(s.tellers.set k new).countP Teller.hasChanged] d
    rw [countP_set_of_eq hk hchanged]
    exact h.data
  left := by
    show waiter = .left true → ∃ n ≤ (s.tellers.set k new).countP Teller.hasChanged, _
    rw [countP_set_of_eq hk hchanged]
    exact fun hl => h.left (hleft hl)

theorem Inv.change (h : Inv P d s) (hk : s.tellers[k]? = some .idle) :
    Inv P d { s.move k .changed with data := P.change s.data } := by
  have hcount : (s.tellers.set k .changed).countP Teller.hasChanged =
      s.tellers.countP Teller.hasChanged + 1 := by
    have htally := tally_set Teller.hasChanged .changed hk
    simp only [tally, Teller.hasChanged, unit] at htally
    simp at htally
    omega
  have hold := h.teller k _ hk
  exact {
    teller := h.teller_set (by simpa [Teller.holds, State.move] using hold) fun _ _ => Iff.rfl
    holder := by
      intro j hj
      show j < (s.tellers.set k .changed).length
      rw [List.length_set]
      exact h.holder j hj
    waiter := h.waiter
    due := fun _ _ => exists_due_set hk (Or.inl rfl)
    data := by
      show P.change s.data = P.change^[(s.tellers.set k .changed).countP Teller.hasChanged] d
      rw [hcount, Function.iterate_succ_apply', ← h.data]
    left := by
      intro hl
      obtain ⟨n, hn, hready⟩ := h.left hl
      refine ⟨n, ?_, hready⟩
      show n ≤ (s.tellers.set k .changed).countP Teller.hasChanged
      omega }

end moved

/-- A step of the waiter, that touches neither the data nor a thread. -/
theorem Inv.waited (h : Inv P d s) {holder : Holder} {waiter : Waiter}
    (hfree : ∀ k, holder = .teller k ↔ s.holder = .teller k)
    (hwaiter : waiter.holds = true ↔ holder = .waiter)
    (hwaits : waiter.waits = true → s.waiter.waits = true ∨ P.ready s.data = false)
    (hleft : waiter = .left true → P.ready s.data = true) :
    Inv P d { s with holder := holder, waiter := waiter } where
  teller := by
    intro k t hk
    rw [hfree k]
    exact h.teller k t hk
  holder := by
    intro k hk
    exact h.holder k ((hfree k).mp hk)
  waiter := hwaiter
  due := by
    intro hwait hready
    rcases hwaits hwait with hwaited | hnot
    · exact h.due hwaited hready
    · rw [hnot] at hready
      cases hready
  data := h.data
  left := by
    intro hl
    have hready := hleft hl
    rw [h.data] at hready
    exact ⟨_, Nat.le_refl _, hready⟩

theorem Waiter.notified_holds (w : Waiter) : w.notified.holds = w.holds := by
  cases w <;> rfl

/-- A notification is lost on a waiter that is about to sleep. -/
theorem Waiter.notified_waits {w : Waiter} (h : w.notified.waits = true) : w = .enter := by
  cases w <;> first | rfl | cases h

theorem Waiter.notified_left {w : Waiter} (h : w.notified = .left true) : w = .left true := by
  cases w <;> first | exact h | cases h

/-- Whatever holds of the state that a guarded step leads to, holds behind the step. -/
theorem holds_of_guard {Q : State σ → Prop} {guard : Prop} [Decidable guard] {next : State σ}
    (hnext : guard → Q next) (hstep : (if guard then some next else none) = some s') : Q s' := by
  obtain ⟨hguard, heq⟩ := Option.ite_none_right_eq_some.mp hstep
  cases heq
  exact hnext hguard

/-- **One step**, told under the lock, keeps the invariant. -/
theorem Inv.step (hlock : P.underLock = true) (h : Inv P d s) {a : Action}
    (hstep : step P s a = some s') : Inv P d s' := by
  cases a with
  | change k => exact holds_of_guard (fun hk => h.change hk) hstep
  | acquire k =>
    refine holds_of_guard ?_ hstep
    intro ⟨_, hk, hfree⟩
    refine h.moved hk rfl (by simp [Teller.holds]) ?_ ?_ (fun hw => ⟨hw, Or.inl rfl⟩) id
    · intro j hj
      rw [hfree]
      simpa using Ne.symm hj
    · -- the waiter did not have the lock
      have hno := h.waiter
      rw [hfree] at hno
      simpa using hno
  | tell k =>
    unfold Monitor.step at hstep
    dsimp only at hstep
    rw [if_pos hlock] at hstep
    refine holds_of_guard ?_ hstep
    intro hk
    have hheld := (h.teller k _ hk).mp rfl
    have hno : s.waiter.holds = false := by
      have hwaiter := h.waiter
      rw [hheld] at hwaiter
      simpa using hwaiter
    refine h.moved hk rfl (by simp [Teller.holds, hheld]) (fun _ _ => Iff.rfl) ?_ ?_
      Waiter.notified_left
    · rw [Waiter.notified_holds]
      exact h.waiter
    · -- a waiter that is about to sleep has the lock
      intro hwaits
      rw [Waiter.notified_waits hwaits] at hno
      cases hno
  | release k =>
    refine holds_of_guard ?_ hstep
    intro hk
    have hheld := (h.teller k _ hk).mp rfl
    refine h.moved hk rfl (by simp [Teller.holds]) ?_ ?_ (fun hw => ⟨hw, Or.inr rfl⟩) id
    · intro j hj
      rw [hheld]
      simpa using Ne.symm hj
    · have hno := h.waiter
      rw [hheld] at hno
      simpa using hno
  | lock =>
    refine holds_of_guard ?_ hstep
    intro ⟨_, hfree⟩
    refine h.waited ?_ (by simp [Waiter.holds]) (by simp [Waiter.waits]) (by simp)
    intro k
    rw [hfree]
    simp
  | look =>
    simp only [Monitor.step] at hstep
    split at hstep
    · next hw =>
      have hheld : s.holder = .waiter := h.waiter.mp (by rw [hw]; rfl)
      split at hstep
      · next hready =>
        cases hstep
        refine h.waited ?_ (by simp [Waiter.holds]) (by simp [Waiter.waits]) (fun _ => hready)
        intro k
        rw [hheld]
        simp
      · next hnot =>
        cases hstep
        refine h.waited (fun _ => Iff.rfl) (by simp [Waiter.holds, hheld]) ?_ (by simp)
        exact fun _ => Or.inr (by simpa using hnot)
    · cases hstep
  | sleep =>
    refine holds_of_guard ?_ hstep
    intro hw
    have hheld : s.holder = .waiter := h.waiter.mp (by rw [hw]; rfl)
    refine h.waited ?_ (by simp [Waiter.holds]) (fun _ => Or.inl (by rw [hw]; rfl)) (by simp)
    intro k
    rw [hheld]
    simp
  | wake =>
    refine holds_of_guard ?_ hstep
    intro hw
    refine h.waited (fun _ => Iff.rfl) ?_ (by simp [Waiter.waits]) (by simp)
    have hno := h.waiter
    rw [hw] at hno
    simpa [Waiter.holds] using hno
  | giveUp =>
    refine holds_of_guard ?_ hstep
    intro hw
    have hheld : s.holder = .waiter := h.waiter.mp (by rw [hw]; rfl)
    refine h.waited ?_ (by simp [Waiter.holds]) (by simp [Waiter.waits]) (by simp)
    intro k
    rw [hheld]
    simp

end preservation

/-! ## Section 3: How a run ends -/

/-- What is left to do for a thread. A notification can send the waiter round once more. -/
def Teller.work : Teller → Nat
  | .idle => 8
  | .changed => 7
  | .locked => 6
  | .told => 1
  | .returned => 0

def Waiter.work : Waiter → Nat
  | .start | .woken => 3
  | .check => 2
  | .enter => 1
  | .asleep | .left _ => 0

def work {σ : Type} (s : State σ) : Nat := s.waiter.work + (s.tellers.map Teller.work).sum

/-- Only a wake-up that nobody asked for makes more of it. -/
def Action.cost : Action → Nat
  | .wake => 4
  | _ => 0

/-- The actions of a waiter that does not wait to be told. -/
def Action.isHasty : Action → Bool
  | .wake | .giveUp => true
  | _ => false

/-- Every thread has returned, and the waiter has been answered, or waits for what is not. -/
structure Settled {σ : Type} (P : Protocol σ) (d : σ) (n : Nat) (s : State σ) : Prop where
  tellers : s.tellers = List.replicate n .returned
  data : s.data = P.change^[n] d
  waiter : (∃ b, s.waiter = .left b) ∨ s.waiter = .asleep ∧ P.ready s.data = false

section ends
variable {σ : Type} {P : Protocol σ} {d : σ} {n : Nat} {s s' : State σ}

theorem Waiter.notified_work (w : Waiter) : w.notified.work ≤ w.work + 3 := by
  cases w <;> simp [Waiter.notified, Waiter.work]

/-- A thread that goes on has less to do, by more than the waiter has more. -/
theorem work_moved {k : Nat} {old new : Teller} (hk : s.tellers[k]? = some old)
    {holder : Holder} {waiter : Waiter} {data : σ}
    (hless : waiter.work + new.work + 1 ≤ s.waiter.work + old.work) :
    work (⟨data, holder, waiter, s.tellers.set k new⟩ : State σ) + 1 ≤ work s := by
  have hsum := sum_map_set Teller.work new hk
  unfold work
  dsimp only
  omega

theorem work_step {a : Action} (hstep : step P s a = some s') : work s' + 1 ≤ work s + a.cost := by
  -- every step of a thread, and every step of the waiter but one, lowers it
  let Q : State σ → Prop := fun s' => work s' + 1 ≤ work s
  cases a with
  | change k => exact holds_of_guard (Q := Q) (fun hk => work_moved hk (Nat.le_refl _)) hstep
  | acquire k => exact holds_of_guard (Q := Q) (fun hk => work_moved hk.2.1 (Nat.le_refl _)) hstep
  | tell k =>
    have hnotified := s.waiter.notified_work
    simp only [Monitor.step] at hstep
    split at hstep
    · refine holds_of_guard (Q := Q) (fun hk => work_moved hk ?_) hstep
      simp only [Teller.work]
      omega
    · refine holds_of_guard (Q := Q) (fun hk => work_moved hk ?_) hstep
      simp only [Teller.work]
      omega
  | release k => exact holds_of_guard (Q := Q) (fun hk => work_moved hk (Nat.le_refl _)) hstep
  | lock =>
    refine holds_of_guard (Q := Q) ?_ hstep
    intro ⟨hw, _⟩
    rcases hw with hw | hw <;> simp only [Q, work, hw, Waiter.work] <;> omega
  | look =>
    simp only [Monitor.step] at hstep
    split at hstep
    · next hw =>
      split at hstep <;> cases hstep <;> simp only [work, hw, Waiter.work, Action.cost] <;> omega
    · cases hstep
  | sleep =>
    refine holds_of_guard (Q := Q) ?_ hstep
    intro hw
    simp only [Q, work, hw, Waiter.work]
    omega
  | wake =>
    refine holds_of_guard (Q := fun s' => work s' + 1 ≤ work s + 4) ?_ hstep
    intro hw
    simp [work, hw, Waiter.work]
    omega
  | giveUp =>
    refine holds_of_guard (Q := Q) ?_ hstep
    intro hw
    simp only [Q, work, hw, Waiter.work]
    omega

theorem step_length {a : Action} (hstep : step P s a = some s') :
    s'.tellers.length = s.tellers.length := by
  cases a <;> simp only [Monitor.step] at hstep <;> (try split at hstep) <;>
    (try split at hstep) <;> cases hstep <;> simp [State.move]

/-- What each step of a thread keeps, a run keeps. -/
theorem run_inv (hlock : P.underLock = true) {as : List Action}
    (hrun : Run (step P) (start d n) as s) : Inv P d s ∧ s.tellers.length = n := by
  refine hrun.inv (I := fun s => Inv P d s ∧ s.tellers.length = n) ?_ ⟨inv_start P d n, ?_⟩
  · intro s a s' hI hstep
    exact ⟨hI.1.step hlock hstep, (step_length hstep).trans hI.2⟩
  · exact List.length_replicate

/-- **Bounded**: a run takes no more steps than these. -/
theorem run_length_le (hlock : P.underLock = true) {as : List Action}
    (hrun : Run (step P) (start d n) as s) : as.length ≤ 8 * n + 3 + 4 * as.count .wake := by
  have hbound := hrun.length_le_add (f := work) (g := Action.cost)
    (fun _ _ _ hI hs => Inv.step hlock hI hs) (fun _ _ _ _ hs => work_step hs) (inv_start P d n)
  have hstart : work (start d n) = 8 * n + 3 := by
    simp [work, start, Waiter.work, Teller.work]
    omega
  have hcost : (as.map Action.cost).sum = 4 * as.count .wake := by
    clear hrun hbound
    induction as with
    | nil => rfl
    | cons a as ih =>
      rw [List.map_cons, List.sum_cons, ih, List.count_cons]
      cases a <;> simp [Action.cost]
      omega
  omega

/-- Where nothing can go on but a hasty waiter, nobody has the lock. -/
theorem free_of_stuck (hinv : Inv P d s)
    (hlock : P.underLock = true) (hstuck : ∀ a : Action, a.isHasty = false → step P s a = none) :
    s.holder = .nobody := by
  cases hholder : s.holder with
  | nobody => rfl
  | waiter =>
    have hheld := hinv.waiter.mpr hholder
    have hlook := hstuck .look rfl
    have hsleep := hstuck .sleep rfl
    -- it looks, or it falls asleep
    cases hw : s.waiter with
    | check => cases hready : P.ready s.data <;> simp [step, hw, hready] at hlook
    | enter => simp [step, hw] at hsleep
    | start => simp [hw, Waiter.holds] at hheld
    | asleep => simp [hw, Waiter.holds] at hheld
    | woken => simp [hw, Waiter.holds] at hheld
    | left b => simp [hw, Waiter.holds] at hheld
  | teller k =>
    obtain ⟨t, ht⟩ : ∃ t, s.tellers[k]? = some t :=
      ⟨_, List.getElem?_eq_getElem (hinv.holder k hholder)⟩
    have hheld := (hinv.teller k t ht).mpr hholder
    cases t with
    | locked => exact absurd (hstuck (.tell k) rfl) (by simp [step, hlock, ht])
    | told => exact absurd (hstuck (.release k) rfl) (by simp [step, ht])
    | idle => cases hheld
    | changed => cases hheld
    | returned => cases hheld

/-- **Settled**: a run, told under the lock, that only a hasty waiter could go on with has
    answered the waiter, unless what it waits for has not come. -/
theorem settled_of_stuck (hlock : P.underLock = true) {as : List Action}
    (hrun : Run (step P) (start d n) as s)
    (hstuck : ∀ a : Action, a.isHasty = false → step P s a = none) : Settled P d n s := by
  obtain ⟨hinv, hlength⟩ := run_inv hlock hrun
  have hfree := free_of_stuck hinv hlock hstuck
  have hreturned : ∀ t ∈ s.tellers, t = .returned := by
    intro t hmem
    obtain ⟨k, hk⟩ := List.mem_iff_getElem?.mp hmem
    have hheld := hinv.teller k t hk
    rw [hfree] at hheld
    cases t with
    | idle => exact absurd (hstuck (.change k) rfl) (by simp [step, hk])
    | changed => exact absurd (hstuck (.acquire k) rfl) (by simp [step, hlock, hk, hfree])
    | locked => simp [Teller.holds] at hheld
    | told => simp [Teller.holds] at hheld
    | returned => rfl
  have htellers := List.eq_replicate_iff.mpr ⟨hlength, hreturned⟩
  have hdata := hinv.data
  rw [htellers, List.countP_replicate] at hdata
  refine ⟨htellers, by simpa [Teller.hasChanged] using hdata, ?_⟩
  have hheld := hinv.waiter
  rw [hfree] at hheld
  cases hw : s.waiter with
  | start => exact absurd (hstuck .lock rfl) (by simp [step, hw, hfree])
  | woken => exact absurd (hstuck .lock rfl) (by simp [step, hw, hfree])
  | check => simp [hw, Waiter.holds] at hheld
  | enter => simp [hw, Waiter.holds] at hheld
  | left b => exact Or.inl ⟨b, rfl⟩
  | asleep =>
    refine Or.inr ⟨rfl, ?_⟩
    by_contra hready
    -- a waiter that is asleep on what it waits for will be told, but nobody is left
    obtain ⟨t, hmem, hdue⟩ := hinv.due (by rw [hw]; rfl) (by simpa using hready)
    rw [hreturned t hmem] at hdue
    cases hdue

/-- Only a waiter that gives up leaves without an answer. -/
theorem not_left_false {as : List Action} (hrun : Run (step P) (start d n) as s)
    (hgave : .giveUp ∉ as) : s.waiter ≠ .left false := by
  refine hrun.inv_on (A := fun a => a ≠ .giveUp) (I := fun s => s.waiter ≠ .left false) ?_ ?_ ?_
  · intro s a s' ha hs hstep
    have hnotified : s.waiter.notified ≠ .left false := by
      intro h
      cases hw : s.waiter <;> rw [hw] at h hs <;> first | exact hs h | cases h
    cases a <;> simp only [Monitor.step] at hstep <;> (try split at hstep) <;>
      (try split at hstep) <;> cases hstep <;> first
      | exact hs
      | exact hnotified
      | exact absurd rfl ha
      | simp
  · intro a ha h
    rw [h] at ha
    exact hgave ha
  · simp [start]

end ends

section outside
variable {σ : Type} {P : Protocol σ} {d : σ}

/-- The first `j` threads have changed the data and told nobody. -/
def toldNobody (P : Protocol σ) (d : σ) (j m : Nat) : State σ :=
  ⟨P.change^[j] d, .nobody, .start, List.replicate j .returned ++ List.replicate m .idle⟩

theorem run_toldNobody (hlock : P.underLock = false) (j m : Nat) :
    ∃ as, Run (step P) (start d (j + m)) as (toldNobody P d j m) ∧ .giveUp ∉ as := by
  induction j generalizing m with
  | zero =>
    refine ⟨[], ?_, by simp⟩
    rw [Nat.zero_add]
    exact .nil
  | succ j ih =>
    obtain ⟨as, hrun, hgave⟩ := ih (m + 1)
    have hset : ∀ t new : Teller,
        (List.replicate j Teller.returned ++ t :: List.replicate m .idle).set j new =
          List.replicate j .returned ++ new :: List.replicate m .idle := by
      intro t new
      simp
    have hlast : List.replicate (j + 1) Teller.returned ++ List.replicate m .idle =
        List.replicate j .returned ++ .returned :: List.replicate m .idle := by
      rw [List.replicate_succ', List.append_assoc]
      rfl
    have hstep : exec (step P) (toldNobody P d j (m + 1)) [.change j, .tell j] =
        some (toldNobody P d (j + 1) m) := by
      unfold toldNobody
      rw [hlast, Function.iterate_succ_apply']
      simp [exec, step, State.move, hlock, List.replicate_succ, hset, Waiter.notified]
    refine ⟨as ++ [.change j, .tell j], ?_, by simp [hgave]⟩
    rw [Nat.add_right_comm]
    exact hrun.trans (run_of_exec hstep)

/-- **Told outside of the lock**, the last notification can come between the waiter's look
    and its sleep: what it waits for is there, every thread has returned, and it is asleep. -/
theorem told_outside {n : Nat} (hlock : P.underLock = false)
    (hbefore : P.ready (P.change^[n] d) = false) (hafter : P.ready (P.change^[n + 1] d) = true) :
    ∃ as s, Run (step P) (start d (n + 1)) as s ∧ .giveUp ∉ as ∧ s.waiter = .asleep ∧
      P.ready s.data = true ∧ ∀ a : Action, a.isHasty = false → step P s a = none := by
  obtain ⟨as, hrun, hgave⟩ := run_toldNobody (d := d) hlock n 1
  have hlost : exec (step P) (toldNobody P d n 1) [.lock, .look, .change n, .tell n, .sleep] =
      some ⟨P.change^[n + 1] d, .nobody, .asleep, List.replicate (n + 1) .returned⟩ := by
    rw [Function.iterate_succ_apply', List.replicate_succ']
    simp [exec, step, toldNobody, State.move, hlock, hbefore, Waiter.notified]
  refine ⟨_, _, hrun.trans (run_of_exec hlost), by simp [hgave], rfl, hafter, ?_⟩
  have hreturned : ∀ (k : Nat) (t : Teller), t ≠ .returned →
      (List.replicate (n + 1) Teller.returned)[k]? ≠ some t := by
    intro k t ht hk
    exact ht (List.eq_of_mem_replicate (List.mem_of_getElem? hk))
  intro a ha
  cases a with
  | wake => cases ha
  | giveUp => cases ha
  | change k => exact if_neg (hreturned k .idle (by simp))
  | acquire k => exact if_neg fun h => hreturned k .changed (by simp) h.2.1
  | tell k =>
    simp only [step, hlock]
    exact if_neg (hreturned k .changed (by simp))
  | release k => exact if_neg (hreturned k .told (by simp))
  | lock => simp [step]
  | look => simp [step]
  | sleep => simp [step]

end outside

end Monitor
