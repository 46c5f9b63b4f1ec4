import Mathlib.Logic.Function.Basic
import MscsUnitTests.Lib.Bytes
import MscsUnitTests.Lib.Transitions

/-! # The Serial Mesh Harness: The Virtual Null Modem

    `RelayLoop` of `com232_mesh.cpp`: a thread that shuttles bytes between two PTY
    masters. What `poll`, `read` and `write` return is up to the kernel, so each of
    their outcomes is an action, and a run is any sequence of them.

    * `step`: the loop, one system call or one test at a time.
    * `Carries`: what a cable would do.
    * `relay_carries_iff`: the loop does so as long as no `write` fails.
-/

open ByteMem Transitions

namespace NullModem

/-! ## Section 1: State -/

/-- A direction: `fds[0]` is read for the first, `fds[1]` for the second. -/
inductive Dir where
  | aToB
  | bToA
  deriving DecidableEq

/-- Where the loop stands. -/
inductive Pc where
  /-- At the head of the loop: the stop flag, then `poll`. -/
  | poll
  /-- Before the test of `revents`. -/
  | look (d : Dir)
  /-- Before `read`. -/
  | read (d : Dir)
  /-- Before `write`, in the inner loop. -/
  | write (d : Dir)
  | stopped
  deriving DecidableEq

/-- The locals of `RelayLoop`. `got` and `wrote` are history variables: all bytes
    read from the one master, and all written to the other. -/
structure State where
  pc : Pc
  revents : Dir → Bool
  buf : Mem
  n : Nat
  off : Nat
  got : Dir → List UInt8
  wrote : Dir → List UInt8

/-- `sizeof buf`. -/
def sizeofBuf : Nat := 4096

/-- The thread starts with nothing read; what is in the buffer is anything. -/
def start (buf : Mem) : State where
  pc := .poll
  revents _ := false
  buf := buf
  n := 0
  off := 0
  got _ := []
  wrote _ := []

/-! ## Section 2: Steps -/

/-- What happens next. -/
inductive Action where
  /-- The load of `g_relayStop` finds it set. -/
  | stop
  /-- It is not set, and `poll` returns. -/
  | poll (r : Int) (revents : Dir → Bool)
  | look
  /-- `read` returns -1, or the bytes it has put into the buffer. -/
  | read (data : Option (List UInt8))
  /-- `write` returns: -1, or how many bytes it took. -/
  | write (w : Int)

/-- Behind the `if` of a direction. -/
def Dir.next : Dir → Pc
  | .aToB => .look .bToA
  | .bToA => .poll

/-- A chunk is in the buffer. -/
def State.received (s : State) (d : Dir) (data : List UInt8) : State :=
  { s with
    pc := .write d
    buf := copyInto s.buf 0 (ofBytes data) 0 data.length
    n := data.length
    off := 0
    got := Function.update s.got d (s.got d ++ data) }

/-- `write` took `w` bytes of it. -/
def State.advanced (s : State) (d : Dir) (w : Nat) : State :=
  { s with
    pc := if s.off + w < s.n then .write d else d.next
    off := s.off + w
    wrote := Function.update s.wrote d
      (s.wrote d ++ firstBytes (fun i => s.buf (s.off + i)) w) }

/-- What an action does, if it is possible. -/
def step (s : State) : Action → Option State
  | .stop => if s.pc = .poll then some { s with pc := .stopped } else none
  | .poll r revents =>
    if s.pc = .poll then
      if r ≤ 0 then some { s with revents := fun _ => false }
      else some { s with pc := .look .aToB, revents := revents }
    else none
  | .look =>
    match s.pc with
    | .look d => some { s with pc := if s.revents d = true then .read d else d.next }
    | _ => none
  | .read data =>
    match s.pc with
    | .read d =>
      match data with
      | none => some { s with pc := d.next }
      | some data =>
        if sizeofBuf < data.length then none
        else if 0 < data.length then some (s.received d data)
        else some { s with pc := d.next }
    | _ => none
  | .write w =>
    match s.pc with
    | .write d =>
      if (s.n : Int) - s.off < w then none
      -- the rest of the chunk is given up, whatever the reason
      else if w ≤ 0 then some { s with pc := d.next }
      else some (s.advanced d w.toNat)
    | _ => none

/-- A `write` that took nothing. -/
def Action.writeFailed : Action → Bool
  | .write w => w ≤ 0
  | _ => false

/-! ## Section 3: What a step can do -/

/-- What of the chunk in the buffer is still to be written. -/
def State.pending (s : State) (d : Dir) : List UInt8 :=
  if s.pc = .write d then firstBytes (fun i => s.buf (s.off + i)) (s.n - s.off) else []

/-- The loop is not in a `write`. -/
def Pc.Idle (pc : Pc) : Prop :=
  ∀ d, pc ≠ .write d

theorem idle_poll : Pc.poll.Idle := by
  intro d h
  cases h

theorem idle_look (d : Dir) : (Pc.look d).Idle := by
  intro d' h
  cases h

theorem idle_read (d : Dir) : (Pc.read d).Idle := by
  intro d' h
  cases h

theorem idle_stopped : Pc.stopped.Idle := by
  intro d h
  cases h

theorem idle_next (d : Dir) : d.next.Idle := by
  cases d
  · exact idle_look _
  · exact idle_poll

theorem pending_of_idle {s : State} (h : s.pc.Idle) (d : Dir) : s.pending d = [] :=
  if_neg (h d)

/-- **What a step can do**: nothing to the bytes, read a chunk, write a piece of it,
    or give up the rest. -/
theorem step_cases {s s' : State} {a : Action} (h : step s a = some s') :
    (∃ pc revents, s.pc.Idle ∧ pc.Idle ∧ a.writeFailed = false ∧
      s' = { s with pc := pc, revents := revents }) ∨
    (∃ d data, s.pc = .read d ∧ 0 < data.length ∧ a.writeFailed = false ∧
      s' = s.received d data) ∨
    (∃ d w, s.pc = .write d ∧ 0 < w ∧ s.off + w ≤ s.n ∧ a.writeFailed = false ∧
      s' = s.advanced d w) ∨
    (∃ d, s.pc = .write d ∧ a.writeFailed = true ∧ s' = { s with pc := d.next }) := by
  cases a with
  | stop =>
    obtain ⟨hpc, hs'⟩ := Option.ite_none_right_eq_some.mp h
    have hidle : s.pc.Idle := hpc ▸ idle_poll
    exact Or.inl ⟨.stopped, s.revents, hidle, idle_stopped, rfl, (Option.some.inj hs').symm⟩
  | poll r revents =>
    obtain ⟨hpc, hs'⟩ := Option.ite_none_right_eq_some.mp h
    have hidle : s.pc.Idle := hpc ▸ idle_poll
    split at hs'
    · exact Or.inl ⟨s.pc, _, hidle, hidle, rfl, (Option.some.inj hs').symm⟩
    · exact Or.inl ⟨.look .aToB, revents, hidle, idle_look _, rfl, (Option.some.inj hs').symm⟩
  | look =>
    dsimp only [step] at h
    split at h
    · next d hpc =>
      have hidle : s.pc.Idle := hpc ▸ idle_look d
      refine Or.inl ⟨_, s.revents, hidle, ?_, rfl, (Option.some.inj h).symm⟩
      split
      · exact idle_read d
      · exact idle_next d
    · cases h
  | read data =>
    dsimp only [step] at h
    split at h
    · next d hpc =>
      have hidle : s.pc.Idle := hpc ▸ idle_read d
      split at h
      · exact Or.inl ⟨d.next, s.revents, hidle, idle_next d, rfl, (Option.some.inj h).symm⟩
      · next data =>
        obtain ⟨_, h⟩ := Option.ite_none_left_eq_some.mp h
        split at h
        · next hpos => exact Or.inr (Or.inl ⟨d, data, hpc, hpos, rfl, (Option.some.inj h).symm⟩)
        · exact Or.inl ⟨d.next, s.revents, hidle, idle_next d, rfl, (Option.some.inj h).symm⟩
    · cases h
  | write w =>
    dsimp only [step] at h
    split at h
    · next d hpc =>
      obtain ⟨hfit, h⟩ := Option.ite_none_left_eq_some.mp h
      split at h
      · next hfail =>
        exact Or.inr (Or.inr (Or.inr ⟨d, hpc, decide_eq_true hfail, (Option.some.inj h).symm⟩))
      · next hpos =>
        exact Or.inr (Or.inr (Or.inl ⟨d, w.toNat, hpc, by omega, by omega, decide_eq_false hpos,
          (Option.some.inj h).symm⟩))
    · cases h

theorem received_pending_same (s : State) (d : Dir) (data : List UInt8) :
    (s.received d data).pending d = data := by
  have hcopied : firstBytes (fun i => copyInto s.buf 0 (ofBytes data) 0 data.length (0 + i))
      data.length = firstBytes (ofBytes data) data.length := by
    rw [firstBytes_eq_iff]
    intro i hi
    rw [copyInto_inside _ _ _ _ _ _ (by omega) (by omega)]
    congr 1
    omega
  unfold State.pending
  rw [if_pos (show (s.received d data).pc = .write d from rfl)]
  show firstBytes (fun i => copyInto s.buf 0 (ofBytes data) 0 data.length (0 + i))
    (data.length - 0) = data
  rw [Nat.sub_zero, hcopied, firstBytes_ofBytes]

/-- A piece that is written is the first of what was pending. -/
theorem advanced_pending_same {s : State} {d : Dir} {w : Nat} (hpc : s.pc = .write d)
    (hfit : s.off + w ≤ s.n) :
    s.pending d = firstBytes (fun i => s.buf (s.off + i)) w ++ (s.advanced d w).pending d := by
  unfold State.pending
  rw [if_pos hpc, show s.n - s.off = w + (s.n - (s.off + w)) by omega, firstBytes_add]
  congr 1
  by_cases hmore : s.off + w < s.n
  · rw [if_pos (show (s.advanced d w).pc = .write d from if_pos hmore)]
    show firstBytes (fun i => s.buf (s.off + (w + i))) (s.n - (s.off + w))
      = firstBytes (fun i => s.buf (s.off + w + i)) (s.n - (s.off + w))
    simp only [Nat.add_assoc]
  · have hdone : (s.advanced d w).pc = d.next := if_neg hmore
    rw [if_neg (by rw [hdone]; exact idle_next d d), show s.n - (s.off + w) = 0 by omega]
    rfl

/-- The other direction has nothing pending. -/
theorem pending_other {s : State} {d d' : Dir} (hpc : s.pc = .write d ∨ s.pc = d.next)
    (hne : d' ≠ d) : s.pending d' = [] := by
  apply if_neg
  rcases hpc with h | h
  · rw [h]
    exact fun heq => hne (Pc.write.inj heq).symm
  · rw [h]
    exact idle_next d d'

/-! ## Section 4: The invariant -/

/-- The bytes of both directions. -/
def total (f : Dir → List UInt8) : Nat :=
  (f .aToB).length + (f .bToA).length

/-- A list of one direction replaced by a longer one. -/
theorem total_update (f : Dir → List UInt8) (d : Dir) (l : List UInt8) :
    total (Function.update f d (f d ++ l)) = total f + l.length := by
  cases d <;> simp [total, Function.update] <;> omega

/-- What one direction alone has pending. -/
theorem total_single {f : Dir → List UInt8} {d : Dir} (h : ∀ d', d' ≠ d → f d' = []) :
    total f = (f d).length := by
  cases d with
  | aToB => simp [total, h .bToA (by decide)]
  | bToA => simp [total, h .aToB (by decide)]

/-- **Invariant** after the actions `as`: without a failed write, what was read is what
    was written and what is pending; and each failed write has lost a byte at least. -/
structure Inv (as : List Action) (s : State) : Prop where
  off_lt : ∀ d, s.pc = .write d → s.off < s.n
  whole : (∀ a ∈ as, a.writeFailed = false) → ∀ d, s.got d = s.wrote d ++ s.pending d
  lost : total s.wrote + total s.pending + as.countP Action.writeFailed ≤ total s.got

theorem inv_start (buf : Mem) : Inv [] (start buf) where
  off_lt := by
    intro d h
    cases h
  whole := fun _ _ => rfl
  lost := Nat.le_refl 0

section keeps
variable {as : List Action} {s : State} {a : Action}

theorem none_failed_before (hall : ∀ b ∈ as ++ [a], b.writeFailed = false) :
    ∀ b ∈ as, b.writeFailed = false :=
  fun b hb => hall b (List.mem_append_left _ hb)

/-- One action more that is no failed write. -/
theorem countP_succeeded (as : List Action) (ha : a.writeFailed = false) :
    (as ++ [a]).countP Action.writeFailed = as.countP Action.writeFailed := by
  rw [List.countP_append, List.countP_singleton, ha]
  rfl

/-- Nothing is pending, before or after. -/
theorem Inv.idled (hs : Inv as s) {pc : Pc} (revents : Dir → Bool) (hidle : s.pc.Idle)
    (hidle' : pc.Idle) (ha : a.writeFailed = false) :
    Inv (as ++ [a]) { s with pc := pc, revents := revents } := by
  have hnone : State.pending { s with pc := pc, revents := revents } = s.pending := by
    funext d
    rw [pending_of_idle hidle, pending_of_idle (s := { s with pc := pc, revents := revents })
      hidle']
  refine ⟨fun d h => absurd h (hidle' d), fun hall d => ?_, ?_⟩
  · rw [hnone]
    exact hs.whole (none_failed_before hall) d
  · rw [hnone, countP_succeeded as ha]
    exact hs.lost

/-- A chunk is read, and all of it is pending. -/
theorem Inv.received (hs : Inv as s) {d : Dir} {data : List UInt8} (hpc : s.pc = .read d)
    (hpos : 0 < data.length) (ha : a.writeFailed = false) :
    Inv (as ++ [a]) (s.received d data) := by
  have hidle : s.pc.Idle := hpc ▸ idle_read d
  have hother : ∀ d', d' ≠ d → (s.received d data).pending d' = [] :=
    fun d' => pending_other (Or.inl rfl)
  refine ⟨fun d' _ => hpos, fun hall d' => ?_, ?_⟩
  · have hwhole := hs.whole (none_failed_before hall) d'
    rw [pending_of_idle hidle, List.append_nil] at hwhole
    by_cases hd : d' = d
    · subst hd
      rw [received_pending_same]
      show Function.update s.got d' (s.got d' ++ data) d' = s.wrote d' ++ data
      rw [Function.update_self, hwhole]
    · rw [hother d' hd, List.append_nil]
      show Function.update s.got d (s.got d ++ data) d' = s.wrote d'
      rw [Function.update_of_ne hd, hwhole]
  · have hlost := hs.lost
    rw [total_single hother, received_pending_same, countP_succeeded as ha]
    show total s.wrote + data.length + _ ≤ total (Function.update s.got d (s.got d ++ data))
    rw [total_update]
    omega

/-- What an advance leaves pending is of the same direction. -/
theorem advanced_pending_other (s : State) {d d' : Dir} (w : Nat) (hne : d' ≠ d) :
    (s.advanced d w).pending d' = [] := by
  refine pending_other ?_ hne
  by_cases hmore : s.off + w < s.n
  · exact Or.inl (if_pos hmore)
  · exact Or.inr (if_neg hmore)

/-- A piece of the chunk goes from pending to written. -/
theorem Inv.advanced (hs : Inv as s) {d : Dir} {w : Nat} (hpc : s.pc = .write d)
    (hfit : s.off + w ≤ s.n) (ha : a.writeFailed = false) :
    Inv (as ++ [a]) (s.advanced d w) := by
  have hpend := advanced_pending_same hpc hfit
  have hother : ∀ d', d' ≠ d → s.pending d' = [] := fun d' => pending_other (Or.inl hpc)
  have hother' : ∀ d', d' ≠ d → (s.advanced d w).pending d' = [] :=
    fun d' => advanced_pending_other s w
  refine ⟨?_, fun hall d' => ?_, ?_⟩
  · intro d' hwrite
    by_cases hmore : s.off + w < s.n
    · exact hmore
    · have hdone : (s.advanced d w).pc = d.next := if_neg hmore
      rw [hdone] at hwrite
      exact absurd hwrite (idle_next d d')
  · have hwhole := hs.whole (none_failed_before hall) d'
    by_cases hd : d' = d
    · subst hd
      show s.got d' = Function.update s.wrote d'
        (s.wrote d' ++ firstBytes (fun i => s.buf (s.off + i)) w) d' ++ _
      rw [Function.update_self, List.append_assoc, ← hpend, hwhole]
    · rw [hother' d' hd]
      rw [hother d' hd] at hwhole
      show s.got d' = Function.update s.wrote d
        (s.wrote d ++ firstBytes (fun i => s.buf (s.off + i)) w) d' ++ []
      rw [Function.update_of_ne hd, hwhole]
  · have hlen := congrArg List.length hpend
    rw [List.length_append, firstBytes_length] at hlen
    have hlost := hs.lost
    rw [total_single hother, hlen] at hlost
    rw [total_single hother', countP_succeeded as ha]
    show total (Function.update s.wrote d
      (s.wrote d ++ firstBytes (fun i => s.buf (s.off + i)) w)) + _ + _ ≤ total s.got
    rw [total_update, firstBytes_length]
    omega

/-- The rest of the chunk is given up, which is a byte at least. -/
theorem Inv.givenUp (hs : Inv as s) {d : Dir} (hpc : s.pc = .write d)
    (ha : a.writeFailed = true) : Inv (as ++ [a]) { s with pc := d.next } := by
  have hrest : 0 < (s.pending d).length := by
    have hlt := hs.off_lt d hpc
    unfold State.pending
    rw [if_pos hpc, firstBytes_length]
    omega
  have hother : ∀ d', d' ≠ d → s.pending d' = [] := fun d' => pending_other (Or.inl hpc)
  have hnone : ∀ d', State.pending { s with pc := d.next } d' = [] :=
    fun d' => pending_of_idle (s := { s with pc := d.next }) (idle_next d) d'
  refine ⟨fun d' h => absurd h (idle_next d d'), fun hall => ?_, ?_⟩
  · rw [hall a (List.mem_append_right _ (List.mem_singleton_self a))] at ha
    cases ha
  · have hlost := hs.lost
    rw [total_single hother] at hlost
    rw [total_single (d := d) fun d' _ => hnone d', hnone d, List.countP_append,
      List.countP_singleton, ha]
    show total s.wrote + 0 + (_ + 1) ≤ total s.got
    omega

end keeps

/-- **Step lemma**. -/
theorem step_inv {as : List Action} {s s' : State} {a : Action} (hs : Inv as s)
    (h : step s a = some s') : Inv (as ++ [a]) s' := by
  rcases step_cases h with ⟨pc, revents, hidle, hidle', ha, rfl⟩ | ⟨d, data, hpc, hpos, ha, rfl⟩ |
    ⟨d, w, hpc, _, hfit, ha, rfl⟩ | ⟨d, hpc, ha, rfl⟩
  · exact hs.idled revents hidle hidle' ha
  · exact hs.received hpc hpos ha
  · exact hs.advanced hpc hfit ha
  · exact hs.givenUp hpc ha

/-- **Run lemma**. -/
theorem inv_of_run {buf : Mem} {as : List Action} {s : State} (h : Run step (start buf) as s) :
    Inv as s := by
  induction h with
  | nil => exact inv_start buf
  | snoc _ hstep ih => exact step_inv ih hstep

/-! ## Section 5: A cable -/

/-- What a null modem cable does: what comes out is the beginning of what went in, and
    all of it when nothing is under way. -/
structure Carries (s : State) : Prop where
  in_order : ∀ d, s.wrote d <+: s.got d
  all : s.pc = .poll → ∀ d, s.wrote d = s.got d

/-- **The relay is a cable as long as no `write` fails**, at every moment of every run.
    And back at `poll` it is one only if none has failed. -/
theorem relay_carries_iff {buf : Mem} {as : List Action} {s : State}
    (h : Run step (start buf) as s) :
    ((∀ a ∈ as, a.writeFailed = false) → Carries s) ∧
    (s.pc = .poll → (Carries s ↔ ∀ a ∈ as, a.writeFailed = false)) := by
  have hinv := inv_of_run h
  have hforward : (∀ a ∈ as, a.writeFailed = false) → Carries s := by
    intro hall
    refine ⟨fun d => ⟨s.pending d, (hinv.whole hall d).symm⟩, fun hpc d => ?_⟩
    have hwhole := hinv.whole hall d
    rw [pending_of_idle (hpc ▸ idle_poll), List.append_nil] at hwhole
    exact hwhole.symm
  refine ⟨hforward, fun hpc => ⟨fun hcarries => ?_, hforward⟩⟩
  -- what is lost is missing in the totals
  have hequal : total s.wrote = total s.got := by
    unfold total
    rw [hcarries.all hpc .aToB, hcarries.all hpc .bToA]
  have hlost := hinv.lost
  have hnone : as.countP Action.writeFailed = 0 := by omega
  intro a ha
  have hfailed := List.countP_eq_zero.mp hnone a ha
  exact Bool.eq_false_iff.mpr hfailed

/-- One direction has something to read. -/
def only (d : Dir) : Dir → Bool :=
  fun d' => d' == d

/-- A round with both directions active and a short write. -/
def bothWays : List Action :=
  [.poll 2 fun _ => true, .look, .read (some [1, 2, 3]), .write 2, .write 1,
    .look, .read (some [4]), .write 1]

theorem bothWays_carries : ∃ s, Run step (start fun _ => 0) bothWays s ∧ Carries s := by
  have hexec : ∃ s, exec step (start fun _ => 0) bothWays = some s := ⟨_, rfl⟩
  obtain ⟨s, hs⟩ := hexec
  have hall : ∀ a ∈ bothWays, a.writeFailed = false := by
    simp [bothWays, Action.writeFailed]
  exact ⟨s, run_of_exec hs, (relay_carries_iff (run_of_exec hs)).1 hall⟩

/-- A `write` that is interrupted, and later one that is not. -/
def interrupted : List Action :=
  [.poll 1 (only .aToB), .look, .read (some [1, 2]), .write (-1), .look,
    .poll 1 (only .aToB), .look, .read (some [3]), .write 1, .look]

/-- What is written then has a gap. -/
theorem interrupted_write_loses :
    (∃ s, Run step (start fun _ => 0) interrupted s ∧ s.pc = .poll ∧
      s.got .aToB = [1, 2, 3] ∧ s.wrote .aToB = [3]) ∧
    ¬ ∀ as s, Run step (start fun _ => 0) as s → Carries s := by
  have hexec : ∃ s, exec step (start fun _ => 0) interrupted = some s ∧ s.pc = .poll ∧
      s.got .aToB = [1, 2, 3] ∧ s.wrote .aToB = [3] := ⟨_, rfl, rfl, rfl, rfl⟩
  obtain ⟨s, hs, hpc, hgot, hwrote⟩ := hexec
  refine ⟨⟨s, run_of_exec hs, hpc, hgot, hwrote⟩, fun hall => ?_⟩
  have horder := (hall interrupted s (run_of_exec hs)).in_order .aToB
  rw [hgot, hwrote] at horder
  exact absurd horder (by decide)

end NullModem
