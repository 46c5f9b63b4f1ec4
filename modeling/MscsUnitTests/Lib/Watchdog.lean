import MscsUnitTests.Lib.Transitions

/-! # A Watchdog over a Counter

    A worker takes up one input after the other. It writes each on a cursor and then, as a
    rule, raises a counter. A watchdog samples the counter; when it has seen no change a number of times
    in a row, it dumps the cursor and ends the process.

    * `step`: the worker and the watchdog, in any order.
    * `Silent`: the last samples found no change.
    * `fired_iff`: the watchdog ends the process exactly after that many such samples.
    * `stuck_reported`: a worker that does not come back is reported, with its input.
-/

open Transitions

namespace Watchdog

variable {ι : Type} {w : Nat}

/-! ## Section 1: States and steps -/

/-- What is on the cursor: an input that has been counted, or one that has not and may be
    half written. -/
inductive Cursor (ι : Type) where
  | unset
  | writing (i : ι)
  | on (i : ι)
  deriving DecidableEq

structure State (ι : Type) (w : Nat) where
  cursor : Cursor ι
  progress : BitVec w
  /-- What the watchdog saw last, and how often since. -/
  last : BitVec w
  idle : Nat
  /-- What was dumped, and the process ended. -/
  fired : Option (Cursor ι)

inductive Action (ι : Type) where
  | write (i : ι)
  | bump
  | sample
  deriving DecidableEq

def Action.isSample : Action ι → Bool
  | .sample => true
  | _ => false

def Action.isBump : Action ι → Bool
  | .bump => true
  | _ => false

/-- One step; `limit` samples without a change are too many. -/
def step (limit : Nat) (s : State ι w) (a : Action ι) : Option (State ι w) :=
  if s.fired.isSome then none
  else
    match a with
    | .write i => some { s with cursor := .writing i }
    | .bump =>
      match s.cursor with
      | .writing i => some { s with cursor := .on i, progress := s.progress + 1 }
      | _ => none
    | .sample =>
      if s.progress ≠ s.last then some { s with last := s.progress, idle := 0 }
      else
        some { s with
          idle := s.idle + 1
          fired := if limit ≤ s.idle + 1 then some s.cursor else none }

/-- The watchdog starts and expects `last`; the worker may have begun before. -/
def start (cursor : Cursor ι) (progress last : BitVec w) : State ι w :=
  ⟨cursor, progress, last, 0, none⟩

def bumps (as : List (Action ι)) : Nat := as.countP Action.isBump

/-- The actions end with that many samples in a row that found no change: from one to the
    next the counter was raised a multiple of `2 ^ w` times. Up to the first sample it has
    to be raised to what is expected then, by `lead`. -/
inductive Silent (lead : BitVec w) : Nat → List (Action ι) → Prop where
  | begin : Silent lead 0 []
  | sampled (as : List (Action ι)) : Silent lead 0 (as ++ [.sample])
  | more {k : Nat} {as gap : List (Action ι)} (h : Silent lead k as)
    (hgap : ∀ a ∈ gap, a.isSample = false)
    (hbumps : BitVec.ofNat w (bumps gap) = if as = [] then lead else 0) :
    Silent lead (k + 1) (as ++ gap ++ [.sample])

/-! ## Section 2: Single steps -/

section steps
variable {limit : Nat} {s s' : State ι w}

/-- What the worker does leaves the watchdog as it is. -/
theorem step_worker {a : Action ι} (ha : a.isSample = false) (h : step limit s a = some s') :
    s'.last = s.last ∧ s'.idle = s.idle ∧ s.fired = none ∧ s'.fired = none ∧
      s'.progress = s.progress + BitVec.ofNat w (bumps [a]) := by
  unfold step at h
  split at h
  · cases h
  · next hfired =>
    have hnone : s.fired = none := by simpa using hfired
    cases a with
    | sample => cases ha
    | write i =>
      cases h
      simp [hnone, bumps, Action.isBump]
    | bump =>
      dsimp only at h
      split at h
      · cases h
        simp [hnone, bumps, Action.isBump]
      · cases h

/-- A sample. -/
theorem step_sample (h : step limit s .sample = some s') :
    s.fired = none ∧ s'.progress = s.progress ∧ s'.cursor = s.cursor ∧ s'.last = s.progress ∧
      ((s.progress ≠ s.last ∧ s'.idle = 0 ∧ s'.fired = none) ∨
        (s.progress = s.last ∧ s'.idle = s.idle + 1 ∧
          s'.fired = if limit ≤ s.idle + 1 then some s.cursor else none)) := by
  unfold step at h
  split at h
  · cases h
  · next hfired =>
    have hnone : s.fired = none := by simpa using hfired
    dsimp only at h
    split at h
    · next hne =>
      cases h
      exact ⟨hnone, rfl, rfl, rfl, Or.inl ⟨hne, rfl, hnone⟩⟩
    · next heq =>
      cases h
      rw [ne_eq, not_not] at heq
      exact ⟨hnone, rfl, rfl, heq.symm, Or.inr ⟨heq, rfl, rfl⟩⟩

end steps

/-! ## Section 3: Exactly when it fires -/

/-- What the watchdog remembers, by what has happened. -/
structure Trace (limit : Nat) (lead : BitVec w) (as : List (Action ι)) (s : State ι w) : Prop where
  fired : s.fired.isSome = true ↔ limit ≤ s.idle
  bound : s.idle ≤ limit
  dumped : ∀ c, s.fired = some c → c = s.cursor
  silent : ∃ front gap, as = front ++ gap ∧ (∀ a ∈ gap, a.isSample = false) ∧
    Silent lead s.idle front ∧ (s.fired.isSome = true → gap = []) ∧
    s.progress + (if front = [] then lead else 0) = s.last + BitVec.ofNat w (bumps gap)

section runs
variable {limit : Nat} {cursor : Cursor ι} {progress last : BitVec w} {as : List (Action ι)} {s s' : State ι w}

theorem bumps_append (as bs : List (Action ι)) : bumps (as ++ bs) = bumps as + bumps bs :=
  List.countP_append

theorem Trace.step {lead : BitVec w} (hlimit : 1 ≤ limit) (h : Trace limit lead as s)
    {a : Action ι} (hstep : Watchdog.step limit s a = some s') :
    Trace limit lead (as ++ [a]) s' := by
  obtain ⟨front, gap, hsplit, hgap, hsilent, _, hprogress⟩ := h.silent
  by_cases ha : a.isSample = false
  · obtain ⟨hlast, hidle, hnone, hnone', hraised⟩ := step_worker ha hstep
    refine ⟨?_, hidle ▸ h.bound, by simp [hnone'], ?_⟩
    · have hfired := h.fired
      rwa [hnone, ← hnone', ← hidle] at hfired
    · refine ⟨front, gap ++ [a], by rw [hsplit, List.append_assoc], ?_, hidle ▸ hsilent,
        by simp [hnone'], ?_⟩
      · intro b hb
        rcases List.mem_append.mp hb with hold | hnew
        · exact hgap b hold
        · exact (List.mem_singleton.mp hnew) ▸ ha
      · rw [bumps_append, BitVec.ofNat_add, hlast, hraised, ← BitVec.add_assoc, ← hprogress,
          BitVec.add_assoc, BitVec.add_assoc, BitVec.add_comm (BitVec.ofNat w _)]
  · have hsample : a = .sample := by
      cases a with
      | sample => rfl
      | write i => exact absurd rfl ha
      | bump => exact absurd rfl ha
    subst hsample
    obtain ⟨hquiet, hsame, hcursor, hlast, hseen⟩ := step_sample hstep
    have hafter : s'.progress + (if as ++ [Action.sample] = [] then lead else 0) =
        s'.last + BitVec.ofNat w (bumps ([] : List (Action ι))) := by
      rw [if_neg (by simp), hsame, hlast]
      rfl
    rcases hseen with ⟨_, hidle, hnone⟩ | ⟨hequal, hidle, hfired⟩
    · refine ⟨?_, hidle ▸ Nat.zero_le _, by simp [hnone], ?_⟩
      · rw [hnone, hidle]
        simp
        omega
      · exact ⟨as ++ [.sample], [], by simp, by simp, hidle ▸ .sampled as, fun _ => rfl, hafter⟩
    · refine ⟨?_, ?_, ?_, ?_⟩
      · rw [hfired, hidle]
        split
        · next hmany => simp [hmany]
        · next hfew => simp [hfew]
      · have hbelow := h.fired
        rw [hquiet] at hbelow
        simp at hbelow
        omega
      · intro c hc
        rw [hfired] at hc
        split at hc
        · rw [hcursor]
          exact (Option.some.inj hc).symm
        · cases hc
      · refine ⟨as ++ [.sample], [], by simp, by simp, ?_, fun _ => rfl, hafter⟩
        rw [hidle, hsplit]
        refine hsilent.more hgap ?_
        rw [hequal] at hprogress
        exact (BitVec.add_right_inj _).mp hprogress.symm

theorem trace_start (hlimit : 1 ≤ limit) (cursor : Cursor ι) (progress last : BitVec w) :
    Trace limit (last - progress) [] (start cursor progress last) where
  fired := by
    simp [start]
    omega
  bound := Nat.zero_le _
  dumped := by simp [start]
  silent := by
    refine ⟨[], [], rfl, by simp, .begin, by simp, ?_⟩
    show progress + (last - progress) = last + 0
    rw [BitVec.add_comm, BitVec.sub_add_cancel]
    exact (BitVec.add_zero last).symm

theorem run_trace (hlimit : 1 ≤ limit)
    (hrun : Run (Watchdog.step limit) (start cursor progress last) as s) :
    Trace limit (last - progress) as s := by
  induction hrun with
  | nil => exact trace_start hlimit cursor progress last
  | snoc _ hstep ih => exact ih.step hlimit hstep

/-- The worker raises the counter, and the watchdog does not see it yet. -/
theorem run_worker {gap : List (Action ι)} (hrun : Run (Watchdog.step limit) s gap s')
    (hgap : ∀ a ∈ gap, a.isSample = false) :
    s'.last = s.last ∧ s'.idle = s.idle ∧
      s'.progress = s.progress + BitVec.ofNat w (bumps gap) := by
  induction hrun with
  | nil => exact ⟨rfl, rfl, (BitVec.add_zero s.progress).symm⟩
  | snoc _ hstep ih =>
    rw [List.forall_mem_append] at hgap
    obtain ⟨hlast, hidle, hraised⟩ := ih hgap.1
    obtain ⟨hlast', hidle', _, _, hraised'⟩ :=
      step_worker (hgap.2 _ (List.mem_singleton_self _)) hstep
    refine ⟨hlast'.trans hlast, hidle'.trans hidle, ?_⟩
    rw [hraised', hraised, bumps_append, BitVec.ofNat_add, BitVec.add_assoc]

/-- Samples that found no change have been counted. -/
theorem Silent.le_idle {k : Nat} (h : Silent (last - progress) k as)
    (hrun : Run (Watchdog.step limit) (start cursor progress last) as s) :
    k ≤ s.idle ∧ s.progress + (if as = [] then last - progress else 0) = s.last := by
  induction h generalizing s with
  | begin =>
    rw [hrun.eq_of_nil]
    refine ⟨Nat.zero_le _, ?_⟩
    show progress + (last - progress) = last
    rw [BitVec.add_comm, BitVec.sub_add_cancel]
  | sampled as =>
    obtain ⟨s₁, _, hstep⟩ := hrun.last_step
    obtain ⟨_, hsame, _, hlast, _⟩ := step_sample hstep
    rw [if_neg (by simp), hsame, hlast]
    exact ⟨Nat.zero_le _, BitVec.add_zero _⟩
  | more _ hgap hbumps ih =>
    obtain ⟨s₂, hrun₂, hstep⟩ := hrun.last_step
    obtain ⟨s₁, hrun₁, hworker⟩ := hrun₂.split
    obtain ⟨hidle, hseen⟩ := ih hrun₁
    obtain ⟨hlast₂, hidle₂, hraised⟩ := run_worker hworker hgap
    obtain ⟨_, hsame, _, hlast, hcases⟩ := step_sample hstep
    have hequal : s₂.progress = s₂.last := by
      rw [hraised, hbumps, hseen, hlast₂]
    rw [if_neg (by simp), hsame, hlast]
    refine ⟨?_, BitVec.add_zero _⟩
    rcases hcases with ⟨hne, _⟩ | ⟨_, hcount, _⟩
    · exact absurd hequal hne
    · omega

/-- **Exactly when it fires**: in every interleaving of the worker and the watchdog, the
    process has been ended when the last `limit` samples found no change, and only then. -/
theorem fired_iff (hlimit : 1 ≤ limit)
    (hrun : Run (Watchdog.step limit) (start cursor progress last) as s) :
    s.fired.isSome = true ↔ Silent (last - progress) limit as := by
  have htrace := run_trace hlimit hrun
  constructor
  · intro hfired
    obtain ⟨front, gap, hsplit, _, hsilent, hends, _⟩ := htrace.silent
    rw [hends hfired, List.append_nil] at hsplit
    rw [hsplit, ← Nat.le_antisymm htrace.bound (htrace.fired.mp hfired)]
    exact hsilent
  · intro hsilent
    exact htrace.fired.mpr (hsilent.le_idle hrun).1

/-- From a sample that has seen the counter as it is, the others are counted. -/
theorem countdown (limit n : Nat) (hfired : s.fired = none) (hseen : s.progress = s.last)
    (hleft : s.idle + (n + 1) = limit) :
    Run (Watchdog.step limit) s (List.replicate (n + 1) .sample)
      { s with
        idle := limit
        fired := some s.cursor } := by
  induction n generalizing s with
  | zero =>
    refine .snoc .nil ?_
    unfold Watchdog.step
    simp [hfired, hseen, hleft]
  | succ n ih =>
    have hstep : Watchdog.step limit s .sample = some { s with idle := s.idle + 1 } := by
      unfold Watchdog.step
      have hfew : ¬ limit ≤ s.idle + 1 := by omega
      simp [hfired, hseen, hfew]
    rw [List.replicate_succ]
    exact (Run.snoc .nil hstep).trans
      (ih (s := { s with idle := s.idle + 1 }) hfired hseen (by dsimp only; omega))

def samples (as : List (Action ι)) : Nat := as.countP Action.isSample

/-- Where every sample found no change, the first one did: the counter had been raised to
    what was expected then. -/
theorem Silent.lead_le {lead : BitVec w} {k : Nat} (h : Silent lead k as) :
    k ≤ samples as ∧ (k = samples as → as = [] ∨ lead.toNat ≤ bumps as) := by
  induction h with
  | begin => exact ⟨Nat.zero_le _, fun _ => Or.inl rfl⟩
  | sampled as =>
    refine ⟨Nat.zero_le _, ?_⟩
    intro hzero
    simp [samples, Action.isSample] at hzero
  | @more k as gap _ hgap hbumps ih =>
    have hnone : samples gap = 0 := by
      rw [samples, List.countP_eq_zero]
      intro a ha
      rw [hgap a ha]
      exact Bool.false_ne_true
    have hsamples : samples (as ++ gap ++ [.sample]) = samples as + samples gap + 1 := by
      simp [samples, Action.isSample, Nat.add_assoc]
    have hall : bumps (as ++ gap ++ [.sample]) = bumps as + bumps gap := by
      simp [bumps, Action.isBump]
    obtain ⟨hle, hfirst⟩ := ih
    rw [hsamples, hnone, hall]
    refine ⟨by omega, ?_⟩
    intro hk
    rcases hfirst (by omega) with hnil | hlead
    · rw [if_pos hnil] at hbumps
      rw [← hbumps, BitVec.toNat_ofNat]
      have hmod := Nat.mod_le (bumps gap) (2 ^ w)
      omega
    · omega

/-- **A worker that does not come back is reported**, with what is on the cursor. A sample
    may be spent to see that it has come so far. -/
theorem stuck_reported (hlimit : 1 ≤ limit)
    (hrun : Run (Watchdog.step limit) (start cursor progress last) as s) (hfired : s.fired = none) :
    ∃ n t, n ≤ limit + 1 ∧ Run (Watchdog.step limit) s (List.replicate n .sample) t ∧
      t.fired = some s.cursor := by
  by_cases hseen : s.progress = s.last
  · have hbelow := (run_trace hlimit hrun).fired
    rw [hfired] at hbelow
    simp at hbelow
    have hcount := countdown limit (limit - s.idle - 1) hfired hseen (by omega)
    exact ⟨limit - s.idle - 1 + 1, _, by omega, hcount, rfl⟩
  · have hstep : Watchdog.step limit s .sample = some { s with last := s.progress, idle := 0 } := by
      unfold Watchdog.step
      simp [hfired, hseen]
    have hcount := countdown limit (limit - 1)
      (s := { s with last := s.progress, idle := 0 }) hfired rfl (by dsimp only; omega)
    have hrun' := (Run.snoc .nil hstep).trans hcount
    exact ⟨limit - 1 + 1 + 1, _, by omega, hrun', rfl⟩

end runs

end Watchdog
