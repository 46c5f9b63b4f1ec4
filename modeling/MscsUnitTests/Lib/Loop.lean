import Mathlib.Logic.Basic

/-! # Bounded Loops with an Early Exit

    The shape `for (; n < budget; ++n) { ... break; ... continue; ... }`: a body
    that either leaves the loop with a result or goes round again with a new
    state, and a budget on the number of passes.

    * `run`: the loop.
    * `run_inv`: the invariant rule.
    * `run_count`: a counter that each pass raises by one.
    * `run_map`: two loops whose bodies do the same to two views of a state.
    * `run_stutter`: two loops of which one takes more passes than the other.
    * `LeavesAt`: the same loop without a budget.
-/

namespace BoundedLoop

variable {σ ρ : Type*}

/-- What one pass of the body does. -/
inductive Pass (ρ σ : Type*) where
  /-- `break`, with what the loop leaves behind. -/
  | stop (r : ρ)
  /-- `continue`, or the end of the body. -/
  | again (s : σ)

/-- How the loop ended. -/
inductive Exit (ρ σ : Type*) where
  /-- The body left the loop. -/
  | broke (r : ρ)
  /-- The budget was used up. -/
  | spent (s : σ)

/-- Run the body at most `budget` times. -/
def run (body : σ → Pass ρ σ) : Nat → σ → Exit ρ σ
  | 0, s => .spent s
  | budget + 1, s =>
    match body s with
    | .stop r => .broke r
    | .again s' => run body budget s'

theorem run_stop {body : σ → Pass ρ σ} {s : σ} {r : ρ} (n : Nat) (h : body s = .stop r) :
    run body (n + 1) s = .broke r := by
  simp [run, h]

theorem run_again {body : σ → Pass ρ σ} {s s' : σ} (n : Nat) (h : body s = .again s') :
    run body (n + 1) s = run body n s' := by
  simp [run, h]

/-- A pass meets a pair of conditions: one on results, one on states. -/
def Pass.Meets (Q : ρ → Prop) (I : σ → Prop) : Pass ρ σ → Prop
  | .stop r => Q r
  | .again s => I s

/-- The same for the end of the loop. -/
def Exit.Meets (Q : ρ → Prop) (I : σ → Prop) : Exit ρ σ → Prop
  | .broke r => Q r
  | .spent s => I s

/-- **Invariant rule**: a condition each pass keeps, or trades for `Q` when it
    leaves the loop. -/
theorem run_inv {body : σ → Pass ρ σ} {Q : ρ → Prop} {I : σ → Prop}
    (hbody : ∀ s, I s → (body s).Meets Q I) :
    ∀ (n : Nat) (s : σ), I s → (run body n s).Meets Q I
  | 0, _, hs => hs
  | n + 1, s, hs => by
    have h := hbody s hs
    unfold run
    split
    · next r hr => rw [hr] at h; exact h
    · next s' hs' => rw [hs'] at h; exact run_inv hbody n s' h

/-- **Counting rule**: a counter that is raised by every pass that goes on, and read
    off the result of the pass that does not. -/
theorem run_count {body : σ → Pass ρ σ} {count : σ → Nat} {counted : ρ → Nat}
    (hstop : ∀ s r, body s = .stop r → counted r = count s)
    (hagain : ∀ s s', body s = .again s' → count s' = count s + 1) :
    ∀ (n : Nat) (s : σ), (run body n s).Meets
      (fun r => count s ≤ counted r ∧ counted r < count s + n) (fun s' => count s' = count s + n)
  | 0, _ => rfl
  | n + 1, s => by
    cases hbody : body s with
    | stop r =>
      rw [run_stop n hbody]
      have hr := hstop s r hbody
      exact ⟨by omega, by omega⟩
    | again s' =>
      rw [run_again n hbody]
      have hs' := hagain s s' hbody
      have hrest := run_count hstop hagain n s'
      cases hrun : run body n s' with
      | broke r =>
        rw [hrun] at hrest
        obtain ⟨hlow, hhigh⟩ := hrest
        exact ⟨by omega, by omega⟩
      | spent s'' =>
        rw [hrun] at hrest
        have hcount : count s'' = count s' + n := hrest
        show count s'' = count s + (n + 1)
        omega

/-- A view of a pass. -/
def Pass.map {ρ' σ' : Type*} (g : ρ → ρ') (f : σ → σ') : Pass ρ σ → Pass ρ' σ'
  | .stop r => .stop (g r)
  | .again s => .again (f s)

/-- The same view of the end of the loop. -/
def Exit.map {ρ' σ' : Type*} (g : ρ → ρ') (f : σ → σ') : Exit ρ σ → Exit ρ' σ'
  | .broke r => .broke (g r)
  | .spent s => .spent (f s)

/-- **View rule**: when one body does to the views what the other does to the states,
    so does the loop. -/
theorem run_map {ρ' σ' : Type*} {body : σ → Pass ρ σ} {body' : σ' → Pass ρ' σ'} {g : ρ → ρ'}
    {f : σ → σ'} (hbody : ∀ s, body' (f s) = (body s).map g f) :
    ∀ (n : Nat) (s : σ), run body' n (f s) = (run body n s).map g f
  | 0, _ => rfl
  | n + 1, s => by
    have h := hbody s
    cases hs : body s with
    | stop r =>
      rw [hs] at h
      rw [run_stop n hs, run_stop n h]
      rfl
    | again s' =>
      rw [hs] at h
      rw [run_again n hs, run_again n h]
      exact run_map hbody n s'

/-- **Stuttering rule**: when each pass of the first loop either goes on alone, or
    ends or goes on together with a pass of the second, two runs that both left
    the loop agree on what they left behind. -/
theorem run_stutter {σ' ρ' : Type*} {body : σ → Pass ρ σ} {body' : σ' → Pass ρ' σ'}
    {R : σ → σ' → Prop} {Q : ρ → ρ' → Prop}
    (hbody : ∀ s s', R s s' →
      (∃ t, body s = .again t ∧ R t s') ∨
      (∃ t t', body s = .again t ∧ body' s' = .again t' ∧ R t t') ∨
      (∃ r r', body s = .stop r ∧ body' s' = .stop r' ∧ Q r r'))
    {r : ρ} {r' : ρ'} :
    ∀ (m n : Nat) (s : σ) (s' : σ'), R s s' →
      run body m s = .broke r → run body' n s' = .broke r' → Q r r' := by
  intro m
  -- the first loop moves in every case
  induction m with
  | zero =>
    intro n s s' _ hrun _
    cases hrun
  | succ m ih =>
    intro n s s' hR hrun hrun'
    rcases hbody s s' hR with ⟨t, ht, hR'⟩ | ⟨t, t', ht, ht', hR'⟩ | ⟨q, q', hq, hq', hQ⟩
    · rw [run_again m ht] at hrun
      exact ih n t s' hR' hrun hrun'
    · cases n with
      | zero => cases hrun'
      | succ n =>
        rw [run_again m ht] at hrun
        rw [run_again n ht'] at hrun'
        exact ih n t t' hR' hrun hrun'
    · cases n with
      | zero => cases hrun'
      | succ n =>
        rw [run_stop m hq] at hrun
        rw [run_stop n hq'] at hrun'
        cases hrun
        cases hrun'
        exact hQ

/-! ## The loop without a budget -/

/-- `for (;;) { ... }`: the body leaves the loop at its `k`-th pass, with `r`. -/
inductive LeavesAt (body : σ → Pass ρ σ) : σ → Nat → ρ → Prop where
  | stop {s : σ} {r : ρ} (h : body s = .stop r) : LeavesAt body s 1 r
  | again {s s' : σ} {k : Nat} {r : ρ} (h : body s = .again s') (hrest : LeavesAt body s' k r) :
      LeavesAt body s (k + 1) r

/-- The last pass of a run that used its budget up. -/
theorem run_succ_spent {body : σ → Pass ρ σ} {s' : σ} :
    ∀ (n : Nat) (s : σ), run body (n + 1) s = .spent s' →
      ∃ t, run body n s = .spent t ∧ body t = .again s' := by
  intro n
  induction n with
  | zero =>
    intro s h
    cases hbody : body s with
    | stop r =>
      rw [run_stop 0 hbody] at h
      cases h
    | again t =>
      rw [run_again 0 hbody] at h
      cases h
      exact ⟨s, rfl, hbody⟩
  | succ n ih =>
    intro s h
    cases hbody : body s with
    | stop r =>
      rw [run_stop (n + 1) hbody] at h
      cases h
    | again t =>
      rw [run_again (n + 1) hbody] at h
      rw [run_again n hbody]
      exact ih t h

/-- A run that left the loop within its budget is one of the loop without it. -/
theorem leavesAt_of_run {body : σ → Pass ρ σ} {r : ρ} :
    ∀ (n : Nat) (s : σ), run body n s = .broke r → ∃ k, k ≤ n ∧ LeavesAt body s k r := by
  intro n
  induction n with
  | zero =>
    intro s h
    cases h
  | succ n ih =>
    intro s h
    cases hbody : body s with
    | stop q =>
      rw [run_stop n hbody] at h
      cases h
      exact ⟨1, Nat.le_add_left 1 n, .stop hbody⟩
    | again t =>
      rw [run_again n hbody] at h
      obtain ⟨k, hk, hleaves⟩ := ih t h
      exact ⟨k + 1, Nat.succ_le_succ hk, .again hbody hleaves⟩

/-- **Counting rule**: a counter that every pass raises by one, the last one too,
    reads the number of passes off the result. -/
theorem leavesAt_count {body : σ → Pass ρ σ} (count : σ → Nat) (counted : ρ → Nat)
    (hstop : ∀ s r, body s = .stop r → counted r = count s + 1)
    (hagain : ∀ s s', body s = .again s' → count s' = count s + 1)
    {s : σ} {k : Nat} {r : ρ} (h : LeavesAt body s k r) : counted r = count s + k := by
  induction h with
  | stop h => exact hstop _ _ h
  | again h _ ih =>
    have hnext := hagain _ _ h
    omega

end BoundedLoop
