import Mathlib.Algebra.BigOperators.Group.List.Basic
import Mathlib.Algebra.GroupWithZero.Nat
import Mathlib.Algebra.Ring.Int.Defs
import Mathlib.Data.List.Count
import Mathlib.Data.List.Induction

/-! # Runs of a Transition System

    A system is its step function: what an action makes of a state, nothing when the
    action is not possible there. The parties of a system run concurrently when their
    actions may come in any order.

    * `Run`: from a state, by a list of actions, to a state. Runs are composed and split.
    * `Run.inv`: what every step keeps, every run keeps.
    * `Run.ledger`: what every step changes by an amount of its own, a run changes by the
      sum.
    * `Run.length_le`: what every step lowers bounds the number of steps.
    * `Tally`: how many entries of a list are of a kind, when one entry is replaced.
-/

namespace Transitions

/-! ## Section 1: Runs -/

section runs
variable {σ α : Type*} {step : σ → α → Option σ}

/-- The system gets from `s` to another state by these actions, in this order. -/
inductive Run (step : σ → α → Option σ) (s : σ) : List α → σ → Prop where
  | nil : Run step s [] s
  | snoc {as : List α} {a : α} {s' s'' : σ} (h : Run step s as s') (hstep : step s' a = some s'') :
    Run step s (as ++ [a]) s''

theorem Run.trans {s s' s'' : σ} {as bs : List α} (h₁ : Run step s as s')
    (h₂ : Run step s' bs s'') : Run step s (as ++ bs) s'' := by
  induction h₂ with
  | nil =>
    rw [List.append_nil]
    exact h₁
  | snoc _ hstep ih =>
    rw [← List.append_assoc]
    exact .snoc ih hstep

theorem Run.eq_of_nil {s s' : σ} (h : Run step s [] s') : s' = s := by
  generalize hnil : ([] : List α) = as at h
  cases h with
  | nil => rfl
  | snoc _ _ => simp at hnil

/-- The last step of a run. -/
theorem Run.last_step {s s'' : σ} {as : List α} {a : α} (h : Run step s (as ++ [a]) s'') :
    ∃ s', Run step s as s' ∧ step s' a = some s'' := by
  generalize has : as ++ [a] = bs at h
  cases h with
  | nil => simp at has
  | snoc hrun hstep =>
    obtain ⟨hinit, hlast⟩ := List.append_inj' has rfl
    cases hlast
    subst hinit
    exact ⟨_, hrun, hstep⟩

/-- A run of two lists of actions is two runs. -/
theorem Run.split {s s'' : σ} {as bs : List α} (h : Run step s (as ++ bs) s'') :
    ∃ s', Run step s as s' ∧ Run step s' bs s'' := by
  induction bs using List.reverseRecOn generalizing s'' with
  | nil =>
    rw [List.append_nil] at h
    exact ⟨s'', h, .nil⟩
  | append_singleton bs b ih =>
    rw [← List.append_assoc] at h
    obtain ⟨s₁, hrun, hstep⟩ := h.last_step
    obtain ⟨s', hfirst, hrest⟩ := ih hrun
    exact ⟨s', hfirst, hrest.snoc hstep⟩

/-- **Invariant rule**. -/
theorem Run.inv {I : σ → Prop} (hstep : ∀ s a s', I s → step s a = some s' → I s') {s s' : σ}
    {as : List α} (h : Run step s as s') (hs : I s) : I s' := by
  induction h with
  | nil => exact hs
  | snoc _ hs' ih => exact hstep _ _ _ ih hs'

/-- **Invariant rule** for runs whose actions are all of a kind. -/
theorem Run.inv_on {A : α → Prop} {I : σ → Prop}
    (hstep : ∀ s a s', A a → I s → step s a = some s' → I s') {s s' : σ} {as : List α}
    (h : Run step s as s') (hA : ∀ a ∈ as, A a) (hs : I s) : I s' := by
  induction h with
  | nil => exact hs
  | snoc _ hs' ih =>
    rw [List.forall_mem_append] at hA
    exact hstep _ _ _ (hA.2 _ (List.mem_singleton_self _)) (ih hA.1) hs'

/-- **Variant rule**: a measure that every step lowers, but for what its action adds. -/
theorem Run.length_le_add {I : σ → Prop} {f : σ → Nat} {g : α → Nat}
    (hinv : ∀ s a s', I s → step s a = some s' → I s')
    (hstep : ∀ s a s', I s → step s a = some s' → f s' + 1 ≤ f s + g a) {s s' : σ} {as : List α}
    (h : Run step s as s') (hs : I s) : as.length + f s' ≤ f s + (as.map g).sum := by
  induction h with
  | nil => simp
  | snoc hrun hs' ih =>
    have hlower := hstep _ _ _ (hrun.inv hinv hs) hs'
    rw [List.length_append, List.length_singleton, List.map_append, List.sum_append,
      List.map_singleton, List.sum_singleton]
    omega

/-- The same where no action adds to it: the measure bounds the steps of a run. -/
theorem Run.length_le {I : σ → Prop} {f : σ → Nat}
    (hinv : ∀ s a s', I s → step s a = some s' → I s')
    (hstep : ∀ s a s', I s → step s a = some s' → f s' < f s) {s s' : σ} {as : List α}
    (h : Run step s as s') (hs : I s) : as.length + f s' ≤ f s := by
  have hadd := h.length_le_add (g := fun _ => 0) hinv hstep hs
  simpa using hadd

/-- **Ledger rule**: an amount that each step changes by what its action says, under an
    invariant. -/
theorem Run.ledger {I : σ → Prop} {f : σ → Int} {g : α → Int}
    (hinv : ∀ s a s', I s → step s a = some s' → I s')
    (hstep : ∀ s a s', I s → step s a = some s' → f s' = f s + g a) {s s' : σ} {as : List α}
    (h : Run step s as s') (hs : I s) : f s' = f s + (as.map g).sum := by
  induction h with
  | nil => simp
  | snoc hrun hs' ih =>
    rw [hstep _ _ _ (hrun.inv hinv hs) hs', ih, List.map_append, List.sum_append, add_assoc]
    simp

/-- The state a list of actions leads to. -/
def exec (step : σ → α → Option σ) : σ → List α → Option σ
  | s, [] => some s
  | s, a :: as => (step s a).bind fun s' => exec step s' as

theorem run_of_exec {s s' : σ} {as : List α} (h : exec step s as = some s') : Run step s as s' := by
  induction as generalizing s with
  | nil =>
    cases h
    exact .nil
  | cons a as ih =>
    obtain ⟨s₁, hstep, hrest⟩ := Option.bind_eq_some_iff.mp h
    exact (Run.snoc .nil hstep).trans (ih hrest)

end runs

/-! ## Section 2: Lists of parties -/

section tally
variable {β : Type*}

/-- How many entries of a list are of a kind. -/
def tally (p : β → Bool) (l : List β) : Int := l.countP p

/-- One or none. -/
def unit (b : Bool) : Int := if b then 1 else 0

theorem tally_nonneg (p : β → Bool) (l : List β) : 0 ≤ tally p l := by
  unfold tally
  omega

theorem tally_append_singleton (p : β → Bool) (l : List β) (x : β) :
    tally p (l ++ [x]) = tally p l + unit (p x) := by
  unfold tally unit
  rw [List.countP_append, List.countP_singleton]
  split <;> simp

/-- One entry replaced: it is no longer counted as it was, and counted as it is. -/
theorem tally_set (p : β → Bool) {l : List β} {k : Nat} {old : β} (new : β) (h : l[k]? = some old) :
    tally p (l.set k new) = tally p l - unit (p old) + unit (p new) := by
  obtain ⟨hlt, hold⟩ := List.getElem?_eq_some_iff.mp h
  have hsplit : l = l.take k ++ old :: l.drop (k + 1) := by
    rw [← hold, List.cons_getElem_drop_succ, List.take_append_drop]
  unfold tally unit
  rw [List.set_eq_take_cons_drop _ hlt]
  conv_rhs => rw [hsplit]
  rw [List.countP_append, List.countP_append, List.countP_cons, List.countP_cons]
  split <;> split <;> simp <;> omega

/-- The same for a weight that is added up over the list. -/
theorem sum_map_set (w : β → Nat) {l : List β} {k : Nat} {old : β} (new : β)
    (h : l[k]? = some old) : ((l.set k new).map w).sum + w old = (l.map w).sum + w new := by
  obtain ⟨hlt, hold⟩ := List.getElem?_eq_some_iff.mp h
  have hsplit : l = l.take k ++ old :: l.drop (k + 1) := by
    rw [← hold, List.cons_getElem_drop_succ, List.take_append_drop]
  rw [List.set_eq_take_cons_drop _ hlt]
  conv_rhs => rw [hsplit]
  simp only [List.map_append, List.map_cons, List.sum_append, List.sum_cons]
  omega

theorem tally_le_length (p : β → Bool) (l : List β) : tally p l ≤ l.length := by
  unfold tally
  have h : l.countP p ≤ l.length := List.countP_le_length
  omega

theorem tally_eq_zero {p : β → Bool} {l : List β} (h : ∀ x ∈ l, p x = false) : tally p l = 0 := by
  unfold tally
  rw [List.countP_eq_zero.mpr]
  · rfl
  · intro x hx
    simp [h x hx]

theorem tally_eq_length {p : β → Bool} {l : List β} (h : ∀ x ∈ l, p x = true) :
    tally p l = l.length := by
  unfold tally
  rw [List.countP_eq_length.mpr h]

/-- The sum over a list is the difference of two counts. -/
theorem sum_map_unit_sub (p q : β → Bool) (l : List β) :
    (l.map fun x => unit (p x) - unit (q x)).sum = tally p l - tally q l := by
  induction l with
  | nil => rfl
  | cons x l ih =>
    have hp : tally p (x :: l) = tally p l + unit (p x) := by
      unfold tally unit
      rw [List.countP_cons]
      split <;> simp
    have hq : tally q (x :: l) = tally q l + unit (q x) := by
      unfold tally unit
      rw [List.countP_cons]
      split <;> simp
    rw [List.map_cons, List.sum_cons, ih, hp, hq]
    omega

/-- Where the count falls short of the length, some entry is not of the kind. -/
theorem exists_of_tally_lt {p : β → Bool} {l : List β} (h : tally p l < l.length) :
    ∃ x ∈ l, p x = false := by
  by_contra hnone
  push Not at hnone
  have hall : ∀ x ∈ l, p x = true := by
    intro x hx
    simpa using hnone x hx
  rw [tally_eq_length hall] at h
  omega

end tally

end Transitions
