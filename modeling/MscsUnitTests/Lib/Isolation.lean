import MscsUnitTests.Lib.Network

/-! # Agents with a Common Store

    Each agent has a state of its own, and all read and write one store, whose keys belong to
    the agents. What one agent does to its keys the others do not see.

    * `each`: what the actions of an agent keep of its state, its history and its keys holds of
      every agent at any point of any run, in whatever order the agents act.
    * `unowned`: a key of nobody is not written.
-/

open Transitions Network

namespace Isolation

section sharing
variable {ι κ ν σ α : Type*}

/-- What an action makes of the state of its agent and of the store, and whose the keys are. -/
structure System (ι κ ν σ α : Type*) where
  act : ι → α → σ → (κ → ν) → Option (σ × (κ → ν))
  owns : ι → κ → Prop

structure State (ι κ ν σ : Type*) where
  agents : ι → σ
  store : κ → ν

variable [DecidableEq ι]

def step (S : System ι κ ν σ α) (s : State ι κ ν σ) (a : ι × α) : Option (State ι κ ν σ) :=
  (S.act a.1 a.2 (s.agents a.1) s.store).map fun out =>
    ⟨Function.update s.agents a.1 out.1, out.2⟩

/-- What holds of an agent, of what it has done, and of a store. -/
abbrev View (ι κ ν σ α : Type*) : Type _ := ι → σ → List α → (κ → ν) → Prop

/-- No key has two owners, and what holds of an agent is about its own keys, which are all
    that it writes. -/
structure Confined (S : System ι κ ν σ α) (I : View ι κ ν σ α) : Prop where
  disjoint : ∀ i j k, S.owns i k → S.owns j k → i = j
  own_keys : ∀ i own done store store', (∀ k, S.owns i k → store' k = store k) →
    I i own done store → I i own done store'
  frame : ∀ i a own done store out, I i own done store → S.act i a own store = some out →
    ∀ k, ¬ S.owns i k → out.2 k = store k

/-- The actions of an agent keep what holds of it. -/
structure KeptByAll (S : System ι κ ν σ α) (I : View ι κ ν σ α) : Prop extends Confined S I where
  kept : ∀ i a own done store out, I i own done store → S.act i a own store = some out →
    I i out.1 (done ++ [a]) out.2

variable {S : System ι κ ν σ α} {I : View ι κ ν σ α} {s s' : State ι κ ν σ} {as : List (ι × α)}

/-- **Ownership rule**: in whatever order the agents act. -/
theorem each (hkept : KeptByAll S I) (hrun : Run (step S) s as s')
    (hstart : ∀ i, I i (s.agents i) [] s.store) (i : ι) :
    I i (s'.agents i) (ofParty i as) s'.store := by
  induction hrun generalizing i with
  | nil => exact hstart i
  | @snoc as a t t' _ hstep ih =>
    obtain ⟨j, a⟩ := a
    obtain ⟨out, hact, rfl⟩ := Option.map_eq_some_iff.mp hstep
    show I i (Function.update t.agents j out.1 i) (ofParty i (as ++ [(j, a)])) out.2
    by_cases hi : i = j
    · subst hi
      have hdone : ofParty i (as ++ [(i, a)]) = ofParty i as ++ [a] := ofParty_self i as [a]
      rw [Function.update_self, hdone]
      exact hkept.kept i a _ _ _ _ (ih i) hact
    · -- another agent has acted, on keys that are its own
      have hdone : ofParty i (as ++ [(j, a)]) = ofParty i as := ofParty_ne hi as [a]
      rw [Function.update_of_ne hi, hdone]
      refine hkept.own_keys i _ _ t.store _ ?_ (ih i)
      intro k hk
      refine hkept.frame j a _ _ _ _ (ih j) hact k ?_
      intro hother
      exact hi (hkept.disjoint i j k hk hother)

theorem unowned (hkept : KeptByAll S I) (hrun : Run (step S) s as s')
    (hstart : ∀ i, I i (s.agents i) [] s.store) {k : κ} (hk : ∀ i, ¬ S.owns i k) :
    s'.store k = s.store k := by
  induction hrun with
  | nil => rfl
  | @snoc as a t t' hbefore hstep ih =>
    obtain ⟨out, hact, rfl⟩ := Option.map_eq_some_iff.mp hstep
    have hview := each hkept hbefore hstart a.1
    have hsame := hkept.frame a.1 a.2 _ _ _ _ hview hact k (hk a.1)
    exact hsame.trans ih

end sharing

end Isolation
