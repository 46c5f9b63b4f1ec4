import Mathlib.Data.List.Basic

/-! # Labelled Runs

    A relation `R s es s'` between two states and the events on the way from one
    to the other. What is known of one step becomes known of a whole loop once
    `R` is closed under doing nothing and under doing one thing after another.
-/

namespace History

variable {σ ε β : Type*}

/-- Closed under the empty run and under concatenation. -/
structure Labelled (R : σ → List ε → σ → Prop) : Prop where
  refl : ∀ s, R s [] s
  trans : ∀ {s t u ds es}, R s ds t → R t es u → R s (ds ++ es) u

/-- What holds of a list of events goes on holding when there are more. -/
def Upward (Q : List ε → Prop) : Prop :=
  ∀ ⦃ds es⦄, ds ⊆ es → Q ds → Q es

/-- Having a certain event in it is such a condition. -/
theorem upward_exists (P : ε → Prop) : Upward fun es => ∃ e ∈ es, P e := by
  rintro ds es hsub ⟨e, he, hP⟩
  exact ⟨e, hsub he, hP⟩

theorem upward_forall {ι : Type*} {Q : ι → List ε → Prop} (h : ∀ i, Upward (Q i)) :
    Upward fun es => ∀ i, Q i es := by
  intro ds es hsub hQ i
  exact h i hsub (hQ i)

theorem upward_true : Upward fun _ : List ε => True := by
  intro ds es hsub hQ
  trivial

/-- **Loop rule**: passes that keep an invariant and each leave their mark on the
    events make a run that keeps it and has every mark. -/
theorem Labelled.foldl {R : σ → List ε → σ → Prop} (hR : Labelled R) {f : σ → β → σ}
    {I : σ → Prop} {Q : β → List ε → Prop} (hQ : ∀ b, Upward (Q b))
    (hstep : ∀ s b, I s → ∃ es, R s es (f s b) ∧ I (f s b) ∧ Q b es) :
    ∀ (l : List β) (s : σ), I s →
      ∃ es, R s es (l.foldl f s) ∧ I (l.foldl f s) ∧ ∀ b ∈ l, Q b es
  | [], s, hs => ⟨[], hR.refl s, hs, by simp⟩
  | b :: l, s, hs => by
    -- the first pass leaves its mark, the others keep it
    obtain ⟨ds, hds, hI, hb⟩ := hstep s b hs
    obtain ⟨es, hes, hI', hl⟩ := hR.foldl hQ hstep l (f s b) hI
    refine ⟨ds ++ es, hR.trans hds hes, hI', ?_⟩
    intro c hc
    rcases List.mem_cons.mp hc with rfl | hc
    · exact hQ _ (List.subset_append_left ds es) hb
    · exact hQ _ (List.subset_append_right ds es) (hl c hc)

/-- An event of a list with one more at its end is that one, or one of the list. -/
theorem split_snoc {l pre post : List ε} {a b : ε} (h : l ++ [a] = pre ++ b :: post) :
    (pre = l ∧ b = a) ∨ ∃ mid, l = pre ++ b :: mid := by
  rcases List.eq_nil_or_concat post with rfl | ⟨mid, c, rfl⟩
  · obtain ⟨hl, hab⟩ := List.append_inj' h rfl
    exact Or.inl ⟨hl.symm, (List.cons.inj hab).1.symm⟩
  · rw [List.concat_eq_append, ← List.cons_append, ← List.append_assoc] at h
    exact Or.inr ⟨mid, (List.append_inj' h rfl).1⟩

end History
