import Mathlib.Data.List.Basic

/-! # Argument Loops

    A `main` that goes through its arguments once: an argument is an option that takes so
    many of the next ones as its values, or it is something else.

    * `loop`: the first rule that accepts an argument and finds its values takes it.
    * `Token`: an option with its values, or a word that is no option.
    * `loop_tokens`: a command line that is put together from tokens is read as these tokens.
-/

namespace ArgumentLoop

variable {α σ : Type}

/-! ## Section 1: The loop -/

/-- An option. -/
structure Rule (α σ : Type) where
  accepts : α → Bool
  arity : Nat
  /-- What it does, by how it was written and the values. -/
  apply : α → List α → σ → σ

/-- The loop from a state on; `other` is what is done with an argument that no rule takes.
    Every turn uses up an argument, so `fuel` is their number. -/
def loopFrom (rules : List (Rule α σ)) (other : α → σ → σ) : Nat → σ → List α → σ
  | 0, s, _ => s
  | _ + 1, s, [] => s
  | fuel + 1, s, a :: rest =>
    match rules.find? fun r => r.accepts a && r.arity ≤ rest.length with
    | some r => loopFrom rules other fuel (r.apply a (rest.take r.arity) s) (rest.drop r.arity)
    | none => loopFrom rules other fuel (other a s) rest

def loop (rules : List (Rule α σ)) (other : α → σ → σ) (s : σ) (argv : List α) : σ :=
  loopFrom rules other argv.length s argv

section laws
variable {rules : List (Rule α σ)} {other : α → σ → σ}

/-- More fuel than arguments changes nothing. -/
theorem loopFrom_fuel {fuel fuel' : Nat} {argv : List α} (h : argv.length ≤ fuel)
    (h' : argv.length ≤ fuel') (s : σ) :
    loopFrom rules other fuel s argv = loopFrom rules other fuel' s argv := by
  induction fuel generalizing fuel' s argv with
  | zero =>
    have hnil : argv = [] := List.length_eq_zero_iff.mp (Nat.le_zero.mp h)
    subst hnil
    cases fuel' with
    | zero => rfl
    | succ fuel' => rfl
  | succ fuel ih =>
    cases argv with
    | nil =>
      cases fuel' with
      | zero => rfl
      | succ fuel' => rfl
    | cons a rest =>
      rw [List.length_cons] at h h'
      obtain ⟨fuel₁, rfl⟩ : ∃ n, fuel' = n + 1 := ⟨fuel' - 1, by omega⟩
      have hdrop : ∀ n, (rest.drop n).length ≤ rest.length := by
        intro n
        rw [List.length_drop]
        omega
      rw [loopFrom, loopFrom]
      split
      · next r _ =>
        have hvalues := hdrop r.arity
        exact ih (by omega) (by omega) _
      · exact ih (by omega) (by omega) _

@[simp] theorem loop_nil (s : σ) : loop rules other s [] = s := rfl

/-- An argument that a rule takes. -/
theorem loop_option {a : α} {rest : List α} {r : Rule α σ}
    (h : rules.find? (fun r => r.accepts a && r.arity ≤ rest.length) = some r) (s : σ) :
    loop rules other s (a :: rest) =
      loop rules other (r.apply a (rest.take r.arity) s) (rest.drop r.arity) := by
  have hdrop : (rest.drop r.arity).length ≤ rest.length := by
    rw [List.length_drop]
    omega
  unfold loop
  rw [List.length_cons, loopFrom, h]
  exact loopFrom_fuel hdrop (Nat.le_refl _) _

/-- An argument that no rule takes. -/
theorem loop_other {a : α} {rest : List α}
    (h : rules.find? (fun r => r.accepts a && r.arity ≤ rest.length) = none) (s : σ) :
    loop rules other s (a :: rest) = loop rules other (other a s) rest := by
  unfold loop
  rw [List.length_cons, loopFrom, h]

/-! ## Section 2: Command lines -/

/-- A part of a command line. -/
inductive Token (α σ : Type) where
  | option (r : Rule α σ) (a : α) (values : List α)
  | word (a : α)

def Token.words : Token α σ → List α
  | .option _ a values => a :: values
  | .word a => [a]

/-- What it means. -/
def Token.apply (other : α → σ → σ) (s : σ) : Token α σ → σ
  | .option r a values => r.apply a values s
  | .word a => other a s

/-- An option is the first rule for how it is written, and has its values; a word is no
    option. -/
def Token.WellFormed (rules : List (Rule α σ)) : Token α σ → Prop
  | .option r a values => rules.find? (fun q => q.accepts a) = some r ∧ values.length = r.arity
  | .word a => rules.find? (fun q => q.accepts a) = none

theorem loop_token {t : Token α σ} (ht : t.WellFormed rules) (s : σ) (rest : List α) :
    loop rules other s (t.words ++ rest) = loop rules other (t.apply other s) rest := by
  cases t with
  | option r a values =>
    obtain ⟨hfind, hlength⟩ := ht
    have hfirst : rules.find? (fun q => q.accepts a && q.arity ≤ (values ++ rest).length)
        = some r := by
      obtain ⟨haccepts, front, back, hrules, hfront⟩ := List.find?_eq_some_iff_append.mp hfind
      refine List.find?_eq_some_iff_append.mpr ⟨?_, front, back, hrules, ?_⟩
      · have hroom : r.arity ≤ values.length + rest.length := by omega
        simp [haccepts, hroom]
      · intro q hq
        have hnot := hfront q hq
        simp only [Bool.not_eq_true'] at hnot
        simp [hnot]
    show loop rules other s (a :: (values ++ rest)) = _
    rw [loop_option hfirst, ← hlength, List.take_left, List.drop_left]
    rfl
  | word a =>
    have hnone : rules.find? (fun q => q.accepts a && q.arity ≤ rest.length) = none := by
      rw [List.find?_eq_none]
      intro q hq
      have hnot := (List.find?_eq_none.mp ht) q hq
      simp only [Bool.not_eq_true] at hnot
      simp [hnot]
    exact loop_other hnone s

/-- **A command line is read as its tokens**, one after the other. -/
theorem loop_tokens {ts : List (Token α σ)} (hts : ∀ t ∈ ts, t.WellFormed rules) (s : σ)
    (rest : List α) : loop rules other s (ts.flatMap Token.words ++ rest) =
      loop rules other (ts.foldl (Token.apply other) s) rest := by
  induction ts generalizing s with
  | nil => rfl
  | cons t ts ih =>
    rw [List.forall_mem_cons] at hts
    rw [List.flatMap_cons, List.append_assoc, loop_token hts.1, ih hts.2]
    rfl

end laws

end ArgumentLoop
