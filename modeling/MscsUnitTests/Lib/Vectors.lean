import Mathlib.Data.List.Basic

/-! # Vectors With Their Bounds Checked

    A program that reads and writes vectors by index and by range. What the language
    leaves undefined, a range that lies outside, ends the computation here, and is what
    it ends with.

    * `Checked`: a computation that may end so.
    * `touch`: the test, from which the accesses are made.
    * `Stays`: no range was outside, with a rule for each way to put computations
      together.
    * `Ends`: what can be said of a result, if there is one.
    * `Clean`: a computation that comes to its end without a failure more.
-/

namespace CheckedVectors

variable {ν α β γ : Type}

/-! ## Section 1: Ranges -/

/-- `len` elements of a vector, from `off` on, when it has `size` of them. -/
structure Range (ν : Type) where
  vec : ν
  off : Nat
  len : Nat
  size : Nat
  deriving DecidableEq

/-- A computation that is left at the first range that lies outside. -/
abbrev Checked (ν α : Type) := Except (Range ν) α

/-- A range of the vector `vec` is used. -/
def touch (vec : ν) (size off len : Nat) : Checked ν Unit :=
  if off + len ≤ size then .ok () else .error ⟨vec, off, len, size⟩

/-- An element is changed in place. -/
def modifyAt (vec : ν) (v : List γ) (i : Nat) (f : γ → γ) : Checked ν (List γ) := do
  touch vec v.length i 1
  return v.modify i f

/-- `memcmp(..) == 0` of the first `n` elements of two vectors. -/
def sameFirst [BEq γ] (vec vec' : ν) (v v' : List γ) (n : Nat) : Checked ν Bool := do
  touch vec v.length 0 n
  touch vec' v'.length 0 n
  return v.take n == v'.take n

/-! ## Section 2: Computations that stay inside -/

/-- The computation comes to its end. -/
def Stays (x : Checked ν α) : Prop := ∃ a, x = .ok a

theorem stays_pure (a : α) : Stays (pure a : Checked ν α) := ⟨a, rfl⟩

theorem not_stays_error (r : Range ν) : ¬ Stays (.error r : Checked ν α) := by
  intro ⟨_, h⟩
  cases h

/-- **Sequence rule**: the second computation is the one that the result of the first
    leads to. -/
theorem stays_bind {x : Checked ν α} {f : α → Checked ν β} :
    Stays (x >>= f) ↔ ∃ a, x = .ok a ∧ Stays (f a) := by
  cases x with
  | error r =>
    refine ⟨fun h => absurd h (not_stays_error r), ?_⟩
    intro ⟨a, ha, _⟩
    cases ha
  | ok a =>
    refine ⟨fun h => ⟨a, rfl, h⟩, ?_⟩
    intro ⟨b, hb, hf⟩
    cases hb
    exact hf

theorem Stays.bind {x : Checked ν α} {f : α → Checked ν β} (hx : Stays x)
    (hf : ∀ a, Stays (f a)) : Stays (x >>= f) := by
  obtain ⟨a, ha⟩ := hx
  exact stays_bind.mpr ⟨a, ha, hf a⟩

/-- What is done behind it does not matter when it stays inside anyway. -/
theorem stays_bind_of_forall {x : Checked ν α} {f : α → Checked ν β} (hf : ∀ a, Stays (f a)) :
    Stays (x >>= f) ↔ Stays x := by
  rw [stays_bind]
  exact ⟨fun ⟨a, ha, _⟩ => ⟨a, ha⟩, fun ⟨a, ha⟩ => ⟨a, ha, hf a⟩⟩

/-- And what is done before it is passed over when it stays inside itself. -/
theorem stays_bind_iff {x : Checked ν α} {f : α → Checked ν β} {P : Prop} (hx : Stays x)
    (hf : ∀ a, Stays (f a) ↔ P) : Stays (x >>= f) ↔ P := by
  obtain ⟨a, ha⟩ := hx
  rw [stays_bind]
  constructor
  · intro ⟨b, _, hb⟩
    exact (hf b).mp hb
  · intro hP
    exact ⟨a, ha, (hf a).mpr hP⟩

theorem touch_stays_iff (vec : ν) (size off len : Nat) :
    Stays (touch vec size off len) ↔ off + len ≤ size := by
  unfold touch Stays
  by_cases h : off + len ≤ size
  · rw [if_pos h]
    exact ⟨fun _ => h, fun _ => ⟨(), rfl⟩⟩
  · rw [if_neg h]
    exact ⟨fun hstays => absurd hstays (not_stays_error _), fun h' => absurd h' h⟩

/-- An element can be changed when there is one. -/
theorem modifyAt_stays_iff (vec : ν) (v : List γ) (i : Nat) (f : γ → γ) :
    Stays (modifyAt vec v i f) ↔ i < v.length := by
  unfold modifyAt
  rw [stays_bind_of_forall fun _ => stays_pure _]
  exact touch_stays_iff vec v.length i 1

/-- Vectors can be compared as far as both of them go. -/
theorem sameFirst_stays_iff [BEq γ] (vec vec' : ν) (v v' : List γ) (n : Nat) :
    Stays (sameFirst vec vec' v v' n) ↔ n ≤ v.length ∧ n ≤ v'.length := by
  have hfirst := touch_stays_iff vec v.length 0 n
  have hsecond := touch_stays_iff vec' v'.length 0 n
  rw [Nat.zero_add] at hfirst hsecond
  unfold sameFirst
  rw [← hfirst, ← hsecond, stays_bind]
  constructor
  · -- the second vector is only looked at behind the first
    intro ⟨a, ha, hrest⟩
    rw [stays_bind_of_forall fun _ => stays_pure _] at hrest
    exact ⟨⟨a, ha⟩, hrest⟩
  · intro ⟨⟨a, ha⟩, hrest⟩
    refine ⟨a, ha, ?_⟩
    rw [stays_bind_of_forall fun _ => stays_pure _]
    exact hrest

/-- When the comparison comes out as equal. -/
theorem sameFirst_true_iff [BEq γ] [LawfulBEq γ] (vec vec' : ν) (v v' : List γ) (n : Nat) :
    sameFirst vec vec' v v' n = .ok true ↔
      n ≤ v.length ∧ n ≤ v'.length ∧ v.take n = v'.take n := by
  have hstays := sameFirst_stays_iff vec vec' v v' n
  by_cases hlen : n ≤ v.length ∧ n ≤ v'.length
  · have htouch : ∀ (vec : ν) {size : Nat}, n ≤ size → touch vec size 0 n = .ok () :=
      fun vec size h => if_pos (by omega)
    unfold sameFirst
    rw [htouch vec hlen.1, htouch vec' hlen.2]
    show Except.ok (v.take n == v'.take n) = Except.ok true ↔ _
    rw [Except.ok.injEq, beq_iff_eq]
    exact ⟨fun h => ⟨hlen.1, hlen.2, h⟩, fun h => h.2.2⟩
  · constructor
    · intro h
      exact absurd (hstays.mp ⟨true, h⟩) hlen
    · intro h
      exact absurd ⟨h.1, h.2.1⟩ hlen

/-! ## Section 3: What is said of a result -/

/-- If the computation comes to its end, then with such a result. -/
def Ends (x : Checked ν α) (P : α → Prop) : Prop := ∀ a, x = .ok a → P a

theorem ends_pure {P : α → Prop} {a : α} (h : P a) : Ends (pure a : Checked ν α) P := by
  intro b hb
  cases hb
  exact h

/-- **Sequence rule** for results. -/
theorem Ends.bind {x : Checked ν α} {f : α → Checked ν β} {P : α → Prop} {Q : β → Prop}
    (hx : Ends x P) (hf : ∀ a, P a → Ends (f a) Q) : Ends (x >>= f) Q := by
  intro b hb
  cases hresult : x with
  | error r =>
    rw [hresult] at hb
    cases hb
  | ok a =>
    rw [hresult] at hb
    exact hf a (hx a hresult) b hb

/-- What comes first does not matter when the second computation ends so anyway. -/
theorem ends_bind_of_forall {x : Checked ν α} {f : α → Checked ν β} {Q : β → Prop}
    (hf : ∀ a, Ends (f a) Q) : Ends (x >>= f) Q := by
  have hx : Ends x fun _ => True := fun _ _ => trivial
  exact hx.bind fun a _ => hf a

/-! ## Section 4: Failures that are counted

    The failures that a result reports are a number, which no computation lowers. -/

/-- The computation comes to its end, and its result reports `n` failures. -/
def Clean (x : Checked ν α) (fails : α → Nat) (n : Nat) : Prop := ∃ a, x = .ok a ∧ fails a = n

theorem clean_pure {fails : α → Nat} {n : Nat} {a : α} :
    Clean (pure a : Checked ν α) fails n ↔ fails a = n := by
  constructor
  · intro ⟨b, hb, hn⟩
    cases hb
    exact hn
  · intro hn
    exact ⟨a, rfl, hn⟩

/-- No failure is taken back by a sequence when neither of its parts does so. -/
theorem ends_bind_le {x : Checked ν α} {f : α → Checked ν β} {fails : α → Nat}
    {fails' : β → Nat} {n : Nat} (hx : Ends x fun a => n ≤ fails a)
    (hf : ∀ a, Ends (f a) fun b => fails a ≤ fails' b) : Ends (x >>= f) fun b => n ≤ fails' b :=
  hx.bind fun a ha b hb => Nat.le_trans ha (hf a b hb)

/-- **Sequence rule** for failures: the two computations are clean one by one, as neither
    takes back what the other reports. -/
theorem clean_bind {x : Checked ν α} {f : α → Checked ν β} {fails : α → Nat} {fails' : β → Nat}
    {n : Nat} (hx : Ends x fun a => n ≤ fails a)
    (hf : ∀ a, Ends (f a) fun b => fails a ≤ fails' b) :
    Clean (x >>= f) fails' n ↔ ∃ a, x = .ok a ∧ fails a = n ∧ Clean (f a) fails' n := by
  cases x with
  | error r =>
    constructor
    · intro ⟨b, hb, _⟩
      cases hb
    · intro ⟨a, ha, _⟩
      cases ha
  | ok a =>
    constructor
    · intro ⟨b, hb, hn⟩
      have hlow : n ≤ fails a := hx a rfl
      have hhigh : fails a ≤ fails' b := hf a b hb
      exact ⟨a, rfl, by omega, b, hb, hn⟩
    · intro ⟨a', ha, _, hclean⟩
      cases ha
      exact hclean

/-- The same, by what the two computations come down to. -/
theorem clean_bind_iff {x : Checked ν α} {f : α → Checked ν β} {fails : α → Nat}
    {fails' : β → Nat} {n : Nat} {P Q : Prop} (hx : Ends x fun a => n ≤ fails a)
    (hf : ∀ a, Ends (f a) fun b => fails a ≤ fails' b) (hP : Clean x fails n ↔ P)
    (hQ : P → ∀ a, x = .ok a → fails a = n → (Clean (f a) fails' n ↔ Q)) :
    Clean (x >>= f) fails' n ↔ P ∧ Q := by
  rw [clean_bind hx hf, ← hP]
  constructor
  · intro ⟨a, ha, hn, hclean⟩
    exact ⟨⟨a, ha, hn⟩, (hQ (hP.mp ⟨a, ha, hn⟩) a ha hn).mp hclean⟩
  · intro ⟨hfirst, hq⟩
    obtain ⟨a, ha, hn⟩ := hfirst
    exact ⟨a, ha, hn, (hQ (hP.mp ⟨a, ha, hn⟩) a ha hn).mpr hq⟩

/-- A test is clean when it comes out as true, if it reports a failure otherwise. -/
theorem clean_test {x : Checked ν Bool} {f : Bool → α} {fails : α → Nat} {n : Nat}
    (htrue : fails (f true) = n) (hfalse : fails (f false) = n + 1) :
    Clean (x >>= fun b => pure (f b)) fails n ↔ x = .ok true := by
  cases x with
  | error r =>
    constructor
    · intro ⟨_, h, _⟩
      cases h
    · intro h
      cases h
  | ok b =>
    show Clean (pure (f b)) fails n ↔ _
    rw [clean_pure, Except.ok.injEq]
    cases b with
    | true => exact ⟨fun _ => rfl, fun _ => htrue⟩
    | false =>
      constructor
      · intro h
        omega
      · intro h
        cases h

end CheckedVectors
