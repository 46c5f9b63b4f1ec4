import Mathlib.Data.List.Infix

/-! # Searching for a Run of Bytes

    The loop that tries every offset of a buffer and compares as many bytes as the needle
    has.

    * `occursIn_iff`: it finds the needle exactly when the needle stands somewhere in the
      buffer, at the very beginning and the very end included.
    * `infix_of_repeated`: a word that is written again and again stands whole in every
      stretch of the result that is not shorter than twice its length less one.
-/

namespace ByteSearch

variable {α : Type*}

/-! ## Section 1: The search -/

/-- A stretch of a list, by its offset. -/
theorem infix_iff_drop_take {l data : List α} :
    l <:+: data ↔ ∃ i, i + l.length ≤ data.length ∧ (data.drop i).take l.length = l := by
  constructor
  · intro h
    obtain ⟨s, t, hdata⟩ := h
    subst hdata
    refine ⟨s.length, ?_, ?_⟩
    · simp only [List.length_append]
      omega
    · rw [List.append_assoc, List.drop_left, List.take_left]
  · intro h
    obtain ⟨i, -, heq⟩ := h
    have hprefix : l <+: data.drop i := by
      rw [← heq]
      exact List.take_prefix _ _
    exact hprefix.isInfix.trans (List.drop_suffix i data).isInfix

section search
variable [DecidableEq α]

/-- `memcmp(p + i, needle, m) == 0`. -/
def matchesAt (needle data : List α) (i : Nat) : Bool :=
  (data.drop i).take needle.length == needle

/-- `for (i = 0; i + m <= cb; ++i) if (matchesAt i) return true; return false`. -/
def occursIn (needle data : List α) : Bool :=
  (List.range (data.length + 1 - needle.length)).any (matchesAt needle data)

/-- **The search is right**. -/
theorem occursIn_iff (needle data : List α) : occursIn needle data = true ↔ needle <:+: data := by
  unfold occursIn matchesAt
  rw [List.any_eq_true, infix_iff_drop_take]
  constructor
  · intro h
    obtain ⟨i, hi, heq⟩ := h
    rw [List.mem_range] at hi
    exact ⟨i, by omega, by simpa using heq⟩
  · intro h
    obtain ⟨i, hi, heq⟩ := h
    refine ⟨i, ?_, by simpa using heq⟩
    rw [List.mem_range]
    omega

end search

/-! ## Section 2: A word written again and again -/

/-- The first `cb` letters of a word that is written again and again. -/
def repeated [Inhabited α] (word : List α) (cb : Nat) : List α :=
  (List.range cb).map fun i => word.getD (i % word.length) default

section repeated
variable [Inhabited α] {word : List α} {cb : Nat}

theorem repeated_length (word : List α) (cb : Nat) : (repeated word cb).length = cb := by
  simp [repeated]

theorem getElem?_repeated {i : Nat} (hi : i < cb) :
    (repeated word cb)[i]? = some (word.getD (i % word.length) default) := by
  unfold repeated
  rw [List.getElem?_map, List.getElem?_range hi]
  rfl

/-- At each multiple of its length the word begins anew. -/
theorem repeated_at_multiple {q : Nat} (hq : word.length * q + word.length ≤ cb) :
    ((repeated word cb).drop (word.length * q)).take word.length = word := by
  apply List.ext_getElem?
  intro i
  by_cases hi : i < word.length
  · rw [List.getElem?_take_of_lt hi, List.getElem?_drop, getElem?_repeated (by omega),
      Nat.mul_add_mod, Nat.mod_eq_of_lt hi, List.getD_eq_getElem?_getD,
      List.getElem?_eq_getElem hi]
    rfl
  · rw [List.getElem?_eq_none (by rw [List.length_take]; omega),
      List.getElem?_eq_none (by omega)]

/-- **A stretch that is long enough holds the whole word**, wherever it begins. -/
theorem infix_of_repeated {fragment : List α} (hword : word ≠ [])
    (hfragment : fragment <:+: repeated word cb)
    (hlen : 2 * word.length - 1 ≤ fragment.length) : word <:+: fragment := by
  obtain ⟨i, hi, heq⟩ := infix_iff_drop_take.mp hfragment
  rw [repeated_length] at hi
  have hpos : 0 < word.length := List.length_pos_iff.mpr hword
  -- the first multiple of the length at or behind the beginning of the stretch
  let q := (i + (word.length - 1)) / word.length
  have hlow : i ≤ word.length * q := by
    have hdiv := Nat.div_add_mod (i + (word.length - 1)) word.length
    have hmod := Nat.mod_lt (i + (word.length - 1)) hpos
    show i ≤ word.length * ((i + (word.length - 1)) / word.length)
    omega
  have hhigh : word.length * q ≤ i + (word.length - 1) := Nat.mul_div_le _ _
  have hword' : ((repeated word cb).drop (word.length * q)).take word.length = word :=
    repeated_at_multiple (by omega)
  apply infix_iff_drop_take.mpr
  refine ⟨word.length * q - i, by omega, ?_⟩
  calc (fragment.drop (word.length * q - i)).take word.length
      = ((((repeated word cb).drop i).take fragment.length).drop
          (word.length * q - i)).take word.length := by rw [heq]
    _ = ((repeated word cb).drop (word.length * q)).take word.length := by
        rw [List.drop_take, List.drop_drop, List.take_take, Nat.add_sub_cancel' hlow,
          Nat.min_eq_left (by omega)]
    _ = word := hword'

end repeated

end ByteSearch
