import Mathlib.Algebra.Group.Nat.Defs
import Mathlib.Logic.Function.Basic
import Mathlib.Data.List.GetD

/-! # Byte Buffers and Fixed-Width Words

    A buffer is a total map from offsets to bytes. A program that keeps a
    buffer and a length only means the bytes below the length; the rest of the
    buffer is what happened to be there.

    * `firstBytes`: the bytes below a length, as a list.
    * `copyInto`: `memcpy` / `memmove` (the source is read before anything is
      written, so overlapping runs are handled).
    * `rdU32`, `wrU32`, `notU32`: little-endian 32-bit words as naturals.
    * `u32Sub`: subtraction of C `unsigned` values, with wrap-around.
    * `rdBE16`, `wrBE16`: big-endian 16-bit words as naturals.
-/

namespace ByteMem

/-- A byte buffer, addressed from 0. -/
abbrev Mem : Type := Nat → UInt8

/-- The first `n` bytes of a buffer. -/
def firstBytes (m : Mem) (n : Nat) : List UInt8 :=
  (List.range n).map m

/-- A buffer that starts with the bytes of a list and is zero behind it. -/
def ofBytes (l : List UInt8) : Mem :=
  fun i => l.getD i 0

/-- Copy `n` bytes from `src + s` to `dst + d`. -/
def copyInto (dst : Mem) (d : Nat) (src : Mem) (s n : Nat) : Mem :=
  fun j => if d ≤ j ∧ j < d + n then src (s + (j - d)) else dst j

/-! ## First bytes -/

@[simp] theorem firstBytes_length (m : Mem) (n : Nat) : (firstBytes m n).length = n := by
  simp [firstBytes]

theorem firstBytes_getElem (m : Mem) (n i : Nat) (h : i < (firstBytes m n).length) :
    (firstBytes m n)[i] = m i := by
  simp [firstBytes]

theorem getElem?_firstBytes (m : Mem) (n i : Nat) :
    (firstBytes m n)[i]? = if i < n then some (m i) else none := by
  split
  · next hi =>
    rw [List.getElem?_eq_getElem (by simpa using hi), firstBytes_getElem]
  · next hi => exact List.getElem?_eq_none (by simpa using hi)

theorem firstBytes_eq_iff (m m' : Mem) (n : Nat) :
    firstBytes m n = firstBytes m' n ↔ ∀ i < n, m i = m' i := by
  unfold firstBytes
  rw [List.map_inj_left]
  simp

theorem firstBytes_take (m : Mem) (n k : Nat) :
    (firstBytes m n).take k = firstBytes m (min k n) := by
  unfold firstBytes
  rw [← List.map_take, List.take_range]

theorem firstBytes_add (m : Mem) (a b : Nat) :
    firstBytes m (a + b) = firstBytes m a ++ firstBytes (fun i => m (a + i)) b := by
  unfold firstBytes
  rw [List.range_add, List.map_append, List.map_map]
  rfl

theorem firstBytes_ofBytes (l : List UInt8) : firstBytes (ofBytes l) l.length = l := by
  apply List.ext_getElem
  · simp
  · intro i h₁ h₂
    rw [firstBytes_getElem]
    simp [ofBytes, h₂]

/-! ## Copying -/

theorem copyInto_inside (dst src : Mem) (d s n j : Nat) (h : d ≤ j) (h' : j < d + n) :
    copyInto dst d src s n j = src (s + (j - d)) := by
  simp [copyInto, h, h']

/-- The copy only looks at the source run it was given. -/
theorem copyInto_congr (dst src src' : Mem) (d s n : Nat)
    (h : ∀ i < n, src (s + i) = src' (s + i)) :
    copyInto dst d src s n = copyInto dst d src' s n := by
  funext j
  unfold copyInto
  split
  · exact h (j - d) (by omega)
  · rfl

/-- A copy in two parts. -/
theorem copyInto_copyInto (dst src : Mem) (d s a b : Nat) :
    copyInto (copyInto dst d src s a) (d + a) src (s + a) b = copyInto dst d src s (a + b) := by
  funext j
  unfold copyInto
  by_cases hlow : j < d + a
  · have hnot : ¬ (d + a ≤ j ∧ j < d + a + b) := by omega
    rw [if_neg hnot]
    by_cases hd : d ≤ j
    · rw [if_pos ⟨hd, hlow⟩, if_pos ⟨hd, by omega⟩]
    · rw [if_neg (by omega), if_neg (by omega)]
  · by_cases hhigh : j < d + (a + b)
    · rw [if_pos ⟨by omega, by omega⟩, if_pos ⟨by omega, hhigh⟩]
      congr 1
      omega
    · rw [if_neg (by omega), if_neg (by omega), if_neg (by omega)]

/-! ## Words -/

/-- Read a little-endian 32-bit word. -/
def rdU32 (m : Mem) (o : Nat) : Nat :=
  (m o).toNat + 256 * (m (o + 1)).toNat + 65536 * (m (o + 2)).toNat
    + 16777216 * (m (o + 3)).toNat

/-- Write a little-endian 32-bit word. -/
def wrU32 (m : Mem) (o v : Nat) : Mem :=
  fun j =>
    if j = o then UInt8.ofNat v
    else if j = o + 1 then UInt8.ofNat (v / 256)
    else if j = o + 2 then UInt8.ofNat (v / 65536)
    else if j = o + 3 then UInt8.ofNat (v / 16777216)
    else m j

/-- Bitwise complement of a 32-bit word. -/
def notU32 (v : Nat) : Nat :=
  2 ^ 32 - 1 - v

/-- `a - b` on C `unsigned`. -/
def u32Sub (a b : Nat) : Nat :=
  (a + (2 ^ 32 - b % 2 ^ 32)) % 2 ^ 32

theorem u32Sub_of_le {a b : Nat} (ha : a < 2 ^ 32) (h : b ≤ a) : u32Sub a b = a - b := by
  unfold u32Sub
  omega

theorem u32Sub_add {a b k : Nat} (h : k ≤ u32Sub a b) : u32Sub a (b + k) = u32Sub a b - k := by
  unfold u32Sub at h ⊢
  omega

theorem rdU32_congr (m m' : Mem) (o : Nat) (h : ∀ i, o ≤ i → i < o + 4 → m i = m' i) :
    rdU32 m o = rdU32 m' o := by
  unfold rdU32
  rw [h o (by omega) (by omega), h (o + 1) (by omega) (by omega),
    h (o + 2) (by omega) (by omega), h (o + 3) (by omega) (by omega)]

theorem rdU32_wrU32 (m : Mem) (o v : Nat) (hv : v < 2 ^ 32) : rdU32 (wrU32 m o v) o = v := by
  simp [rdU32, wrU32]
  omega

theorem wrU32_outside (m : Mem) (o v j : Nat) (h : j < o ∨ o + 4 ≤ j) :
    wrU32 m o v j = m j := by
  have h₀ : j ≠ o := by omega
  have h₁ : j ≠ o + 1 := by omega
  have h₂ : j ≠ o + 2 := by omega
  have h₃ : j ≠ o + 3 := by omega
  simp [wrU32, h₀, h₁, h₂, h₃]

theorem rdU32_wrU32_ne (m : Mem) (o p v : Nat) (h : p + 4 ≤ o ∨ o + 4 ≤ p) :
    rdU32 (wrU32 m o v) p = rdU32 m p := by
  apply rdU32_congr
  intro i h₁ h₂
  exact wrU32_outside m o v i (by omega)

/-- What is written back is what was read. -/
theorem wrU32_rdU32 (m m' : Mem) (o j : Nat) (h : o ≤ j) (h' : j < o + 4) :
    wrU32 m o (rdU32 m' o) j = m' j := by
  have hbyte : ∀ (v : Nat) (c : UInt8), v % 256 = c.toNat → UInt8.ofNat v = c := by
    intro v c hv
    apply UInt8.toNat_inj.mp
    rw [UInt8.toNat_ofNat']
    exact hv
  have h₀ := (m' o).toNat_lt
  have h₁ := (m' (o + 1)).toNat_lt
  have h₂ := (m' (o + 2)).toNat_lt
  have h₃ := (m' (o + 3)).toNat_lt
  have hcases : j = o ∨ j = o + 1 ∨ j = o + 2 ∨ j = o + 3 := by omega
  unfold wrU32 rdU32
  rcases hcases with rfl | rfl | rfl | rfl
  · rw [if_pos rfl]
    exact hbyte _ _ (by omega)
  · rw [if_neg (by omega), if_pos rfl]
    exact hbyte _ _ (by omega)
  · rw [if_neg (by omega), if_neg (by omega), if_pos rfl]
    exact hbyte _ _ (by omega)
  · rw [if_neg (by omega), if_neg (by omega), if_neg (by omega), if_pos rfl]
    exact hbyte _ _ (by omega)

/-! ## Big-endian words -/

/-- Read a big-endian 16-bit word. -/
def rdBE16 (m : Mem) (o : Nat) : Nat :=
  256 * (m o).toNat + (m (o + 1)).toNat

/-- Write a big-endian 16-bit word. -/
def wrBE16 (m : Mem) (o v : Nat) : Mem :=
  Function.update (Function.update m o (UInt8.ofNat (v / 256))) (o + 1) (UInt8.ofNat v)

/-- Two lists with a common beginning carry the same words there. -/
theorem rdBE16_ofBytes_congr {l l' : List UInt8} {k o : Nat} (h : l.take k = l'.take k)
    (ho : o + 2 ≤ k) : rdBE16 (ofBytes l) o = rdBE16 (ofBytes l') o := by
  have hbyte : ∀ i < k, ofBytes l i = ofBytes l' i := by
    intro i hi
    have hget : (l.take k)[i]? = (l'.take k)[i]? := by rw [h]
    rw [List.getElem?_take_of_lt hi, List.getElem?_take_of_lt hi] at hget
    unfold ofBytes
    rw [List.getD_eq_getElem?_getD, List.getD_eq_getElem?_getD, hget]
  unfold rdBE16
  rw [hbyte o (by omega), hbyte (o + 1) (by omega)]

theorem rdBE16_firstBytes (m : Mem) {n o : Nat} (ho : o + 2 ≤ n) :
    rdBE16 (ofBytes (firstBytes m n)) o = rdBE16 m o := by
  have hbyte : ∀ i < n, ofBytes (firstBytes m n) i = m i := by
    intro i hi
    unfold ofBytes
    rw [List.getD_eq_getElem _ _ (by simpa using hi), firstBytes_getElem]
  unfold rdBE16
  rw [hbyte o (by omega), hbyte (o + 1) (by omega)]

end ByteMem
