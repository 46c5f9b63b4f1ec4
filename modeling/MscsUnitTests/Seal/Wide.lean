import Mathlib.Data.List.Chain
import Mathlib.Data.Nat.Bitwise
import MscsUnitTests.Lib.Unicode

/-! # The Seal Vectors: Addresses

    `WideFromUtf8` of `seal_interop.cpp` makes the native wide string of an address
    from its UTF-8 bytes. It is compiled twice, for a `wchar_t` of two bytes and of
    four, and the two ends of a sealed body must agree on what they transcribe.
-/

open Unicode

namespace Seal

/-! ## Section 1: The decoder -/

/-- `WCHAR_MAX > 0xFFFFu` or not. -/
inductive WcharBuild where
  | two | four
  deriving DecidableEq

/-- The lead byte: the bits it carries, and how many bytes follow (`cbE`). -/
def leadByte (c : UInt8) : Option (Nat × Nat) :=
  if c < 0x80 then some (c.toNat, 0)
  else if c &&& 0xE0 = 0xC0 then some ((c &&& 0x1F).toNat, 1)
  else if c &&& 0xF0 = 0xE0 then some ((c &&& 0x0F).toNat, 2)
  else if c &&& 0xF8 = 0xF0 then some ((c &&& 0x07).toNat, 3)
  else none

/-- The loop over the bytes that follow. -/
def following : Nat → Nat → List UInt8 → Option (Nat × List UInt8)
  | 0, cp, rest => some (cp, rest)
  | _ + 1, _, [] => none
  | k + 1, cp, cc :: rest =>
    if cc &&& 0xC0 ≠ 0x80 then none
    else following k (cp <<< 6 ||| (cc &&& 0x3F).toNat) rest

/-- One turn of the outer loop up to the range check: the code point, and what is left. -/
def nextPoint : List UInt8 → Option (Nat × List UInt8)
  | [] => none
  | c :: rest =>
    match leadByte c with
    | none => none
    | some (cp, cbE) =>
      -- truncated sequence
      if rest.length < cbE then none else following cbE cp rest

/-- What is pushed for a code point. -/
def WcharBuild.push : WcharBuild → Nat → List Nat
  | .four, cp => [cp]
  | .two, cp =>
    if cp ≥ 0x10000 then
      [0xD800 + ((cp - 0x10000) >>> 10), 0xDC00 + ((cp - 0x10000) &&& 0x3FF)]
    else [cp]

/-- The outer loop. Every turn takes a byte, so `fuel` is the number of bytes. -/
def wideLoop (b : WcharBuild) : Nat → List UInt8 → List Nat → Option (List Nat)
  | _, [], sOut => some sOut
  | 0, _ :: _, _ => none
  | fuel + 1, c :: rest, sOut =>
    match nextPoint (c :: rest) with
    | none => none
    | some (cp, rest') => if cp > 0x10FFFF then none else wideLoop b fuel rest' (sOut ++ b.push cp)

/-- `WideFromUtf8`: the wide string, as units, or false. -/
def wideFromUtf8 (b : WcharBuild) (v : List UInt8) : Option (List Nat) :=
  wideLoop b v.length v []

/-! ## Section 2: What a turn takes -/

theorem following_length {k cp : Nat} {rest : List UInt8} {cp' : Nat} {rest' : List UInt8}
    (h : following k cp rest = some (cp', rest')) : rest'.length + k = rest.length := by
  induction k generalizing cp rest with
  | zero =>
    cases h
    rfl
  | succ k ih =>
    cases rest with
    | nil => cases h
    | cons cc rest =>
      unfold following at h
      split at h
      · cases h
      · have hk := ih h
        rw [List.length_cons]
        omega

theorem nextPoint_cons (c : UInt8) (rest : List UInt8) :
    nextPoint (c :: rest) =
      match leadByte c with
      | none => none
      | some (cp, cbE) => if rest.length < cbE then none else following cbE cp rest := rfl

theorem nextPoint_length {v : List UInt8} {cp : Nat} {rest : List UInt8}
    (h : nextPoint v = some (cp, rest)) : rest.length < v.length := by
  cases v with
  | nil => cases h
  | cons c v =>
    rw [nextPoint_cons] at h
    cases hlead : leadByte c with
    | none =>
      rw [hlead] at h
      cases h
    | some q =>
      rw [hlead] at h
      dsimp only at h
      split at h
      · cases h
      · have hk := following_length h
        rw [List.length_cons]
        omega

theorem wideLoop_cons (b : WcharBuild) (fuel : Nat) (c : UInt8) (v : List UInt8) (sOut : List Nat) :
    wideLoop b (fuel + 1) (c :: v) sOut =
      match nextPoint (c :: v) with
      | none => none
      | some (cp, rest) =>
        if cp > 0x10FFFF then none else wideLoop b fuel rest (sOut ++ b.push cp) := rfl

/-- More fuel than bytes makes no difference, and what was pushed stays in front. -/
theorem wideLoop_eq (b : WcharBuild) {fuel : Nat} {v : List UInt8} (h : v.length ≤ fuel)
    (sOut : List Nat) : wideLoop b fuel v sOut = (wideFromUtf8 b v).map (sOut ++ ·) := by
  induction fuel using Nat.strong_induction_on generalizing v sOut with
  | _ fuel ih =>
    cases v with
    | nil =>
      cases fuel <;> simp [wideLoop, wideFromUtf8]
    | cons c v =>
      cases fuel with
      | zero => cases h
      | succ fuel =>
        have hv : v.length ≤ fuel := Nat.le_of_succ_le_succ h
        unfold wideFromUtf8
        rw [List.length_cons, wideLoop_cons, wideLoop_cons]
        cases hnext : nextPoint (c :: v) with
        | none => rfl
        | some q =>
          obtain ⟨cp, rest⟩ := q
          have hrest : rest.length ≤ v.length := Nat.le_of_lt_succ (nextPoint_length hnext)
          dsimp only
          split
          · rfl
          · -- both loops go on with the same rest
            rw [ih fuel (Nat.lt_succ_self _) (hrest.trans hv) (sOut ++ b.push cp),
              ih v.length (by omega) hrest ([] ++ b.push cp)]
            cases wideFromUtf8 b rest <;> simp

/-- The loop, a turn at a time. -/
theorem wideFromUtf8_cons (b : WcharBuild) (c : UInt8) (v : List UInt8) :
    wideFromUtf8 b (c :: v) =
      match nextPoint (c :: v) with
      | none => none
      | some (cp, rest) =>
        if cp > 0x10FFFF then none else (wideFromUtf8 b rest).map (b.push cp ++ ·) := by
  unfold wideFromUtf8
  rw [List.length_cons, wideLoop_cons]
  cases hnext : nextPoint (c :: v) with
  | none => rfl
  | some q =>
    obtain ⟨cp, rest⟩ := q
    have hrest : rest.length ≤ v.length := Nat.le_of_lt_succ (nextPoint_length hnext)
    dsimp only
    rw [wideLoop_eq b hrest, List.nil_append]
    rfl

/-! ## Section 3: The sequences it takes -/

/-- A byte sequence the loop takes, and its code point. Nothing is said of which lead
    is used for which point. -/
inductive Takes : Nat → List UInt8 → Prop where
  | one {k : Nat} (hk : k < 128) : Takes k [UInt8.ofNat k]
  | two {k a : Nat} (hk : k < 32) (ha : a < 64) :
    Takes (k * 64 + a) [UInt8.ofNat (k + 192), UInt8.ofNat (a + 128)]
  | three {k a b : Nat} (hk : k < 16) (ha : a < 64) (hb : b < 64) :
    Takes ((k * 64 + a) * 64 + b)
      [UInt8.ofNat (k + 224), UInt8.ofNat (a + 128), UInt8.ofNat (b + 128)]
  | four {k a b d : Nat} (hk : k < 8) (ha : a < 64) (hb : b < 64) (hd : d < 64) :
    Takes (((k * 64 + a) * 64 + b) * 64 + d)
      [UInt8.ofNat (k + 240), UInt8.ofNat (a + 128), UInt8.ofNat (b + 128), UInt8.ofNat (d + 128)]

theorem leadByte_one : ∀ k < 128, leadByte (UInt8.ofNat k) = some (k, 0) := by decide

theorem leadByte_two : ∀ k < 32, leadByte (UInt8.ofNat (k + 192)) = some (k, 1) := by decide

theorem leadByte_three : ∀ k < 16, leadByte (UInt8.ofNat (k + 224)) = some (k, 2) := by decide

theorem leadByte_four : ∀ k < 8, leadByte (UInt8.ofNat (k + 240)) = some (k, 3) := by decide

/-- A byte of a range, by its place in the range. -/
theorem byte_in_range (lo n : Nat) (c : UInt8) (hlo : lo ≤ c.toNat) (hn : c.toNat < lo + n) :
    ∃ k < n, c = UInt8.ofNat (k + lo) := by
  refine ⟨c.toNat - lo, by omega, ?_⟩
  rw [Nat.sub_add_cancel hlo, UInt8.ofNat_toNat]

/-- The four kinds of lead byte, and no others. -/
theorem leadByte_cases {c : UInt8} {q : Nat × Nat} (h : leadByte c = some q) :
    (∃ k < 128, c = UInt8.ofNat k ∧ q = (k, 0)) ∨ (∃ k < 32, c = UInt8.ofNat (k + 192) ∧ q = (k, 1)) ∨
    (∃ k < 16, c = UInt8.ofNat (k + 224) ∧ q = (k, 2)) ∨
    (∃ k < 8, c = UInt8.ofNat (k + 240) ∧ q = (k, 3)) := by
  have hlt := c.toNat_lt
  by_cases h₁ : c.toNat < 128
  · obtain ⟨k, hk, rfl⟩ := byte_in_range 0 128 c (Nat.zero_le _) (by omega)
    rw [Nat.add_zero, leadByte_one k hk] at h
    exact Or.inl ⟨k, hk, rfl, (Option.some.inj h).symm⟩
  by_cases h₂ : c.toNat < 192
  · -- a byte that only ever follows
    have hnone : ∀ n < 64, leadByte (UInt8.ofNat (n + 128)) = none := by decide
    obtain ⟨k, hk, rfl⟩ := byte_in_range 128 64 c (by omega) (by omega)
    rw [hnone k hk] at h
    cases h
  by_cases h₃ : c.toNat < 224
  · obtain ⟨k, hk, rfl⟩ := byte_in_range 192 32 c (by omega) (by omega)
    rw [leadByte_two k hk] at h
    exact Or.inr (Or.inl ⟨k, hk, rfl, (Option.some.inj h).symm⟩)
  by_cases h₄ : c.toNat < 240
  · obtain ⟨k, hk, rfl⟩ := byte_in_range 224 16 c (by omega) (by omega)
    rw [leadByte_three k hk] at h
    exact Or.inr (Or.inr (Or.inl ⟨k, hk, rfl, (Option.some.inj h).symm⟩))
  by_cases h₅ : c.toNat < 248
  · obtain ⟨k, hk, rfl⟩ := byte_in_range 240 8 c (by omega) (by omega)
    rw [leadByte_four k hk] at h
    exact Or.inr (Or.inr (Or.inr ⟨k, hk, rfl, (Option.some.inj h).symm⟩))
  · have hnone : ∀ n < 8, leadByte (UInt8.ofNat (n + 248)) = none := by decide
    obtain ⟨k, hk, rfl⟩ := byte_in_range 248 8 c (by omega) (by omega)
    rw [hnone k hk] at h
    cases h

/-- A byte that follows carries six bits. -/
theorem following_cons (k cp : Nat) {a : Nat} (ha : a < 64) (rest : List UInt8) :
    following (k + 1) cp (UInt8.ofNat (a + 128) :: rest) = following k (cp * 64 + a) rest := by
  have hbits : ∀ a < 64, UInt8.ofNat (a + 128) &&& 0xC0 = 0x80 ∧
      (UInt8.ofNat (a + 128) &&& 0x3F).toNat = a := by decide
  obtain ⟨htag, hlow⟩ := hbits a ha
  have hor : cp <<< 6 ||| a = cp * 64 + a := by
    rw [← Nat.shiftLeft_add_eq_or_of_lt ha cp, Nat.shiftLeft_eq]
  rw [following, if_neg (by rw [htag]; exact fun h => h rfl), hlow, hor]

theorem following_succ {k cp : Nat} {v : List UInt8} {q : Nat × List UInt8}
    (h : following (k + 1) cp v = some q) :
    ∃ a rest, a < 64 ∧ v = UInt8.ofNat (a + 128) :: rest ∧
      following k (cp * 64 + a) rest = some q := by
  cases v with
  | nil => cases h
  | cons cc rest =>
    have hfollow : ∀ n < 256, UInt8.ofNat n &&& 0xC0 = 0x80 → 128 ≤ n ∧ n < 192 := by
      decide +kernel
    have htag : cc &&& 0xC0 = 0x80 := by
      by_contra hno
      rw [following, if_pos hno] at h
      cases h
    rw [← UInt8.ofNat_toNat (x := cc)] at htag
    obtain ⟨hlow, hhigh⟩ := hfollow cc.toNat cc.toNat_lt htag
    obtain ⟨a, ha, rfl⟩ := byte_in_range 128 64 cc hlow hhigh
    rw [following_cons _ _ ha] at h
    exact ⟨a, rest, ha, rfl, h⟩

/-- A turn takes exactly the sequences that are taken. -/
theorem nextPoint_takes {cp : Nat} {s : List UInt8} (h : Takes cp s) (rest : List UInt8) :
    nextPoint (s ++ rest) = some (cp, rest) := by
  cases h with
  | one hk =>
    rw [List.cons_append, nextPoint_cons, leadByte_one _ hk]
    rfl
  | two hk ha =>
    rw [List.cons_append, nextPoint_cons, leadByte_two _ hk]
    dsimp only
    rw [if_neg (by simp), List.cons_append, following_cons _ _ ha]
    rfl
  | three hk ha hb =>
    rw [List.cons_append, nextPoint_cons, leadByte_three _ hk]
    dsimp only
    rw [if_neg (by simp), List.cons_append, following_cons _ _ ha, List.cons_append,
      following_cons _ _ hb]
    rfl
  | four hk ha hb hd =>
    rw [List.cons_append, nextPoint_cons, leadByte_four _ hk]
    dsimp only
    rw [if_neg (by simp), List.cons_append, following_cons _ _ ha, List.cons_append,
      following_cons _ _ hb, List.cons_append, following_cons _ _ hd]
    rfl

theorem takes_of_nextPoint {v : List UInt8} {cp : Nat} {rest : List UInt8}
    (h : nextPoint v = some (cp, rest)) : ∃ s, Takes cp s ∧ v = s ++ rest := by
  cases v with
  | nil => cases h
  | cons c v =>
    rw [nextPoint_cons] at h
    cases hlead : leadByte c with
    | none =>
      rw [hlead] at h
      cases h
    | some q =>
      rw [hlead] at h
      dsimp only at h
      split at h
      · cases h
      · rcases leadByte_cases hlead with ⟨k, hk, rfl, rfl⟩ | ⟨k, hk, rfl, rfl⟩ | ⟨k, hk, rfl, rfl⟩ |
          ⟨k, hk, rfl, rfl⟩
        · cases h
          exact ⟨_, .one hk, rfl⟩
        · obtain ⟨a, v₁, ha, rfl, h₁⟩ := following_succ h
          cases h₁
          exact ⟨_, .two hk ha, rfl⟩
        · obtain ⟨a, v₁, ha, rfl, h₁⟩ := following_succ h
          obtain ⟨b, v₂, hb, rfl, h₂⟩ := following_succ h₁
          cases h₂
          exact ⟨_, .three hk ha hb, rfl⟩
        · obtain ⟨a, v₁, ha, rfl, h₁⟩ := following_succ h
          obtain ⟨b, v₂, hb, rfl, h₂⟩ := following_succ h₁
          obtain ⟨d, v₃, hd, rfl, h₃⟩ := following_succ h₂
          cases h₃
          exact ⟨_, .four hk ha hb hd, rfl⟩

theorem Takes.ne_nil {cp : Nat} {s : List UInt8} (h : Takes cp s) : s ≠ [] := by
  cases h <;> exact List.cons_ne_nil _ _

/-- The loop, a sequence at a time. -/
theorem wideFromUtf8_takes (b : WcharBuild) {cp : Nat} {s : List UInt8} (h : Takes cp s)
    (hmax : cp ≤ 0x10FFFF) (rest : List UInt8) :
    wideFromUtf8 b (s ++ rest) = (wideFromUtf8 b rest).map (b.push cp ++ ·) := by
  have hnext := nextPoint_takes h rest
  cases hs : s ++ rest with
  | nil => exact absurd (List.append_eq_nil_iff.mp hs).1 h.ne_nil
  | cons c v =>
    rw [hs] at hnext
    rw [wideFromUtf8_cons, hnext]
    dsimp only
    rw [if_neg (by omega)]

/-! ## Section 4: Well-formed addresses -/

/-- The encoding form of a build. -/
def WcharBuild.encode : WcharBuild → List Char → List Nat
  | .two => utf16
  | .four => utf32

/-- What a wide string of a build denotes. -/
def WcharBuild.denotes : WcharBuild → List Nat → Option (List Char)
  | .two => decode16
  | .four => decode32

theorem denotes_encode (b : WcharBuild) (cs : List Char) : b.denotes (b.encode cs) = some cs := by
  cases b with
  | two => exact decode16_utf16 cs
  | four => exact decode32_utf32 cs

theorem encode_cons (b : WcharBuild) (c : Char) (cs : List Char) :
    b.encode (c :: cs) = b.push (scalar c) ++ b.encode cs := by
  cases b with
  | two =>
    have hshift : (scalar c - 0x10000) >>> 10 = (scalar c - 0x10000) / 0x400 :=
      Nat.shiftRight_eq_div_pow _ _
    have hmask : (scalar c - 0x10000) &&& 0x3FF = (scalar c - 0x10000) % 0x400 :=
      Nat.and_two_pow_sub_one_eq_mod _ 10
    show utf16Char c ++ utf16 cs = _
    congr 1
    unfold utf16Char WcharBuild.push
    dsimp only
    rw [hshift, hmask]
    by_cases hc : scalar c < 0x10000
    · rw [if_pos hc, if_neg (by omega)]
    · rw [if_neg hc, if_pos (by omega)]
  | four => rfl

/-- The shortest form of a scalar value is one of the sequences that are taken. -/
theorem takes_utf8 (c : Char) : Takes (scalar c) (String.utf8EncodeChar c) := by
  have hmax := scalar_valid c
  by_cases h₁ : scalar c < 128
  · rw [utf8_one h₁]
    exact .one h₁
  by_cases h₂ : scalar c < 0x800
  · have hv : scalar c = scalar c / 64 * 64 + scalar c % 64 := by omega
    rw [utf8_two hv (by omega) (by omega) (by omega)]
    nth_rewrite 1 [hv]
    exact .two (by omega) (by omega)
  by_cases h₃ : scalar c < 0x10000
  · have hv : scalar c = (scalar c / 4096 * 64 + scalar c / 64 % 64) * 64 + scalar c % 64 := by omega
    rw [utf8_three hv (by omega) (by omega) (by omega) (by omega)]
    nth_rewrite 1 [hv]
    exact .three (by omega) (by omega) (by omega)
  · have hv : scalar c = ((scalar c / 262144 * 64 + scalar c / 4096 % 64) * 64 + scalar c / 64 % 64)
        * 64 + scalar c % 64 := by omega
    rw [utf8_four hv (by omega) (by omega) (by omega) (by omega) (by omega)]
    nth_rewrite 1 [hv]
    exact .four (by omega) (by omega) (by omega) (by omega)

theorem wideFromUtf8_utf8 (b : WcharBuild) (cs : List Char) :
    wideFromUtf8 b (utf8 cs) = some (b.encode cs) := by
  induction cs with
  | nil => cases b <;> rfl
  | cons c cs ih =>
    have hmax := scalar_valid c
    unfold utf8 at ih ⊢
    rw [List.flatMap_cons, wideFromUtf8_takes b (takes_utf8 c) (by omega), ih, encode_cons]
    rfl

/-- **The two builds agree**: on a well-formed address both succeed, one with the scalar
    values and one with their UTF-16, and either denotes the address. -/
theorem builds_agree (cs : List Char) :
    wideFromUtf8 .four (utf8 cs) = some (utf32 cs) ∧ decode32 (utf32 cs) = some cs ∧
    wideFromUtf8 .two (utf8 cs) = some (utf16 cs) ∧ decode16 (utf16 cs) = some cs :=
  ⟨wideFromUtf8_utf8 .four cs, decode32_utf32 cs, wideFromUtf8_utf8 .two cs, decode16_utf16 cs⟩

/-- An accented letter and a character outside the first plane. -/
example : wideFromUtf8 .two (utf8 ['é', '😀']) = some [0xE9, 0xD83D, 0xDE00] ∧
    wideFromUtf8 .four (utf8 ['é', '😀']) = some [0xE9, 0x1F600] := by
  decide +kernel

/-! ## Section 5: What else is accepted -/

/-- A lead byte and the byte behind it, that begin a form longer than the shortest. -/
def Overlong (x y : UInt8) : Prop :=
  x = 0xC0 ∨ x = 0xC1 ∨ (x = 0xE0 ∧ y < 0xA0) ∨ (x = 0xF0 ∧ y < 0x90)

/-- A lead byte and the byte behind it, that begin the form of a surrogate. -/
def SurrogateForm (x y : UInt8) : Prop :=
  x = 0xED ∧ 0xA0 ≤ y

instance (x y : UInt8) : Decidable (Overlong x y) :=
  inferInstanceAs (Decidable (_ ∨ _))

instance (x y : UInt8) : Decidable (SurrogateForm x y) :=
  inferInstanceAs (Decidable (_ ∧ _))

/-- Two neighbours that are neither. -/
def Plain (x y : UInt8) : Prop :=
  ¬ Overlong x y ∧ ¬ SurrogateForm x y

instance (x y : UInt8) : Decidable (Plain x y) :=
  inferInstanceAs (Decidable (_ ∧ _))

theorem plain_low : ∀ n < 192, ∀ y, Plain (UInt8.ofNat n) y := by
  have hne : ∀ n < 192, UInt8.ofNat n ≠ 0xC0 ∧ UInt8.ofNat n ≠ 0xC1 ∧ UInt8.ofNat n ≠ 0xE0 ∧
      UInt8.ofNat n ≠ 0xF0 ∧ UInt8.ofNat n ≠ 0xED := by decide +kernel
  intro n hn y
  obtain ⟨h₁, h₂, h₃, h₄, h₅⟩ := hne n hn
  refine ⟨?_, fun h => h₅ h.1⟩
  intro h
  rcases h with h | h | h | h
  · exact h₁ h
  · exact h₂ h
  · exact h₃ h.1
  · exact h₄ h.1

theorem plain_two : ∀ k < 32, ∀ a < 64,
    (Plain (UInt8.ofNat (k + 192)) (UInt8.ofNat (a + 128)) ↔ 2 ≤ k) := by decide +kernel

theorem plain_three : ∀ k < 16, ∀ a < 64,
    (Plain (UInt8.ofNat (k + 224)) (UInt8.ofNat (a + 128)) ↔
      ¬ (k = 0 ∧ a < 32) ∧ ¬ (k = 13 ∧ 32 ≤ a)) := by decide +kernel

theorem plain_four : ∀ k < 8, ∀ a < 64,
    (Plain (UInt8.ofNat (k + 240)) (UInt8.ofNat (a + 128)) ↔ ¬ (k = 0 ∧ a < 16)) := by
  decide +kernel

/-- A code point with a form of its own is told by the form. -/
theorem Takes.unique {cp cp' : Nat} {s : List UInt8} (h : Takes cp s) (h' : Takes cp' s) :
    cp = cp' := by
  have h₁ := nextPoint_takes h []
  rw [nextPoint_takes h' []] at h₁
  exact (Prod.mk.inj (Option.some.inj h₁)).1.symm

/-- A form of one byte holds one of 128 code points, one of two bytes one of 0x800,
    one of three bytes one of 0x10000. -/
theorem scalar_lt_of_length {c : Char} :
    ((String.utf8EncodeChar c).length ≠ 1 → 128 ≤ scalar c) ∧
    ((String.utf8EncodeChar c).length = 3 → 0x800 ≤ scalar c) ∧
    ((String.utf8EncodeChar c).length = 4 → 0x10000 ≤ scalar c) := by
  rw [utf8EncodeChar_eq]
  split
  · simp
  · split
    · simp
      omega
    · split
      · simp
        omega
      · simp
        omega

/-- A sequence the loop takes is plain exactly when it is the form of a scalar value. -/
theorem Takes.plain_iff {cp : Nat} {s : List UInt8} (h : Takes cp s) (hmax : cp ≤ 0x10FFFF) :
    s.IsChain Plain ↔ ∃ c, String.utf8EncodeChar c = s := by
  -- whose form it is: the scalar value with this code point
  have hpoint : ∀ c, String.utf8EncodeChar c = s → scalar c = cp := by
    intro c hc
    have htakes := takes_utf8 c
    rw [hc] at htakes
    exact htakes.unique h
  constructor
  · intro hplain
    cases h with
    | one hk =>
      obtain ⟨c, _, hc⟩ := ofScalar_of_valid (n := cp) (Or.inl (by omega))
      exact ⟨c, by rw [utf8_one (by omega), hc]⟩
    | @two k a hk ha =>
      rw [List.isChain_pair, plain_two _ hk _ ha] at hplain
      obtain ⟨c, _, hc⟩ := ofScalar_of_valid (n := k * 64 + a) (Or.inl (by omega))
      exact ⟨c, utf8_two hc hplain hk ha⟩
    | @three k a b hk ha hb =>
      rw [List.isChain_cons_cons, plain_three _ hk _ ha] at hplain
      obtain ⟨⟨hlong, hsurrogate⟩, _⟩ := hplain
      obtain ⟨c, _, hc⟩ := ofScalar_of_valid (n := (k * 64 + a) * 64 + b) (by omega)
      exact ⟨c, utf8_three hc (by omega) hk ha hb⟩
    | @four k a b d hk ha hb hd =>
      rw [List.isChain_cons_cons, plain_four _ hk _ ha] at hplain
      obtain ⟨hlong, _⟩ := hplain
      obtain ⟨c, _, hc⟩ := ofScalar_of_valid (n := ((k * 64 + a) * 64 + b) * 64 + d) (by omega)
      exact ⟨c, utf8_four hc (by omega) hk ha hb hd⟩
  · intro hform
    obtain ⟨c, hc⟩ := hform
    have hcp := hpoint c hc
    have hlen := scalar_lt_of_length (c := c)
    have hvalid := scalar_valid c
    rw [hc, hcp] at hlen
    rw [hcp] at hvalid
    cases h with
    | one hk => exact List.isChain_singleton _
    | two hk ha =>
      rw [List.isChain_pair, plain_two _ hk _ ha]
      have hlow := hlen.1 (by simp)
      omega
    | three hk ha hb =>
      rw [List.isChain_cons_cons, List.isChain_pair, plain_three _ hk _ ha]
      have hlow := hlen.2.1 (by simp)
      refine ⟨⟨by omega, by omega⟩, plain_low _ (by omega) _⟩
    | four hk ha hb hd =>
      rw [List.isChain_cons_cons, List.isChain_cons_cons, List.isChain_pair, plain_four _ hk _ ha]
      have hlow := hlen.2.2 (by simp)
      exact ⟨by omega, plain_low _ (by omega) _, plain_low _ (by omega) _⟩

/-- Sequences are judged one by one: the last byte of one is never a lead byte of two. -/
theorem Takes.chain_append {cp : Nat} {s : List UInt8} (h : Takes cp s) (rest : List UInt8) :
    (s ++ rest).IsChain Plain ↔ s.IsChain Plain ∧ rest.IsChain Plain := by
  have hlast : ∃ front n, n < 192 ∧ s = front ++ [UInt8.ofNat n] := by
    cases h with
    | one hk => exact ⟨[], cp, by omega, rfl⟩
    | @two k a hk ha => exact ⟨[_], a + 128, by omega, rfl⟩
    | @three k a b hk ha hb => exact ⟨[_, _], b + 128, by omega, rfl⟩
    | @four k a b d hk ha hb hd => exact ⟨[_, _, _], d + 128, by omega, rfl⟩
  obtain ⟨front, n, hn, rfl⟩ := hlast
  rw [List.isChain_append]
  constructor
  · intro hchain
    exact ⟨hchain.1, hchain.2.1⟩
  · intro hchain
    refine ⟨hchain.1, hchain.2, ?_⟩
    intro x hx y hy
    rw [List.getLast?_concat] at hx
    cases hx
    exact plain_low n hn y

/-- UTF-8 is plain. -/
theorem chain_utf8 (cs : List Char) : (utf8 cs).IsChain Plain := by
  induction cs with
  | nil => exact List.isChain_nil
  | cons c cs ih =>
    have htakes := takes_utf8 c
    have hmax := scalar_valid c
    unfold utf8 at ih ⊢
    rw [List.flatMap_cons, htakes.chain_append, htakes.plain_iff (by omega)]
    exact ⟨⟨c, rfl⟩, ih⟩

/-- What is accepted and plain is UTF-8. -/
theorem utf8_of_chain (b : WcharBuild) {v : List UInt8} {w : List Nat}
    (h : wideFromUtf8 b v = some w) (hchain : v.IsChain Plain) : ∃ cs, utf8 cs = v := by
  induction hn : v.length using Nat.strong_induction_on generalizing v w with
  | _ n ih =>
    cases v with
    | nil => exact ⟨[], rfl⟩
    | cons c v =>
      rw [wideFromUtf8_cons] at h
      cases hnext : nextPoint (c :: v) with
      | none =>
        rw [hnext] at h
        cases h
      | some q =>
        obtain ⟨cp, rest⟩ := q
        rw [hnext] at h
        dsimp only at h
        split at h
        · cases h
        · next hmax =>
          -- the first sequence is the form of a scalar value, the rest by induction
          obtain ⟨w', hw', _⟩ := Option.map_eq_some_iff.mp h
          obtain ⟨s, htakes, hv⟩ := takes_of_nextPoint hnext
          rw [hv, htakes.chain_append] at hchain
          obtain ⟨d, hd⟩ := (htakes.plain_iff (by omega)).mp hchain.1
          obtain ⟨cs, hcs⟩ := ih rest.length (hn ▸ nextPoint_length hnext) hw' hchain.2 rfl
          refine ⟨d :: cs, ?_⟩
          rw [hv, ← hd, ← hcs]
          unfold utf8
          rw [List.flatMap_cons]

/-- Different vectors without such forms give different wide strings. -/
theorem wideFromUtf8_inj (b : WcharBuild) {v v' : List UInt8} {w : List Nat}
    (h : wideFromUtf8 b v = some w) (h' : wideFromUtf8 b v' = some w) (hv : v.IsChain Plain)
    (hv' : v'.IsChain Plain) : v = v' := by
  obtain ⟨cs, rfl⟩ := utf8_of_chain b h hv
  obtain ⟨cs', rfl⟩ := utf8_of_chain b h' hv'
  rw [wideFromUtf8_utf8] at h h'
  have hw : b.encode cs = b.encode cs' := Option.some.inj (h.trans h'.symm)
  have hdenotes := congrArg b.denotes hw
  rw [denotes_encode, denotes_encode] at hdenotes
  rw [Option.some.inj hdenotes]

/-- The bytes are the UTF-8 of a sequence that the wide string of either build denotes. -/
def GivenBack (v : List UInt8) : Prop :=
  ∃ cs, utf8 cs = v ∧ ∀ b, ∃ w, wideFromUtf8 b v = some w ∧ b.denotes w = some cs

/-- **What can be given back**: of the accepted byte vectors, exactly those without an
    overlong form and without the form of a surrogate. -/
theorem given_back_iff (b : WcharBuild) (v : List UInt8) (w : List Nat)
    (h : wideFromUtf8 b v = some w) : GivenBack v ↔ v.IsChain Plain := by
  constructor
  · intro hback
    obtain ⟨cs, hcs, _⟩ := hback
    rw [← hcs]
    exact chain_utf8 cs
  · intro hchain
    obtain ⟨cs, hcs⟩ := utf8_of_chain b h hchain
    refine ⟨cs, hcs, ?_⟩
    intro b'
    refine ⟨b'.encode cs, ?_, denotes_encode b' cs⟩
    rw [← hcs]
    exact wideFromUtf8_utf8 b' cs

theorem given_back_iff_letter : GivenBack [0xC3, 0xA9] ↔ List.IsChain Plain [0xC3, 0xA9] :=
  given_back_iff .two [0xC3, 0xA9] [0xE9] (by decide +kernel)

/-- The forms of two surrogates are accepted. With a two-byte `wchar_t` they make the
    string of another, honest address; with a four-byte one they make none at all. -/
theorem surrogates_are_accepted :
    wideFromUtf8 .two [0xED, 0xA0, 0x80, 0xED, 0xB0, 0x80] =
      wideFromUtf8 .two [0xF0, 0x90, 0x80, 0x80] ∧
    wideFromUtf8 .two [0xF0, 0x90, 0x80, 0x80] = some [0xD800, 0xDC00] ∧
    (wideFromUtf8 .four [0xED, 0xA0, 0x80, 0xED, 0xB0, 0x80]).map WcharBuild.four.denotes =
      some none ∧
    ¬ GivenBack [0xED, 0xA0, 0x80, 0xED, 0xB0, 0x80] := by
  refine ⟨by decide +kernel, by decide +kernel, by decide +kernel, ?_⟩
  intro hback
  obtain ⟨cs, hcs, _⟩ := hback
  have hchain := chain_utf8 cs
  rw [hcs] at hchain
  exact absurd hchain (by decide)

end Seal
