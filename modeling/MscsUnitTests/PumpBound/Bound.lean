import MscsUnitTests.Lib.Numerals

/-! # The Pump Bound: Does the Diagnostic Name the Bound that Is Enforced?

    `p2p_pumpbound.cpp` posts to a pump that nobody drains until a post is refused, works out
    the bound from what was accepted, and compares it with the last number in each of three
    diagnostics. It holds no figure of its own.

    * `lastNumber`: the number in a diagnostic.
    * `lastNumber_diagnostic`: what `printf` has put there.
    * `pass_iff_bound_named`: for every library that enforces a bound, the test passes exactly
      when all three name it.
-/

open CFiles CNumerals

namespace PumpBound

/-! ## Section 1: The number in a diagnostic -/

/-- A wide string. -/
abbrev WStr : Type := List Nat

/-- The same text, wide. -/
def wide (s : CStr) : WStr := s.map UInt8.toNat

def isDigit (c : Nat) : Bool := 48 ≤ c ∧ c ≤ 57

variable {w : Nat}

/-- The inner loop of `LastNumber`, over a run of digits; `unsigned long` has `w` bits. Nothing
    when the figure is nonsense. -/
def digitRun : BitVec w → WStr → Option (BitVec w × WStr)
  | ul, [] => some (ul, [])
  | ul, c :: s =>
    if isDigit c = true then
      if ul.toNat > 0xFFFFFFFF / 10 then none
      else digitRun (ul * 10 + BitVec.ofNat w (c - 48)) s
    else some (ul, c :: s)

/-- The outer loop of `LastNumber`, with what it has found. A turn uses up a character, so
    `fuel` is their number. -/
def lastFrom : Nat → Option (BitVec w) → WStr → Option (Option (BitVec w))
  | 0, found, _ => some found
  | _ + 1, found, [] => some found
  | fuel + 1, found, c :: s =>
    if isDigit c = true then
      match digitRun 0 (c :: s) with
      | none => none
      | some (ul, rest) => lastFrom fuel (some ul) rest
    else lastFrom fuel found s

/-- `LastNumber`: nothing for a null pointer, without a digit and for nonsense. -/
def lastNumber (w : Nat) (lpszText : Option WStr) : Option (BitVec w) :=
  lpszText.bind fun s => (lastFrom s.length none s).join

section reading

/-- The digits of a number, one after the other. -/
theorem digitRun_append {ds : WStr} (hds : ∀ c ∈ ds, isDigit c = true) (ul : BitVec w) (s : WStr) :
    digitRun ul (ds ++ s) = (digitRun ul ds).bind fun r => digitRun r.1 s := by
  induction ds generalizing ul with
  | nil => rfl
  | cons c ds ih =>
    rw [List.forall_mem_cons] at hds
    rw [List.cons_append, digitRun, digitRun, if_pos hds.1, if_pos hds.1]
    split
    · rfl
    · exact ih hds.2 _

theorem wide_numeral_digits (n : Nat) : ∀ c ∈ wide (numeral 10 n), isDigit c = true := by
  have hall : ∀ d < 10, isDigit (digitByte d).toNat = true := by decide
  intro c hc
  unfold wide numeral at hc
  split at hc
  · rw [List.mem_singleton.mp hc]
    decide
  · obtain ⟨b, hb, rfl⟩ := List.mem_map.mp hc
    obtain ⟨d, hd, rfl⟩ := List.mem_map.mp (List.mem_reverse.mp hb)
    exact hall d (Nat.digits_lt_base (by omega) hd)

/-- The last digit comes off the end. -/
theorem wide_numeral_step {n : Nat} (hn : 10 ≤ n) :
    wide (numeral 10 n) = wide (numeral 10 (n / 10)) ++ [48 + n % 10] := by
  have hbyte : ∀ d < 10, (digitByte d).toNat = 48 + d := by decide
  have hne : n ≠ 0 := by omega
  have hne' : n / 10 ≠ 0 := by omega
  unfold wide numeral
  rw [if_neg hne, if_neg hne', Nat.digits_eq_cons_digits_div (by omega) hne]
  simp [hbyte (n % 10) (Nat.mod_lt _ (by omega))]

/-- The digits of an `unsigned long` are read when they pass the check. -/
theorem digitRun_numeral (n : Nat) (hn : n < 2 ^ w) :
    digitRun (0 : BitVec w) (wide (numeral 10 n)) =
      if n / 10 ≤ 0xFFFFFFFF / 10 then some (BitVec.ofNat w n, []) else none := by
  induction n using Nat.strongRecOn with
  | ind n ih =>
    have hdigit : isDigit (48 + n % 10) = true := by
      have hlt : n % 10 < 10 := Nat.mod_lt _ (by omega)
      unfold isDigit
      simp
      omega
    by_cases hten : 10 ≤ n
    · have hsmall : (BitVec.ofNat w (n / 10)).toNat = n / 10 := by
        rw [BitVec.toNat_ofNat, Nat.mod_eq_of_lt (by omega)]
      have hvalue : BitVec.ofNat w (n / 10) * 10 + BitVec.ofNat w (48 + n % 10 - 48)
          = BitVec.ofNat w n := by
        have hbase : (10 : BitVec w) = BitVec.ofNat w 10 := rfl
        rw [hbase, ← BitVec.ofNat_mul, ← BitVec.ofNat_add]
        congr 1
        omega
      rw [wide_numeral_step hten, digitRun_append (wide_numeral_digits _),
        ih (n / 10) (by omega) (by omega)]
      by_cases hbefore : n / 10 / 10 ≤ 0xFFFFFFFF / 10
      · rw [if_pos hbefore, Option.bind_some, digitRun, if_pos hdigit, hsmall, hvalue]
        by_cases hfits : n / 10 ≤ 0xFFFFFFFF / 10
        · rw [if_neg (by omega), if_pos hfits, digitRun]
        · rw [if_pos (by omega), if_neg hfits]
      · -- nonsense before the last digit already
        rw [if_neg hbefore, if_neg (by omega), Option.bind_none]
    · have hone : wide (numeral 10 n) = [48 + n] := by
        have hall : ∀ d < 10, wide (numeral 10 d) = [48 + d] := by decide +kernel
        exact hall n (by omega)
      rw [Nat.mod_eq_of_lt (by omega)] at hdigit
      rw [hone, digitRun, if_pos hdigit, if_neg (by simp), if_pos (by omega), digitRun]
      simp

/-- A run that is read leaves less than there was. -/
theorem digitRun_length {ul ul' : BitVec w} {s rest : WStr} (h : digitRun ul s = some (ul', rest)) :
    rest.length ≤ s.length := by
  induction s generalizing ul with
  | nil =>
    simp only [digitRun, Option.some.injEq, Prod.mk.injEq] at h
    rw [← h.2]
  | cons c s ih =>
    rw [digitRun] at h
    split at h
    · split at h
      · cases h
      · exact Nat.le_succ_of_le (ih h)
    · simp only [Option.some.injEq, Prod.mk.injEq] at h
      rw [← h.2]

/-- What stands behind a run of digits is left. -/
theorem digitRun_stops (ul : BitVec w) {s : WStr} (hs : ∀ c ∈ s.head?, isDigit c = false) :
    digitRun ul s = some (ul, s) := by
  rcases s with _ | ⟨c, s⟩
  · rfl
  · have hc : ¬ isDigit c = true := by simp [hs c rfl]
    rw [digitRun, if_neg hc]

/-- A turn more does not matter. -/
theorem lastFrom_more {fuel : Nat} {found : Option (BitVec w)} {s : WStr} (h : s.length ≤ fuel) :
    lastFrom (fuel + 1) found s = lastFrom fuel found s := by
  induction fuel generalizing found s with
  | zero =>
    rw [List.eq_nil_of_length_eq_zero (by omega : s.length = 0)]
    rfl
  | succ fuel ih =>
    rcases s with _ | ⟨c, s⟩
    · rfl
    · rw [lastFrom, lastFrom]
      rw [List.length_cons] at h
      by_cases hc : isDigit c = true
      · rw [if_pos hc, if_pos hc]
        split
        · rfl
        · next ul rest hrun =>
          rw [digitRun, if_pos hc, if_neg (by simp)] at hrun
          have hrest := digitRun_length hrun
          exact ih (by omega)
      · rw [if_neg hc, if_neg hc]
        exact ih (by omega)

theorem lastFrom_enough {fuel : Nat} {found : Option (BitVec w)} {s : WStr}
    (h : s.length ≤ fuel) : lastFrom fuel found s = lastFrom s.length found s := by
  induction fuel, h using Nat.le_induction with
  | base => rfl
  | succ fuel h ih => rw [lastFrom_more h, ih]

/-- Text without a digit says nothing. -/
theorem lastFrom_plain {fuel : Nat} {found : Option (BitVec w)} {pre s : WStr}
    (hpre : ∀ c ∈ pre, isDigit c = false) (h : (pre ++ s).length ≤ fuel) :
    lastFrom fuel found (pre ++ s) = lastFrom s.length found s := by
  rw [lastFrom_enough h]
  clear h
  induction pre with
  | nil => rfl
  | cons c pre ih =>
    rw [List.forall_mem_cons] at hpre
    rw [List.cons_append, List.length_cons, lastFrom, if_neg (by simp [hpre.1])]
    exact ih hpre.2

/-- A number that passes the check takes the place of what was found. -/
theorem lastFrom_number {fuel n : Nat} (hn : n < 2 ^ w) {found : Option (BitVec w)}
    {s : WStr} (hs : ∀ c ∈ s.head?, isDigit c = false)
    (h : (wide (numeral 10 n) ++ s).length ≤ fuel) :
    lastFrom fuel found (wide (numeral 10 n) ++ s) =
      if n / 10 ≤ 0xFFFFFFFF / 10 then lastFrom s.length (some (BitVec.ofNat w n)) s else none := by
  have hdigits := wide_numeral_digits n
  have hrun := digitRun_append hdigits (0 : BitVec w) s
  rw [digitRun_numeral n hn] at hrun
  rw [lastFrom_enough h]
  clear h
  obtain ⟨c, ds, hcons⟩ : ∃ c ds, wide (numeral 10 n) = c :: ds := by
    obtain ⟨b, t, hbt, _⟩ := numeral_start n
    exact ⟨b.toNat, wide t, by rw [hbt, wide, List.map_cons, wide]⟩
  rw [hcons] at hrun hdigits ⊢
  rw [List.cons_append] at hrun ⊢
  rw [List.length_cons, lastFrom, if_pos (hdigits c (List.mem_cons_self ..)), hrun]
  by_cases hfits : n / 10 ≤ 0xFFFFFFFF / 10
  · rw [if_pos hfits, if_pos hfits, Option.bind_some, digitRun_stops _ hs]
    exact lastFrom_enough (by simp)
  · rw [if_neg hfits, if_neg hfits, Option.bind_none]

/-- What a site of the pump prints; its last argument is an `unsigned long`. -/
def diagnostic (n : BitVec w) : WStr :=
  wide (cstr "P2Pmsg pump is full, ") ++ (wide (numeral 10 n.toNat) ++ wide (cstr " entries"))

/-- **The figure of a diagnostic**, and not the `2` that comes first. -/
theorem lastNumber_diagnostic (hw : 3 ≤ w) (n : BitVec w) :
    lastNumber w (some (diagnostic n)) =
      if n.toNat / 10 ≤ 0xFFFFFFFF / 10 then some n else none := by
  have htext : wide (cstr "P2Pmsg pump is full, ") =
      wide (cstr "P") ++ (wide (numeral 10 2) ++ wide (cstr "Pmsg pump is full, ")) := by
    decide +kernel
  have hname : ∀ c ∈ wide (cstr "P"), isDigit c = false := by decide +kernel
  have hbefore : ∀ c ∈ wide (cstr "Pmsg pump is full, "), isDigit c = false := by decide +kernel
  have hafter : ∀ c ∈ wide (cstr " entries"), isDigit c = false := by decide +kernel
  have htwo : 2 < 2 ^ w := Nat.lt_of_lt_of_le (by decide : 2 < 2 ^ 3)
    (Nat.pow_le_pow_right (by omega) hw)
  have hlast : lastFrom (wide (cstr " entries")).length (some n) (wide (cstr " entries")) =
      some (some n) := by
    have hplain : lastFrom _ (some n) (wide (cstr " entries") ++ []) = _ :=
      lastFrom_plain hafter le_rfl
    rwa [List.append_nil] at hplain
  unfold lastNumber diagnostic
  rw [htext, List.append_assoc, List.append_assoc, Option.bind_some, lastFrom_plain hname le_rfl,
    lastFrom_number htwo (by simp [wide, cstr, isDigit]) le_rfl, if_pos (by decide),
    lastFrom_plain hbefore le_rfl, lastFrom_number n.isLt (by simp [wide, cstr, isDigit]) le_rfl,
    BitVec.ofNat_toNat, BitVec.setWidth_eq]
  by_cases hfits : n.toNat / 10 ≤ 0xFFFFFFFF / 10
  · rw [if_pos hfits, if_pos hfits, hlast]
    rfl
  · rw [if_neg hfits, if_neg hfits]
    rfl

end reading

/-! ## Section 2: The test, for any pump -/

/-- How a post ends. A refusal throws an event, and the pointer to it may be null. -/
inductive Outcome
  | accepted
  | refused (pEVT : Option WStr)
  deriving DecidableEq

/-- What the test calls in the library: the number of live messages and the three posts. -/
structure Pump (S : Type) where
  count : S → Nat
  post : S → S × Outcome
  postBatch : S → S × Outcome
  postNarrow : S → S × Outcome

def kPostCeiling : Nat := 5000000

def kMinCredible : Nat := 1000

section test

variable {S : Type} (P : Pump S)

/-- Phase 1, with the posts left below the ceiling: the posts accepted and what the refusal,
    if there is one, carried. -/
def fill : Nat → S → Nat → S × Nat × Option (Option WStr)
  | 0, s, nPosted => (s, nPosted, none)
  | left + 1, s, nPosted =>
    match P.post s with
    | (s, .accepted) => fill left s (nPosted + 1)
    | (s, .refused pEVT) => (s, nPosted, some pEVT)

/-- `CheckRefusal`. The number that goes with `false` is not looked at. -/
def checkRefusal (ulMeasured : BitVec w) : Outcome → Nat
  | .accepted => 1
  | .refused pEVT => if lastNumber w pEVT = some ulMeasured then 0 else 1

/-- Phases 2 and 3. -/
def refusals (ulMeasured : BitVec w) (s : S) : Nat :=
  if checkRefusal ulMeasured (P.postBatch s).2 ≠ 0 then checkRefusal ulMeasured (P.postBatch s).2
  else checkRefusal ulMeasured (P.postNarrow (P.postBatch s).1).2

/-- The exit code of `main`, from the hub on; `unsigned long` has `w` bits. -/
def exitCode (w : Nat) (s : S) : Nat :=
  match fill P kPostCeiling s 0 with
  | (_, _, none) => 3
  | (s', nPosted, some pEVT) =>
    if nPosted < kMinCredible then 3
    else
      let ulMeasured := BitVec.ofNat w (P.count s) + BitVec.ofNat w nPosted - 1
      if lastNumber w pEVT ≠ some ulMeasured then 1
      else if BitVec.ofNat w (P.count s') ≠ ulMeasured + 1 then 1
      else refusals P ulMeasured s'

/-! ## Section 3: A pump that enforces a bound -/

/-- A post is refused when there are more than `MAX` live messages, at each site with its own
    diagnostic, and then nothing changes. -/
structure Guarded (MAX : Nat) (ulWide ulBatch ulNarrow : BitVec w) : Prop where
  post_accepts : ∀ s, P.count s ≤ MAX →
    (P.post s).2 = .accepted ∧ P.count (P.post s).1 = P.count s + 1
  post_refuses : ∀ s, MAX < P.count s →
    (P.post s).2 = .refused (some (diagnostic ulWide)) ∧ P.count (P.post s).1 = P.count s
  batch_refuses : ∀ s, MAX < P.count s →
    (P.postBatch s).2 = .refused (some (diagnostic ulBatch)) ∧
      P.count (P.postBatch s).1 = P.count s
  narrow_refuses : ∀ s, MAX < P.count s →
    (P.postNarrow s).2 = .refused (some (diagnostic ulNarrow))

variable {P} {MAX : Nat} {n₁ n₂ n₃ : BitVec w}

/-- Phase 1 posts until one message more than the bound is live. -/
theorem fill_spec (hguard : Guarded P MAX n₁ n₂ n₃) (left : Nat) (s : S) (nPosted : Nat) :
    (left ≤ MAX + 1 - P.count s ∧ (fill P left s nPosted).2.2 = none) ∨
    (MAX + 1 - P.count s < left ∧
      (fill P left s nPosted).2 =
        (nPosted + (MAX + 1 - P.count s), some (some (diagnostic n₁))) ∧
      P.count (fill P left s nPosted).1 = P.count s + (MAX + 1 - P.count s)) := by
  induction left generalizing s nPosted with
  | zero => exact .inl ⟨Nat.zero_le _, rfl⟩
  | succ left ih =>
    rcases Nat.lt_or_ge MAX (P.count s) with hover | hroom
    · obtain ⟨hrefused, hcount⟩ := hguard.post_refuses s hover
      have hstop : fill P (left + 1) s nPosted =
          ((P.post s).1, nPosted, some (some (diagnostic n₁))) := by
        rw [fill, ← Prod.eta (P.post s), hrefused]
      have hnone : MAX + 1 - P.count s = 0 := by omega
      rw [hstop, hnone]
      exact .inr ⟨by omega, rfl, hcount⟩
    · obtain ⟨haccepted, hcount⟩ := hguard.post_accepts s hroom
      have hturn : fill P (left + 1) s nPosted = fill P left (P.post s).1 (nPosted + 1) := by
        rw [fill, ← Prod.eta (P.post s), haccepted]
      rw [hturn]
      rcases ih (P.post s).1 (nPosted + 1) with ⟨hleft, hnone⟩ | ⟨hleft, hend, hlive⟩
      · exact .inl ⟨by omega, hnone⟩
      · refine .inr ⟨by omega, ?_, by omega⟩
        rw [hend, hcount]
        congr 1
        omega

/-- A diagnostic names the bound when the bound is what was put there, and can be read. -/
theorem lastNumber_iff (hw : 3 ≤ w) (hMAX : MAX < 2 ^ w) (n : BitVec w) :
    lastNumber w (some (diagnostic n)) = some (BitVec.ofNat w MAX) ↔
      MAX / 10 ≤ 0xFFFFFFFF / 10 ∧ n = BitVec.ofNat w MAX := by
  rw [lastNumber_diagnostic hw]
  constructor
  · intro h
    split at h
    · next hfits =>
      have hn : n = BitVec.ofNat w MAX := Option.some.inj h
      rw [hn, BitVec.toNat_ofNat, Nat.mod_eq_of_lt hMAX] at hfits
      exact ⟨hfits, hn⟩
    · cases h
  · rintro ⟨hfits, rfl⟩
    rw [BitVec.toNat_ofNat, Nat.mod_eq_of_lt hMAX, if_pos hfits]

theorem checkRefusal_iff (ulMeasured : BitVec w) (pEVT : Option WStr) :
    checkRefusal ulMeasured (.refused pEVT) = 0 ↔ lastNumber w pEVT = some ulMeasured := by
  simp [checkRefusal]

theorem checkRefusal_ne_three (ulMeasured : BitVec w) (o : Outcome) :
    checkRefusal ulMeasured o ≠ 3 := by
  rcases o with _ | pEVT
  · simp [checkRefusal]
  · rw [checkRefusal]
    split <;> simp

/-- The two posts over the bound. -/
theorem refusals_iff (hguard : Guarded P MAX n₁ n₂ n₃) (hw : 3 ≤ w) (hMAX : MAX < 2 ^ w) {s : S}
    (hover : MAX < P.count s) :
    refusals P (BitVec.ofNat w MAX) s = 0 ↔
      MAX / 10 ≤ 0xFFFFFFFF / 10 ∧ n₂ = BitVec.ofNat w MAX ∧ n₃ = BitVec.ofNat w MAX := by
  obtain ⟨hbatch, hcount⟩ := hguard.batch_refuses s hover
  have hnarrow := hguard.narrow_refuses (P.postBatch s).1 (by omega)
  have hsecond := checkRefusal_iff (BitVec.ofNat w MAX) (some (diagnostic n₂))
  have hthird := checkRefusal_iff (BitVec.ofNat w MAX) (some (diagnostic n₃))
  rw [lastNumber_iff hw hMAX] at hsecond hthird
  unfold refusals
  rw [hbatch, hnarrow]
  by_cases hzero : checkRefusal (BitVec.ofNat w MAX) (.refused (some (diagnostic n₂))) = 0
  · obtain ⟨hfits, hnamed⟩ := hsecond.mp hzero
    rw [if_neg (not_not_intro hzero), hthird]
    exact ⟨fun h => ⟨h.1, hnamed, h.2⟩, fun h => ⟨h.1, h.2.2⟩⟩
  · rw [if_pos hzero]
    exact ⟨fun h => absurd h hzero, fun h => absurd (hsecond.mpr ⟨h.1, h.2.1⟩) hzero⟩

theorem refusals_ne_three (ulMeasured : BitVec w) (s : S) : refusals P ulMeasured s ≠ 3 := by
  unfold refusals
  split <;> exact checkRefusal_ne_three _ _

/-- What is measured is the bound, although it is worked out from the posts. -/
theorem measured_eq {base nPosted : Nat} (h : base + nPosted = MAX + 1) :
    BitVec.ofNat w base + BitVec.ofNat w nPosted - 1 = BitVec.ofNat w MAX := by
  have hone : (1 : BitVec w) = BitVec.ofNat w 1 := rfl
  rw [← BitVec.ofNat_add, h, BitVec.ofNat_add, hone, BitVec.add_sub_cancel]

/-- **The test passes exactly when all three diagnostics name the bound**, for a pump whose
    bound it can reach and read, and it has no verdict exactly when too few posts fit or too
    many. -/
theorem pass_iff_bound_named (hguard : Guarded P MAX n₁ n₂ n₃) (hw : 3 ≤ w) (hMAX : MAX < 2 ^ w)
    (s : S) :
    (exitCode P w s = 0 ↔
      (kMinCredible ≤ MAX + 1 - P.count s ∧ MAX + 1 - P.count s < kPostCeiling) ∧
      MAX / 10 ≤ 0xFFFFFFFF / 10 ∧
      n₁ = BitVec.ofNat w MAX ∧ n₂ = BitVec.ofNat w MAX ∧ n₃ = BitVec.ofNat w MAX) ∧
    (exitCode P w s = 3 ↔
      ¬ (kMinCredible ≤ MAX + 1 - P.count s ∧ MAX + 1 - P.count s < kPostCeiling)) := by
  have hfill := fill_spec hguard kPostCeiling s 0
  unfold exitCode
  generalize hrun : fill P kPostCeiling s 0 = r at hfill ⊢
  obtain ⟨s', nPosted, thrown⟩ := r
  rcases hfill with ⟨hleft, hnone⟩ | ⟨hleft, hend, hlive⟩
  · -- the ceiling comes first
    have hthrown : thrown = none := hnone
    subst hthrown
    simp
    omega
  · obtain ⟨rfl, rfl⟩ : nPosted = MAX + 1 - P.count s ∧ thrown = some (some (diagnostic n₁)) := by
      simpa using hend
    replace hlive : P.count s' = P.count s + (MAX + 1 - P.count s) := hlive
    by_cases hfew : MAX + 1 - P.count s < kMinCredible
    · simp only [if_pos hfew]
      simp
      omega
    · have hpos : 0 < kMinCredible := by decide
      have hsum : P.count s + (MAX + 1 - P.count s) = MAX + 1 := by omega
      have hcross : BitVec.ofNat w (P.count s') = BitVec.ofNat w MAX + 1 := by
        rw [hlive, hsum, BitVec.ofNat_add]
        rfl
      simp only [if_neg hfew, measured_eq hsum]
      have hfirst := lastNumber_iff hw hMAX n₁
      have hrest := refusals_iff hguard hw hMAX (s := s') (by omega)
      have hthree := refusals_ne_three (P := P) (BitVec.ofNat w MAX) s'
      by_cases hnamed : lastNumber w (some (diagnostic n₁)) = some (BitVec.ofNat w MAX)
      · rw [if_neg (not_not_intro hnamed), if_neg (not_not_intro hcross)]
        have hrange : kMinCredible ≤ MAX + 1 - P.count s ∧ MAX + 1 - P.count s < kPostCeiling :=
          ⟨by omega, hleft⟩
        have hboth := hfirst.mp hnamed
        tauto
      · rw [if_pos hnamed]
        have hrange : kMinCredible ≤ MAX + 1 - P.count s ∧ MAX + 1 - P.count s < kPostCeiling :=
          ⟨by omega, hleft⟩
        constructor
        · constructor
          · intro h
            omega
          · rintro ⟨_, hfits, hn, _⟩
            exact absurd (hfirst.mpr ⟨hfits, hn⟩) hnamed
        · simp [hrange]

/-- A pump that counts, with one figure in all its diagnostics. -/
def counting (MAX : Nat) (ul : BitVec w) : Pump Nat where
  count n := n
  post n := if n > MAX then (n, .refused (some (diagnostic ul))) else (n + 1, .accepted)
  postBatch n := if n > MAX then (n, .refused (some (diagnostic ul))) else (n + 1, .accepted)
  postNarrow n := if n > MAX then (n, .refused (some (diagnostic ul))) else (n + 1, .accepted)

theorem counting_guarded (MAX : Nat) (ul : BitVec w) :
    Guarded (counting MAX ul) MAX ul ul ul where
  post_accepts n hn := by
    have hroom : ¬ n > MAX := Nat.not_lt.mpr hn
    simp [counting, hroom]
  post_refuses n hn := by
    have hover : n > MAX := hn
    simp [counting, hover]
  batch_refuses n hn := by
    have hover : n > MAX := hn
    simp [counting, hover]
  narrow_refuses n hn := by
    have hover : n > MAX := hn
    simp [counting, hover]

/-- The history of the test: a bound of 50000, and 10000 in the text. -/
theorem pass_iff_bound_named_stale :
    exitCode (counting 50000 (10000 : BitVec 32)) 32 0 ≠ 0 ∧
      exitCode (counting 50000 (50000 : BitVec 32)) 32 0 = 0 := by
  have hstale := pass_iff_bound_named (counting_guarded 50000 (10000 : BitVec 32)) (by decide)
    (by decide) 0
  have hnow := pass_iff_bound_named (counting_guarded 50000 (50000 : BitVec 32)) (by decide)
    (by decide) 0
  refine ⟨fun h => ?_, hnow.1.mpr ?_⟩
  · exact absurd (hstale.1.mp h).2.2.1 (by decide)
  · refine ⟨⟨?_, ?_⟩, ?_, ?_, ?_, ?_⟩ <;> simp [counting, kMinCredible, kPostCeiling]

end test

end PumpBound
