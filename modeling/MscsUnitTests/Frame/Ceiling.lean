import MscsUnitTests.Frame.Wire
import MscsUnitTests.Lib.Loop

/-! # The Framing Harness: The Ceiling Frame

    The loop of `main` that looks for a payload of which the frame is just under the
    size the parser still accepts. It guesses a number of characters, has the library
    serialize them, and drops the excess when there is one.

    * `sizeTry`: one try, in the unsigned arithmetic of the code.
    * `AtCeiling`: where the frame is to land.
    * `ceiling_iff`: it does unless the guess itself was under the ceiling, and by too
      much: the loop never adds a character.
-/

open ByteMem BoundedLoop

namespace FuzzFrame

/-! ## Section 1: The serializer -/

/-- `sizeof(wchar_t)`, on Windows and elsewhere. -/
inductive WCharT where
  | two | four

def WCharT.size : WCharT → Nat
  | .two => 2
  | .four => 4

/-- The library's serializer: `P2PeerMsg32`, `PrepareP2Piomage`, `P2Piomage`. It is given
    the buffer and a number of bytes of it, and adds an overhead of its own. -/
structure Serializer (h : Nat) where
  image : List Nat → Nat → Option (List UInt8)
  size : ∀ s_aBig nBytes, (image s_aBig nBytes).map List.length = some (h + nBytes)

/-! ## Section 2: One try -/

/-- The size of `s_aBig`. -/
def kBigChars : Nat := 24000

def nCeiling : Nat := 32768

/-- A write to `s_aBig`, nothing when it is outside. -/
def putChar (s_aBig : List Nat) (k c : Nat) : Option (List Nat) :=
  if k < s_aBig.length then some (s_aBig.set k c) else none

/-- The payload: letters, and the terminator. -/
def fillChars (s_aBig : List Nat) (nChars : Nat) : Option (List Nat) := do
  let filled ← (List.range (nChars - 1)).foldlM (fun a k => putChar a k (97 + k % 26)) s_aBig
  putChar filled (nChars - 1) 0

/-- How the loop is left. -/
inductive Sized where
  /-- By a `break`: `oBig.n` is still 0. -/
  | gaveUp
  /-- `oBig` is filled, which ends the loop. -/
  | built (oBig : Wire)
  /-- A write outside of `s_aBig` or of `oBig.b`. -/
  | outside

/-- What one try leaves for the next. -/
structure SizeState where
  nChars : Nat
  s_aBig : List Nat

/-- How many characters are dropped for an excess, in `unsigned`. -/
def nDrop (u nImage : Nat) : Nat :=
  (u32Sub nImage nCeiling + u - 1) % 2 ^ 32 / u

/-- One try. -/
def sizeTry {h : Nat} (u : WCharT) (ser : Serializer h) (st : SizeState) : Pass Sized SizeState :=
  if st.nChars < 2 ∨ st.nChars > kBigChars then .stop .gaveUp
  else
    match fillChars st.s_aBig st.nChars with
    | none => .stop .outside
    | some s_aBig =>
      match ser.image s_aBig (st.nChars * u.size) with
      | none => .stop .gaveUp
      | some pImage =>
        let nImage := pImage.length % 2 ^ 32
        if nImage = 0 then .stop .gaveUp
        else if nImage > nCeiling then
          -- one more for margin
          .again ⟨u32Sub st.nChars ((nDrop u.size nImage + 1) % 2 ^ 32), s_aBig⟩
        else if nImage * 2 % 2 ^ 32 > kMaxWire then .stop .gaveUp
        else if nImage > kMaxWire then .stop .outside
        else .stop (.built ⟨copyInto (fun _ => 0) 0 (ofBytes pImage) 0 nImage, nImage⟩)

/-- A starting guess, and the buffer. -/
def SizeState.start : SizeState := ⟨16000, List.replicate kBigChars 0⟩

/-- The loop: six tries. -/
def ceilingFrame {h : Nat} (u : WCharT) (ser : Serializer h) : Exit Sized SizeState :=
  run (sizeTry u ser) 6 .start

/-! ## Section 3: What a try does -/

/-- Characters are put where they fit. -/
theorem foldlM_putChar (c : Nat → Nat) :
    ∀ (ks : List Nat) (a : List Nat), (∀ k ∈ ks, k < a.length) →
      ∃ a', ks.foldlM (fun a k => putChar a k (c k)) a = some a' ∧ a'.length = a.length := by
  intro ks
  induction ks with
  | nil =>
    intro a _
    exact ⟨a, rfl, rfl⟩
  | cons k ks ih =>
    intro a hks
    have hput : putChar a k (c k) = some (a.set k (c k)) := if_pos (hks k List.mem_cons_self)
    have hlen : (a.set k (c k)).length = a.length := List.length_set
    obtain ⟨a', hrun, ha'⟩ := ih (a.set k (c k)) fun k' hk' => by
      rw [hlen]
      exact hks k' (List.mem_cons_of_mem _ hk')
    refine ⟨a', ?_, ha'.trans hlen⟩
    rw [List.foldlM_cons, hput]
    exact hrun

theorem fillChars_some (s_aBig : List Nat) {nChars : Nat} (hpos : 0 < nChars)
    (hfit : nChars ≤ s_aBig.length) :
    ∃ a, fillChars s_aBig nChars = some a ∧ a.length = s_aBig.length := by
  obtain ⟨filled, hrun, hlen⟩ := foldlM_putChar (fun k => 97 + k % 26) (List.range (nChars - 1))
    s_aBig fun k hk => by
      have hlt := List.mem_range.mp hk
      omega
  refine ⟨filled.set (nChars - 1) 0, ?_, List.length_set.trans hlen⟩
  unfold fillChars
  rw [hrun]
  exact if_pos (by omega)

/-- **What a try does** with a number of characters that the buffer has room for: it goes
    by the size of the image alone. -/
theorem sizeTry_cases {h : Nat} (u : WCharT) (ser : Serializer h) (st : SizeState)
    (hlow : 2 ≤ st.nChars) (hhigh : st.nChars ≤ kBigChars) (hbuf : st.s_aBig.length = kBigChars)
    {s : Nat} (hs : s = (h + st.nChars * u.size) % 2 ^ 32) :
    (s = 0 ∧ sizeTry u ser st = .stop .gaveUp) ∨
    (nCeiling < s ∧ ∃ s_aBig, s_aBig.length = kBigChars ∧ sizeTry u ser st =
      .again ⟨u32Sub st.nChars ((nDrop u.size s + 1) % 2 ^ 32), s_aBig⟩) ∨
    (0 < s ∧ s ≤ nCeiling ∧ ∃ oBig, oBig.n = s ∧ sizeTry u ser st = .stop (.built oBig)) := by
  have hpos : 0 < st.nChars := by omega
  obtain ⟨a, hfill, hlen⟩ := fillChars_some st.s_aBig hpos (hhigh.trans_eq hbuf.symm)
  have hsize := ser.size a (st.nChars * u.size)
  cases himage : ser.image a (st.nChars * u.size) with
  | none =>
    rw [himage] at hsize
    cases hsize
  | some pImage =>
    rw [himage] at hsize
    have hpImage : pImage.length = h + st.nChars * u.size := Option.some.inj hsize
    have hguard : ¬ (st.nChars < 2 ∨ st.nChars > kBigChars) := by omega
    have hrun : sizeTry u ser st =
        if s = 0 then .stop .gaveUp
        else if s > nCeiling then
          .again ⟨u32Sub st.nChars ((nDrop u.size s + 1) % 2 ^ 32), a⟩
        else if s * 2 % 2 ^ 32 > kMaxWire then .stop .gaveUp
        else if s > kMaxWire then .stop .outside
        else .stop (.built ⟨copyInto (fun _ => 0) 0 (ofBytes pImage) 0 s, s⟩) := by
      unfold sizeTry
      rw [if_neg hguard, hfill]
      dsimp only
      rw [himage]
      dsimp only
      rw [hpImage, ← hs]
    rw [hrun]
    by_cases hzero : s = 0
    · exact Or.inl ⟨hzero, if_pos hzero⟩
    · rw [if_neg hzero]
      by_cases hover : s > nCeiling
      · exact Or.inr (Or.inl ⟨hover, a, hlen.trans hbuf, if_pos hover⟩)
      · -- twice the size still fits the wire buffer
        have hfit : ¬ s * 2 % 2 ^ 32 > kMaxWire := by
          unfold nCeiling at hover
          unfold kMaxWire
          omega
        have hfit' : ¬ s > kMaxWire := by
          unfold nCeiling at hover
          unfold kMaxWire
          omega
        rw [if_neg hover, if_neg hfit, if_neg hfit']
        exact Or.inr (Or.inr ⟨Nat.pos_of_ne_zero hzero, by omega, _, rfl, rfl⟩)

theorem WCharT.size_cases (u : WCharT) : u.size = 2 ∨ u.size = 4 := by
  cases u
  · exact Or.inl rfl
  · exact Or.inr rfl

/-- The excess in characters, rounded up. Nothing wraps on the way. -/
theorem nDrop_bounds (u : WCharT) {s : Nat} (hover : nCeiling < s) (hs : s < 2 ^ 32) :
    s - nCeiling ≤ nDrop u.size s * u.size ∧ nDrop u.size s * u.size < s - nCeiling + u.size := by
  have hsub : u32Sub s nCeiling = s - nCeiling := u32Sub_of_le hs (Nat.le_of_lt hover)
  unfold nDrop
  rw [hsub]
  unfold nCeiling at hover ⊢
  rcases u.size_cases with hu | hu
  · rw [hu]
    omega
  · rw [hu]
    omega

/-- **The correction**: what is dropped for an excess brings the frame under the ceiling,
    by at most two characters, unless so much is dropped that the number wraps. -/
theorem dropped_size (u : WCharT) {h nChars s : Nat} (hn : nChars ≤ kBigChars)
    (hs : s = (h + nChars * u.size) % 2 ^ 32) (hover : nCeiling < s) {nLeft : Nat}
    (hleft : nLeft = u32Sub nChars ((nDrop u.size s + 1) % 2 ^ 32)) (hfit : nLeft ≤ kBigChars) :
    0 < (h + nLeft * u.size) % 2 ^ 32 ∧ (h + nLeft * u.size) % 2 ^ 32 ≤ nCeiling ∧
    nCeiling < (h + nLeft * u.size) % 2 ^ 32 + 2 * u.size := by
  have hlt : s < 2 ^ 32 := by
    rw [hs]
    exact Nat.mod_lt _ (by decide)
  obtain ⟨hlow, hhigh⟩ := nDrop_bounds u hover hlt
  unfold nCeiling kBigChars at *
  -- a number that has wrapped would not fit the buffer
  have hle : nDrop u.size s + 1 ≤ nChars ∧ nLeft = nChars - (nDrop u.size s + 1) := by
    unfold u32Sub at hleft
    rcases u.size_cases with hu | hu
    · rw [hu] at hlow hhigh hleft ⊢
      omega
    · rw [hu] at hlow hhigh hleft ⊢
      omega
  obtain ⟨hdrop, rfl⟩ := hle
  rcases u.size_cases with hu | hu
  · rw [hu] at hlow hhigh hdrop hs ⊢
    omega
  · rw [hu] at hlow hhigh hdrop hs ⊢
    omega

/-! ## Section 4: Where the frame lands -/

/-- The frame is at the ceiling, as close to it as a character and the margin allow; or
    there is none, which is reported as SETUP. -/
def AtCeiling (u : WCharT) : Exit Sized SizeState → Prop
  | .broke .gaveUp => True
  | .broke (.built oBig) => oBig.n ≤ nCeiling ∧ nCeiling - oBig.n < 3 * u.size
  | .broke .outside => False
  | .spent _ => True

/-- After a correction the next try is the last, and it lands. -/
theorem corrected_lands {h : Nat} (u : WCharT) (ser : Serializer h) {nChars s : Nat}
    (hn : nChars ≤ kBigChars) (hs : s = (h + nChars * u.size) % 2 ^ 32) (hover : nCeiling < s)
    {s_aBig : List Nat} (hbuf : s_aBig.length = kBigChars) (n : Nat) :
    AtCeiling u (run (sizeTry u ser) (n + 1)
      ⟨u32Sub nChars ((nDrop u.size s + 1) % 2 ^ 32), s_aBig⟩) := by
  generalize hleft : u32Sub nChars ((nDrop u.size s + 1) % 2 ^ 32) = nLeft
  by_cases hrange : nLeft < 2 ∨ nLeft > kBigChars
  · have hstop : sizeTry u ser ⟨nLeft, s_aBig⟩ = .stop .gaveUp := if_pos hrange
    rw [run_stop n hstop]
    trivial
  · obtain ⟨hpos, hle, hclose⟩ := dropped_size u hn hs hover hleft.symm (by omega)
    have hlow : 2 ≤ nLeft := by omega
    have hhigh : nLeft ≤ kBigChars := by omega
    generalize hs' : (h + nLeft * u.size) % 2 ^ 32 = s' at hpos hle hclose
    rcases sizeTry_cases u ser ⟨nLeft, s_aBig⟩ hlow hhigh hbuf hs'.symm with
      ⟨hzero, _⟩ | ⟨hagain, _⟩ | ⟨_, _, oBig, hsize, hstop⟩
    · omega
    · omega
    · rw [run_stop n hstop]
      show oBig.n ≤ nCeiling ∧ nCeiling - oBig.n < 3 * u.size
      rw [hsize]
      omega

/-- What the first try does. -/
theorem sizeTry_start {h : Nat} (u : WCharT) (ser : Serializer h) {s : Nat}
    (hs : (h + 16000 * u.size) % 2 ^ 32 = s) :
    (s = 0 ∧ sizeTry u ser .start = .stop .gaveUp) ∨
    (nCeiling < s ∧ ∃ s_aBig, s_aBig.length = kBigChars ∧ sizeTry u ser .start =
      .again ⟨u32Sub 16000 ((nDrop u.size s + 1) % 2 ^ 32), s_aBig⟩) ∨
    (0 < s ∧ s ≤ nCeiling ∧ ∃ oBig, oBig.n = s ∧ sizeTry u ser .start = .stop (.built oBig)) := by
  have hlow : 2 ≤ 16000 := by decide
  have hhigh : 16000 ≤ kBigChars := by decide
  exact sizeTry_cases u ser .start hlow hhigh List.length_replicate hs.symm

/-- **When the frame lands at the ceiling**: when the frame of the first guess is over
    the ceiling, or under it by less than three characters. -/
theorem ceiling_iff {h : Nat} (u : WCharT) (ser : Serializer h) :
    AtCeiling u (ceilingFrame u ser) ↔
      (h + 16000 * u.size) % 2 ^ 32 = 0 ∨ nCeiling < (h + 16000 * u.size) % 2 ^ 32 + 3 * u.size := by
  have hu : 0 < u.size := by
    rcases u.size_cases with hu | hu <;> omega
  unfold ceilingFrame
  generalize hs : (h + 16000 * u.size) % 2 ^ 32 = s
  rcases sizeTry_start u ser hs with ⟨hzero, hstop⟩ | ⟨hover, s_aBig, hbuf, hagain⟩ |
    ⟨hpos, hle, oBig, hsize, hstop⟩
  · rw [run_stop 5 hstop]
    exact ⟨fun _ => Or.inl hzero, fun _ => trivial⟩
  · rw [run_again 5 hagain]
    refine ⟨fun _ => Or.inr (by omega), fun _ => ?_⟩
    exact corrected_lands u ser (by decide) hs.symm hover hbuf 4
  · -- a guess under the ceiling is taken as it is
    rw [run_stop 5 hstop]
    show oBig.n ≤ nCeiling ∧ nCeiling - oBig.n < 3 * u.size ↔ _
    rw [hsize]
    constructor
    · intro hat
      exact Or.inr (by omega)
    · intro hat
      exact ⟨hle, by omega⟩

/-- A serializer that adds its overhead and nothing else. -/
def plain (h : Nat) : Serializer h where
  image _ nBytes := some (List.replicate (h + nBytes) 0)
  size _ _ := by simp

/-- With two-byte characters and an overhead of 100 bytes, the guess is taken 668 bytes
    under the ceiling. -/
theorem guess_is_taken : ¬ AtCeiling .two (ceilingFrame .two (plain 100)) := by
  have hs : (100 + 16000 * WCharT.two.size) % 2 ^ 32 = 32100 := by decide
  rcases sizeTry_start .two (plain 100) hs with ⟨hzero, _⟩ | ⟨hover, _⟩ |
    ⟨_, _, oBig, hsize, hstop⟩
  · exact absurd hzero (by decide)
  · exact absurd hover (by decide)
  · unfold ceilingFrame
    rw [run_stop 5 hstop]
    show ¬ (oBig.n ≤ nCeiling ∧ nCeiling - oBig.n < 3 * WCharT.two.size)
    rw [hsize]
    decide

end FuzzFrame
