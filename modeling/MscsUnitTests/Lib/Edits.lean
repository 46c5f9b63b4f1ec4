import Mathlib.Logic.Function.Basic
import Mathlib.Data.UInt
import Mathlib.Data.List.GetD

/-! # Edit Scripts and What Survives Them

    A program that changes a buffer at offsets, by lengths and with values that do
    not depend on what is in the buffer runs an edit script on it. A script can be
    run on symbolic cells instead of bytes: each cell of the outcome is then a
    literal, or says which byte of the original has survived there and under which
    mask.

    * `runEdits_eval`: a run on bytes is the symbolic run, evaluated.
    * `sameBytes_self_iff`: two originals come out the same exactly when they agree in
      every byte that survives.
-/

namespace EditScript

/-! ## Section 1: Buffers and edits -/

/-- A buffer, of which the first `n` cells count. -/
structure Buf (β : Type) where
  b : Nat → β
  n : Nat

/-- Cells that can hold a literal byte and take a mask. -/
class ByteLike (β : Type) where
  lit : UInt8 → β
  mask : UInt8 → β → β

instance : ByteLike UInt8 where
  lit c := c
  mask m c := c ^^^ m

/-- One change: a mask at an offset, bytes put over what is there, a new length,
    bytes appended, or a run copied within the buffer. -/
inductive Edit where
  | mask (o : Nat) (m : UInt8)
  | put (o : Nat) (bytes : List UInt8)
  | cut (n : Nat)
  | append (bytes : List UInt8)
  | move (dst src len : Nat)

section run
variable {β γ : Type} [ByteLike β] [ByteLike γ]

/-- Literal bytes laid over a buffer. -/
def overlay (b : Nat → β) (o : Nat) (bytes : List UInt8) : Nat → β :=
  fun i => if o ≤ i ∧ i < o + bytes.length then ByteLike.lit (bytes.getD (i - o) 0) else b i

def Edit.apply (w : Buf β) : Edit → Buf β
  | .mask o m => ⟨Function.update w.b o (ByteLike.mask m (w.b o)), w.n⟩
  | .put o bytes => ⟨overlay w.b o bytes, w.n⟩
  | .cut n => ⟨w.b, n⟩
  | .append bytes => ⟨overlay w.b w.n bytes, w.n + bytes.length⟩
  | .move dst src len =>
    ⟨fun i => if dst ≤ i ∧ i < dst + len then w.b (src + (i - dst)) else w.b i, w.n⟩

/-- The length an edit leaves behind. -/
def Edit.newLen (n : Nat) : Edit → Nat
  | .cut n' => n'
  | .append bytes => n + bytes.length
  | _ => n

/-- The length does not depend on the contents. -/
theorem Edit.apply_n (w : Buf β) (e : Edit) : (e.apply w).n = e.newLen w.n := by
  cases e <;> rfl

def runEdits (es : List Edit) (w : Buf β) : Buf β :=
  es.foldl Edit.apply w

theorem runEdits_cons (e : Edit) (es : List Edit) (w : Buf β) :
    runEdits (e :: es) w = runEdits es (e.apply w) := rfl

/-! ## Section 2: Maps of cells -/

def Buf.map (f : β → γ) (w : Buf β) : Buf γ :=
  ⟨fun i => f (w.b i), w.n⟩

/-- A map that keeps literals and masks. -/
structure ByteMap (f : β → γ) : Prop where
  lit : ∀ c, f (ByteLike.lit c) = ByteLike.lit c
  mask : ∀ m x, f (ByteLike.mask m x) = ByteLike.mask m (f x)

variable {f : β → γ}

theorem overlay_map (hf : ByteMap f) (b : Nat → β) (o : Nat) (bytes : List UInt8) :
    (fun i => f (overlay b o bytes i)) = overlay (fun i => f (b i)) o bytes := by
  funext i
  unfold overlay
  by_cases hi : o ≤ i ∧ i < o + bytes.length
  · rw [if_pos hi, if_pos hi, hf.lit]
  · rw [if_neg hi, if_neg hi]

/-- An edit does the same before a map of the cells as behind it. -/
theorem Edit.apply_map (hf : ByteMap f) (w : Buf β) (e : Edit) :
    (e.apply w).map f = e.apply (w.map f) := by
  cases e with
  | mask o m =>
    have hcells : (fun i => f (Function.update w.b o (ByteLike.mask m (w.b o)) i)) =
        Function.update (fun i => f (w.b i)) o (ByteLike.mask m (f (w.b o))) := by
      funext i
      by_cases hi : i = o
      · subst hi
        rw [Function.update_self, Function.update_self, hf.mask]
      · rw [Function.update_of_ne hi, Function.update_of_ne hi]
    exact congrArg (Buf.mk · w.n) hcells
  | put o bytes => exact congrArg (Buf.mk · w.n) (overlay_map hf w.b o bytes)
  | cut n => rfl
  | append bytes =>
    exact congrArg (Buf.mk · (w.n + bytes.length)) (overlay_map hf w.b w.n bytes)
  | move dst src len =>
    have hcells : (fun i => f (if dst ≤ i ∧ i < dst + len then w.b (src + (i - dst)) else w.b i)) =
        fun i => if dst ≤ i ∧ i < dst + len then f (w.b (src + (i - dst))) else f (w.b i) := by
      funext i
      exact apply_ite f _ _ _
    exact congrArg (Buf.mk · w.n) hcells

theorem runEdits_map (hf : ByteMap f) (es : List Edit) (w : Buf β) :
    (runEdits es w).map f = runEdits es (w.map f) := by
  induction es generalizing w with
  | nil => rfl
  | cons e es ih =>
    rw [runEdits_cons, runEdits_cons, ih, e.apply_map hf]

end run

/-! ## Section 3: Symbolic cells -/

/-- A literal byte, or byte `j` of the original under a mask. -/
inductive Cell where
  | lit (c : UInt8)
  | src (j : Nat) (m : UInt8)
  deriving DecidableEq

instance : ByteLike Cell where
  lit c := .lit c
  mask m
    | .lit c => .lit (c ^^^ m)
    | .src j m' => .src j (m' ^^^ m)

/-- What a cell stands for when the original is `a`. -/
def Cell.eval (a : Nat → UInt8) : Cell → UInt8
  | .lit c => c
  | .src j m => a j ^^^ m

theorem eval_byteMap (a : Nat → UInt8) : ByteMap (Cell.eval a) := by
  constructor
  · intro c
    rfl
  · intro m x
    cases x with
    | lit c => rfl
    | src j m' => exact (UInt8.xor_assoc (a j) m' m).symm

/-- Two originals give a cell the same value exactly when they agree where it comes
    from. -/
theorem Cell.eval_eq_iff (a a' : Nat → UInt8) (x : Cell) :
    x.eval a = x.eval a' ↔ ∀ j m, x = .src j m → a j = a' j := by
  cases x with
  | lit c => simp [Cell.eval]
  | src j m =>
    constructor
    · intro h j' m' hsrc
      cases hsrc
      exact (UInt8.xor_left_inj m).mp h
    · intro h
      have hj : a j = a' j := h j m rfl
      exact congrArg (· ^^^ m) hj

/-- The original itself. -/
def original (n : Nat) : Buf Cell :=
  ⟨fun i => .src i 0, n⟩

theorem original_eval (a : Nat → UInt8) (n : Nat) : (original n).map (Cell.eval a) = ⟨a, n⟩ := by
  have hcells : (fun i => a i ^^^ (0 : UInt8)) = a := by
    funext i
    exact UInt8.xor_zero
  exact congrArg (Buf.mk · n) hcells

/-- **Symbolic execution** of a script: bytes come out as the cells say. -/
theorem runEdits_eval (es : List Edit) (a : Nat → UInt8) (n : Nat) :
    runEdits es ⟨a, n⟩ = (runEdits es (original n)).map (Cell.eval a) := by
  rw [runEdits_map (eval_byteMap a), original_eval]

/-! ## Section 4: What survives -/

/-- Two symbolic buffers come out as the same bytes over their originals. -/
def SameBytes (w : Buf Cell) (a : Nat → UInt8) (w' : Buf Cell) (a' : Nat → UInt8) : Prop :=
  w.n = w'.n ∧ ∀ i < w.n, (w.b i).eval a = (w'.b i).eval a'

instance (w : Buf Cell) (a : Nat → UInt8) (w' : Buf Cell) (a' : Nat → UInt8) :
    Decidable (SameBytes w a w' a') :=
  inferInstanceAs (Decidable (_ ∧ _))

/-- Byte `j` of the original is still there, under some mask. -/
def Survives (w : Buf Cell) (j : Nat) : Prop :=
  ∃ i < w.n, ∃ m, w.b i = .src j m

/-- **Agreement on what survives**: over two originals, a script leaves the same
    bytes exactly when the originals agree in every byte that survives it. -/
theorem sameBytes_self_iff (w : Buf Cell) (a a' : Nat → UInt8) :
    SameBytes w a w a' ↔ ∀ j, Survives w j → a j = a' j := by
  constructor
  · rintro ⟨-, h⟩ j ⟨i, hi, m, hsrc⟩
    exact ((w.b i).eval_eq_iff a a').mp (h i hi) j m hsrc
  · intro h
    refine ⟨rfl, ?_⟩
    intro i hi
    apply ((w.b i).eval_eq_iff a a').mpr
    intro j m hsrc
    exact h j ⟨i, hi, m, hsrc⟩

/-! ## Section 5: Scripts that stay inside the buffer -/

/-- The edit does not reach behind the first `n` cells. -/
def Edit.Within (n : Nat) : Edit → Prop
  | .cut n' => n' ≤ n
  | .move _ src len => src + len ≤ n
  | _ => True

/-- Every edit of the script stays inside the buffer as it is by then. -/
def Within : Nat → List Edit → Prop
  | _, [] => True
  | n, e :: es => e.Within n ∧ Within (e.newLen n) es

/-- What counts of the buffer comes from the first `N` bytes of the original. -/
def FromFirst (N : Nat) (w : Buf Cell) : Prop :=
  ∀ i < w.n, ∀ j m, w.b i = .src j m → j < N

/-- A literal has no origin: what an overlay takes from the original was there before. -/
theorem overlay_eq_src {b : Nat → Cell} {o i j : Nat} {bytes : List UInt8} {m : UInt8}
    (h : overlay b o bytes i = .src j m) : ¬ (o ≤ i ∧ i < o + bytes.length) ∧ b i = .src j m := by
  unfold overlay at h
  by_cases hi : o ≤ i ∧ i < o + bytes.length
  · rw [if_pos hi] at h
    cases h
  · rw [if_neg hi] at h
    exact ⟨hi, h⟩

theorem Edit.apply_fromFirst {N : Nat} {w : Buf Cell} (hw : FromFirst N w) {e : Edit}
    (he : e.Within w.n) : FromFirst N (e.apply w) := by
  intro i hi j m hsrc
  cases e with
  | mask o m' =>
    have hcell : Function.update w.b o (ByteLike.mask m' (w.b o)) i = .src j m := hsrc
    by_cases hio : i = o
    · subst hio
      rw [Function.update_self] at hcell
      -- a mask stays on the byte it is put on
      cases horig : w.b i with
      | lit c =>
        rw [horig] at hcell
        cases hcell
      | src j' m'' =>
        rw [horig] at hcell
        cases hcell
        exact hw i hi j m'' horig
    · rw [Function.update_of_ne hio] at hcell
      exact hw i hi j m hcell
  | put o bytes => exact hw i hi j m (overlay_eq_src hsrc).2
  | cut n => exact hw i (Nat.lt_of_lt_of_le hi he) j m hsrc
  | append bytes =>
    obtain ⟨hout, hcell⟩ := overlay_eq_src hsrc
    have hlen : i < w.n + bytes.length := hi
    exact hw i (by omega) j m hcell
  | move dst src len =>
    have hcell : (if dst ≤ i ∧ i < dst + len then w.b (src + (i - dst)) else w.b i) = .src j m :=
      hsrc
    have hsrcLen : src + len ≤ w.n := he
    by_cases hrun : dst ≤ i ∧ i < dst + len
    · rw [if_pos hrun] at hcell
      exact hw (src + (i - dst)) (by omega) j m hcell
    · rw [if_neg hrun] at hcell
      exact hw i hi j m hcell

theorem runEdits_fromFirst {N : Nat} (es : List Edit) (w : Buf Cell) (hw : FromFirst N w)
    (hes : Within w.n es) : FromFirst N (runEdits es w) := by
  induction es generalizing w with
  | nil => exact hw
  | cons e es ih =>
    apply ih (e.apply w) (Edit.apply_fromFirst hw hes.1)
    rw [e.apply_n w]
    exact hes.2

/-- What survives of a script that stays inside is one of the bytes that counted. -/
theorem survives_lt {n : Nat} {es : List Edit} (hes : Within n es) {j : Nat}
    (hj : Survives (runEdits es (original n)) j) : j < n := by
  obtain ⟨i, hi, m, hsrc⟩ := hj
  have horig : FromFirst n (original n) := by
    intro i hi j m hsrc
    cases hsrc
    exact hi
  exact runEdits_fromFirst es (original n) horig hes i hi j m hsrc

end EditScript
