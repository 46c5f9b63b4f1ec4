import Mathlib.Logic.Basic

/-! # Loops of Random Steps

    A loop that changes an input at random: each pass draws what it does, and where, from
    a generator that it hands on. Such a loop can be replayed on another input when what
    it draws depends on the length of the input alone.

    * `Step`: what one pass has drawn.
    * `DrawsByLength`: a pass that looks at nothing but the length to draw.
    * `PicksByLength`: one that picks a place, then an operation, and draws for that.
    * `loop_eq`: then the loop performs a script that is fixed by the length and the
      generator.
-/

namespace DrawnSteps

/-- One pass: which operation, where, and the values it has drawn for itself. -/
structure Step where
  op : Nat
  off : Nat
  drawn : List Nat
  deriving DecidableEq

section loop
variable {σ ρ : Type*}

/-- `for (i = 0; i < k && n > 0; ++i) { ... }` -/
def loop (len : σ → Nat) (body : σ → ρ → σ × ρ) : Nat → σ → ρ → σ × ρ
  | 0, s, r => (s, r)
  | k + 1, s, r => if len s > 0 then loop len body k (body s r).1 (body s r).2 else (s, r)

/-- A pass that draws by the length: what is drawn, what is made of it, and the length
    that is left. -/
structure DrawsByLength (len : σ → Nat) (body : σ → ρ → σ × ρ) where
  draw : Nat → ρ → Step × ρ
  perform : σ → Step → σ
  newLen : Nat → Step → Nat
  body_eq : ∀ s r, body s r = (perform s (draw (len s) r).1, (draw (len s) r).2)
  len_perform : ∀ s x, len (perform s x) = newLen (len s) x

variable {len : σ → Nat} {body : σ → ρ → σ × ρ} (D : DrawsByLength len body)

/-- The steps of the loop on an input of `n` bytes, and the generator it leaves. -/
def DrawsByLength.script : Nat → Nat → ρ → List Step × ρ
  | 0, _, r => ([], r)
  | k + 1, n, r =>
    if n > 0 then
      let x := D.draw n r
      let rest := script k (D.newLen n x.1) x.2
      (x.1 :: rest.1, rest.2)
    else ([], r)

/-- **Replay rule**: the loop performs its script, step by step, and leaves the generator
    the script leaves. -/
theorem DrawsByLength.loop_eq (k : Nat) (s : σ) (r : ρ) :
    loop len body k s r =
      ((D.script k (len s) r).1.foldl D.perform s, (D.script k (len s) r).2) := by
  induction k generalizing s r with
  | zero => rfl
  | succ k ih =>
    unfold loop script
    by_cases hpos : len s > 0
    · rw [if_pos hpos, if_pos hpos, D.body_eq]
      dsimp only
      rw [ih, D.len_perform]
      rfl
    · rw [if_neg hpos, if_neg hpos]
      rfl

/-- The length a script leaves is fixed by the length it finds. -/
theorem DrawsByLength.len_foldl (steps : List Step) (s : σ) :
    len (steps.foldl D.perform s) = steps.foldl D.newLen (len s) := by
  induction steps generalizing s with
  | nil => rfl
  | cons x steps ih => rw [List.foldl_cons, List.foldl_cons, ih, D.len_perform]

/-- A pass that picks a place and an operation, and applies it there: what is picked and
    what the operation draws, by the length. -/
structure PicksByLength (len : σ → Nat) (body : σ → ρ → σ × ρ) where
  offset : Nat → ρ → Nat × ρ
  op : ρ → Nat × ρ
  apply : σ → Nat → ρ → Nat → σ × ρ
  drawnBy : Nat → Nat → ρ → Nat → List Nat × ρ
  perform : σ → Step → σ
  newLen : Nat → Step → Nat
  body_of_draws : ∀ {s r off o}, offset (len s) r = off → op off.2 = o →
    body s r = apply s off.1 o.2 o.1
  apply_eq : ∀ s off r o, apply s off r o =
    (perform s ⟨o, off, (drawnBy (len s) off r o).1⟩, (drawnBy (len s) off r o).2)
  len_perform : ∀ s x, len (perform s x) = newLen (len s) x

variable (P : PicksByLength len body)

/-- What such a pass draws. -/
def PicksByLength.draw (n : Nat) (r : ρ) : Step × ρ :=
  let off := P.offset n r
  let o := P.op off.2
  let drawn := P.drawnBy n off.1 o.2 o.1
  (⟨o.1, off.1, drawn.1⟩, drawn.2)

theorem PicksByLength.body_eq (s : σ) (r : ρ) :
    body s r = (P.perform s (P.draw (len s) r).1, (P.draw (len s) r).2) := by
  rw [P.body_of_draws rfl rfl, P.apply_eq]
  rfl

/-- It draws by the length. -/
def PicksByLength.toDrawsByLength : DrawsByLength len body where
  draw := P.draw
  perform := P.perform
  newLen := P.newLen
  body_eq := P.body_eq
  len_perform := P.len_perform

end loop

end DrawnSteps
