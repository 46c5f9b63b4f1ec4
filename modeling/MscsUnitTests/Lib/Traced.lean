import MscsUnitTests.Lib.Bytes

/-! # Traced Buffers

    A program that works on the first `n` bytes of a buffer, and a trace of what it
    touches. Nothing reaches the buffer but through the operations of this module, and
    each of them writes into the trace what it reads and writes, together with the
    length in force at that moment.

    * `Traced`: the buffer, the length, the part of the program that is at work, and the
      trace.
    * `Does`: a stretch of a program whose accesses are all of an allowed kind, and that
      leaves alone every byte it does not write.
    * `Does.unchanged`: a byte that lies beyond all that is allowed is still there.
-/

open ByteMem

namespace TracedMem

variable {τ : Type*}

/-! ## Section 1: Traces -/

/-- A run of bytes, and the length in force when it is touched. -/
structure Access where
  off : Nat
  len : Nat
  cur : Nat

/-- What a program does, and which part of it. -/
inductive Event (τ : Type*) where
  | enter (part : τ)
  | read (part : τ) (a : Access)
  | write (part : τ) (a : Access)
  /-- A condition is evaluated. -/
  | test (part : τ) (outcome : Bool)

/-- The access is of the allowed kind; a condition comes out true. -/
def Event.Sat (P : τ → Access → Prop) : Event τ → Prop
  | .enter _ => True
  | .read part a => P part a
  | .write part a => P part a
  | .test _ outcome => outcome = true

/-- The event writes byte `j`. -/
def Event.Writes (j : Nat) : Event τ → Prop
  | .write _ a => a.off ≤ j ∧ j < a.off + a.len
  | _ => False

structure Traced (τ : Type*) where
  mem : Mem
  n : Nat
  part : τ
  trace : List (Event τ)

/-! ## Section 2: Operations -/

namespace Traced

/-- Another part of the program takes over. -/
def enter (t : Traced τ) (part : τ) : Traced τ :=
  { t with part := part, trace := t.trace ++ [.enter part] }

/-- A run of bytes is read. -/
def reads (t : Traced τ) (o len : Nat) : Traced τ :=
  { t with trace := t.trace ++ [.read t.part ⟨o, len, t.n⟩] }

/-- A run of bytes gets what another buffer has there. -/
def writes (t : Traced τ) (o len : Nat) (m : Mem) : Traced τ :=
  { t with
    mem := fun j => if o ≤ j ∧ j < o + len then m j else t.mem j
    trace := t.trace ++ [.write t.part ⟨o, len, t.n⟩] }

def load (t : Traced τ) (o : Nat) : UInt8 × Traced τ :=
  (t.mem o, t.reads o 1)

def store (t : Traced τ) (o : Nat) (v : UInt8) : Traced τ :=
  t.writes o 1 (Function.update t.mem o v)

def loadU32 (t : Traced τ) (o : Nat) : Nat × Traced τ :=
  (rdU32 t.mem o, t.reads o 4)

def storeU32 (t : Traced τ) (o v : Nat) : Traced τ :=
  t.writes o 4 (wrU32 t.mem o v)

/-- A little-endian 16-bit word: the low half of `v`. -/
def storeU16 (t : Traced τ) (o v : Nat) : Traced τ :=
  t.writes o 2
    (Function.update (Function.update t.mem o (UInt8.ofNat v)) (o + 1) (UInt8.ofNat (v / 256)))

/-- `memmove` within the buffer. -/
def move (t : Traced τ) (d s len : Nat) : Traced τ :=
  (t.reads s len).writes d len (copyInto t.mem d t.mem s len)

def test (t : Traced τ) (outcome : Bool) : Traced τ :=
  { t with trace := t.trace ++ [.test t.part outcome] }

def resize (t : Traced τ) (n : Nat) : Traced τ :=
  { t with n := n }

/-- A buffer nothing has been done to. -/
def start (part : τ) (m : Mem) (n : Nat) : Traced τ :=
  ⟨m, n, part, []⟩

/-- The parts that took over, in order. -/
def entered (t : Traced τ) : List τ :=
  t.trace.filterMap fun e => match e with
    | .enter part => some part
    | _ => none

variable (t : Traced τ) (o len v d s n : Nat) (b : UInt8) (part : τ) (outcome : Bool)

@[simp] theorem enter_mem : (t.enter part).mem = t.mem := rfl
@[simp] theorem enter_n : (t.enter part).n = t.n := rfl
@[simp] theorem enter_part : (t.enter part).part = part := rfl
@[simp] theorem reads_mem : (t.reads o len).mem = t.mem := rfl
@[simp] theorem reads_n : (t.reads o len).n = t.n := rfl
@[simp] theorem reads_part : (t.reads o len).part = t.part := rfl
@[simp] theorem load_val : (t.load o).1 = t.mem o := rfl
@[simp] theorem load_mem : (t.load o).2.mem = t.mem := rfl
@[simp] theorem load_n : (t.load o).2.n = t.n := rfl
@[simp] theorem load_part : (t.load o).2.part = t.part := rfl
@[simp] theorem loadU32_val : (t.loadU32 o).1 = rdU32 t.mem o := rfl
@[simp] theorem loadU32_mem : (t.loadU32 o).2.mem = t.mem := rfl
@[simp] theorem loadU32_n : (t.loadU32 o).2.n = t.n := rfl
@[simp] theorem loadU32_part : (t.loadU32 o).2.part = t.part := rfl
@[simp] theorem store_n : (t.store o b).n = t.n := rfl
@[simp] theorem store_part : (t.store o b).part = t.part := rfl
@[simp] theorem storeU32_n : (t.storeU32 o v).n = t.n := rfl
@[simp] theorem storeU32_part : (t.storeU32 o v).part = t.part := rfl
@[simp] theorem storeU16_n : (t.storeU16 o v).n = t.n := rfl
@[simp] theorem storeU16_part : (t.storeU16 o v).part = t.part := rfl
@[simp] theorem move_n : (t.move d s len).n = t.n := rfl
@[simp] theorem move_part : (t.move d s len).part = t.part := rfl
@[simp] theorem test_mem : (t.test outcome).mem = t.mem := rfl
@[simp] theorem test_n : (t.test outcome).n = t.n := rfl
@[simp] theorem test_part : (t.test outcome).part = t.part := rfl
@[simp] theorem resize_mem : (t.resize n).mem = t.mem := rfl
@[simp] theorem resize_n : (t.resize n).n = n := rfl
@[simp] theorem resize_part : (t.resize n).part = t.part := rfl

@[simp] theorem store_mem : (t.store o b).mem = Function.update t.mem o b := by
  funext j
  unfold store writes
  dsimp only
  split
  · rfl
  · next h =>
    rw [Function.update_of_ne (by omega)]

@[simp] theorem storeU32_mem : (t.storeU32 o v).mem = wrU32 t.mem o v := by
  funext j
  unfold storeU32 writes
  dsimp only
  split
  · rfl
  · next h => exact (wrU32_outside t.mem o v j (by omega)).symm

@[simp] theorem storeU16_mem : (t.storeU16 o v).mem =
    Function.update (Function.update t.mem o (UInt8.ofNat v)) (o + 1) (UInt8.ofNat (v / 256)) := by
  funext j
  unfold storeU16 writes
  dsimp only
  split
  · rfl
  · next h =>
    rw [Function.update_of_ne (by omega), Function.update_of_ne (by omega)]

@[simp] theorem move_mem : (t.move d s len).mem = copyInto t.mem d t.mem s len := by
  funext j
  unfold move writes copyInto
  dsimp only
  split <;> rfl

@[simp] theorem entered_enter : (t.enter part).entered = t.entered ++ [part] := by
  simp [entered, enter]

@[simp] theorem entered_reads : (t.reads o len).entered = t.entered := by
  simp [entered, reads]

@[simp] theorem entered_writes (m : Mem) : (t.writes o len m).entered = t.entered := by
  simp [entered, writes]

@[simp] theorem entered_load : (t.load o).2.entered = t.entered := entered_reads t o 1
@[simp] theorem entered_loadU32 : (t.loadU32 o).2.entered = t.entered := entered_reads t o 4
@[simp] theorem entered_store : (t.store o b).entered = t.entered := entered_writes t o 1 _
@[simp] theorem entered_storeU32 : (t.storeU32 o v).entered = t.entered := entered_writes t o 4 _
@[simp] theorem entered_storeU16 : (t.storeU16 o v).entered = t.entered := entered_writes t o 2 _

@[simp] theorem entered_move : (t.move d s len).entered = t.entered := by
  unfold move
  rw [entered_writes, entered_reads]

@[simp] theorem entered_test : (t.test outcome).entered = t.entered := by
  simp [entered, test]

@[simp] theorem entered_resize : (t.resize n).entered = t.entered := rfl

@[simp] theorem entered_start (m : Mem) : (start part m n).entered = [] := rfl

end Traced

/-! ## Section 3: What a stretch of a program does -/

/-- From `t` the program gets to `t'`: all it touches is allowed, every condition it
    evaluates is true, and what it does not write it leaves alone. -/
def Does (P : τ → Access → Prop) (t t' : Traced τ) : Prop :=
  ∃ es, t'.trace = t.trace ++ es ∧ (∀ e ∈ es, e.Sat P) ∧
    ∀ j, (∀ e ∈ es, ¬ e.Writes j) → t'.mem j = t.mem j

section rules
variable {P Q : τ → Access → Prop} {t t₁ t₂ t' : Traced τ}

theorem Does.refl (t : Traced τ) : Does P t t :=
  ⟨[], (List.append_nil _).symm, by simp, fun _ _ => rfl⟩

/-- One stretch after the other. -/
theorem Does.trans (h₁ : Does P t t₁) (h₂ : Does P t₁ t₂) : Does P t t₂ := by
  obtain ⟨es₁, htrace₁, hsat₁, hframe₁⟩ := h₁
  obtain ⟨es₂, htrace₂, hsat₂, hframe₂⟩ := h₂
  refine ⟨es₁ ++ es₂, ?_, ?_, ?_⟩
  · rw [htrace₂, htrace₁, List.append_assoc]
  · intro e he
    rcases List.mem_append.mp he with he | he
    · exact hsat₁ e he
    · exact hsat₂ e he
  · intro j hj
    rw [hframe₂ j fun e he => hj e (List.mem_append_right _ he),
      hframe₁ j fun e he => hj e (List.mem_append_left _ he)]

/-- A single event that writes nothing. -/
theorem does_quiet (e : Event τ) (htrace : t'.trace = t.trace ++ [e]) (hmem : t'.mem = t.mem)
    (hsat : e.Sat P) : Does P t t' := by
  refine ⟨[e], htrace, ?_, ?_⟩
  · intro e' he'
    rw [List.mem_singleton.mp he']
    exact hsat
  · intro j _
    rw [hmem]

theorem does_enter (t : Traced τ) (part : τ) : Does P t (t.enter part) :=
  does_quiet (.enter part) rfl rfl trivial

theorem does_reads {o len : Nat} (h : P t.part ⟨o, len, t.n⟩) : Does P t (t.reads o len) :=
  does_quiet (.read t.part ⟨o, len, t.n⟩) rfl rfl h

theorem does_test {outcome : Bool} (h : outcome = true) : Does P t (t.test outcome) :=
  does_quiet (.test t.part outcome) rfl rfl h

theorem does_resize (t : Traced τ) (n : Nat) : Does P t (t.resize n) :=
  ⟨[], (List.append_nil _).symm, by simp, fun _ _ => rfl⟩

theorem does_writes {o len : Nat} {m : Mem} (h : P t.part ⟨o, len, t.n⟩) :
    Does P t (t.writes o len m) := by
  refine ⟨[.write t.part ⟨o, len, t.n⟩], rfl, ?_, ?_⟩
  · intro e he
    rw [List.mem_singleton.mp he]
    exact h
  · intro j hj
    have hout := hj _ (List.mem_singleton_self _)
    unfold Traced.writes
    dsimp only
    exact if_neg hout

theorem does_load {o : Nat} (h : P t.part ⟨o, 1, t.n⟩) : Does P t (t.load o).2 :=
  does_reads h

theorem does_loadU32 {o : Nat} (h : P t.part ⟨o, 4, t.n⟩) : Does P t (t.loadU32 o).2 :=
  does_reads h

theorem does_store {o : Nat} {b : UInt8} (h : P t.part ⟨o, 1, t.n⟩) : Does P t (t.store o b) :=
  does_writes h

theorem does_storeU32 {o v : Nat} (h : P t.part ⟨o, 4, t.n⟩) : Does P t (t.storeU32 o v) :=
  does_writes h

theorem does_storeU16 {o v : Nat} (h : P t.part ⟨o, 2, t.n⟩) : Does P t (t.storeU16 o v) :=
  does_writes h

theorem does_move {d s len : Nat} (hd : P t.part ⟨d, len, t.n⟩) (hs : P t.part ⟨s, len, t.n⟩) :
    Does P t (t.move d s len) :=
  (does_reads hs).trans (does_writes hd)

/-- **Frame**: a byte beyond all that may be touched is still there. -/
theorem Does.unchanged (h : Does P t t') {k j : Nat}
    (hP : ∀ part a, P part a → a.off + a.len ≤ k) (hj : k ≤ j) : t'.mem j = t.mem j := by
  obtain ⟨es, -, hsat, hframe⟩ := h
  apply hframe j
  intro e he hw
  have hP' := hsat e he
  cases e with
  | write part a =>
    have hend := hP part a hP'
    have hin : a.off ≤ j ∧ j < a.off + a.len := hw
    omega
  | enter part => exact hw
  | read part a => exact hw
  | test part outcome => exact hw

/-- From a fresh buffer, the whole trace is allowed. -/
theorem Does.trace_sat {part : τ} {m : Mem} {n : Nat} (h : Does P (Traced.start part m n) t') :
    ∀ e ∈ t'.trace, e.Sat P := by
  obtain ⟨es, htrace, hsat, -⟩ := h
  rw [htrace]
  exact hsat

end rules

end TracedMem
