import MscsUnitTests.Lib.Transitions

/-! # Writers on One Stream

    Some writers share a stream. A writer takes the lock, hands its message over in as many
    pieces as the stream takes, and gives the lock back. When the stream refuses a piece,
    the writer gives the lock back and leaves.

    * `step`: every use of the lock and every piece, one by one.
    * `Inv`: what is on the stream is one turn after the other, and each turn of a writer is
      its next message, or the part of it that was taken.
    * `run_inv`: in every interleaving, when there is a lock.
    * `turn_run`: a turn of one writer, in pieces of any sizes.
    * `cut_without_lock`: without one, a message can be cut by another.
-/

open Transitions

namespace SharedStream

variable {β : Type}

/-! ## Section 1: States and steps -/

/-- Where a writer stands. -/
inductive Phase (β : Type) where
  | idle
  /-- Its message is handed over, up to here. -/
  | sending (sent rest : List β)
  /-- A piece was refused, and it has left. -/
  | cut (rest : List β)

/-- A writer, with the messages it has not begun. -/
structure Writer (β : Type) where
  todo : List (List β)
  phase : Phase β

structure State (β : Type) where
  /-- What has been taken, with who wrote it. -/
  wire : List (Nat × β)
  lock : Option Nat
  writers : List (Writer β)
  /-- The turns that have ended: who wrote, and what was taken. -/
  log : List (Nat × List β)

/-- A step of writer `i`. -/
inductive Action where
  | enter (i : Nat)
  /-- A piece of `n` elements is taken. -/
  | send (i n : Nat)
  | leave (i : Nat)
  | fail (i : Nat)
  deriving DecidableEq

def tag (i : Nat) (l : List β) : List (Nat × β) := l.map fun b => (i, b)

def step (underLock : Bool) (s : State β) : Action → Option (State β)
  | .enter i =>
    match s.writers[i]? with
    | some ⟨m :: ms, .idle⟩ =>
      if underLock = true ∧ s.lock ≠ none then none
      else
        some { s with
          lock := if underLock = true then some i else none
          writers := s.writers.set i ⟨ms, .sending [] m⟩ }
    | _ => none
  | .send i n =>
    match s.writers[i]? with
    | some ⟨ms, .sending sent rest⟩ =>
      if 1 ≤ n ∧ n ≤ rest.length then
        some { s with
          wire := s.wire ++ tag i (rest.take n)
          writers := s.writers.set i ⟨ms, .sending (sent ++ rest.take n) (rest.drop n)⟩ }
      else none
    | _ => none
  | .leave i =>
    match s.writers[i]? with
    | some ⟨ms, .sending sent []⟩ =>
      some { s with
        lock := none
        writers := s.writers.set i ⟨ms, .idle⟩
        log := s.log ++ [(i, sent)] }
    | _ => none
  | .fail i =>
    match s.writers[i]? with
    | some ⟨ms, .sending sent (b :: rest)⟩ =>
      some { s with
        lock := none
        writers := s.writers.set i ⟨ms, .cut (b :: rest)⟩
        log := s.log ++ [(i, sent)] }
    | _ => none

/-- The writers, with their messages. -/
def start (messages : List (List (List β))) : State β :=
  ⟨[], none, messages.map fun m => ⟨m, .idle⟩, []⟩

/-! ## Section 2: The invariant -/

def Phase.isSending : Phase β → Bool
  | .sending _ _ => true
  | _ => false

/-- What the stream has taken of a turn that has not ended. -/
def Phase.sent : Phase β → List β
  | .sending sent _ => sent
  | _ => []

@[simp] theorem Phase.sent_sending (sent rest : List β) : (Phase.sending sent rest).sent = sent :=
  rfl

theorem Phase.sent_of_not_sending {p : Phase β} (h : p.isSending ≠ true) : p.sent = [] := by
  cases p with
  | sending sent rest => exact absurd rfl h
  | idle => rfl
  | cut rest => rfl

/-- The turns of a writer. -/
def turns (i : Nat) (log : List (Nat × List β)) : List (List β) :=
  (log.filter fun t => t.1 = i).map Prod.snd

/-- What is on the stream of a turn that has not ended. -/
def State.current (s : State β) : List (Nat × β) :=
  match s.lock with
  | none => []
  | some i =>
    match s.writers[i]? with
    | some w => tag i w.phase.sent
    | none => []

/-- The turns of a writer, what it is doing and what it has not begun are its messages. -/
def Account (done : List (List β)) (w : Writer β) (messages : List (List β)) : Prop :=
  match w.phase with
  | .idle => done ++ w.todo = messages
  | .sending sent rest => done ++ (sent ++ rest) :: w.todo = messages
  | .cut rest => ∃ front sent, done = front ++ [sent] ∧ front ++ (sent ++ rest) :: w.todo = messages

structure Inv (messages : List (List (List β))) (s : State β) : Prop where
  /-- The lock is held by the writer that is sending. -/
  lock : ∀ i w, s.writers[i]? = some w → (w.phase.isSending = true ↔ s.lock = some i)
  holder : ∀ i, s.lock = some i → i < s.writers.length
  wire : s.wire = s.log.flatMap (fun t => tag t.1 t.2) ++ s.current
  account : ∀ i w, s.writers[i]? = some w →
    ∃ m, messages[i]? = some m ∧ Account (turns i s.log) w m
  logged : ∀ t ∈ s.log, t.1 < s.writers.length
  size : s.writers.length = messages.length

section preservation
variable {messages : List (List (List β))} {s s' : State β}

theorem inv_start (messages : List (List (List β))) : Inv messages (start messages) where
  lock := by
    intro i w h
    simp only [start, List.getElem?_map, Option.map_eq_some_iff] at h
    obtain ⟨m, _, rfl⟩ := h
    simp [Phase.isSending, start]
  holder := by simp [start]
  wire := by simp [start, State.current]
  account := by
    intro i w h
    simp only [start, List.getElem?_map, Option.map_eq_some_iff] at h
    obtain ⟨m, hm, rfl⟩ := h
    exact ⟨m, hm, rfl⟩
  logged := by simp [start]
  size := by simp [start]

theorem turns_append (i j : Nat) (log : List (Nat × List β)) (sent : List β) :
    turns j (log ++ [(i, sent)]) = if i = j then turns j log ++ [sent] else turns j log := by
  unfold turns
  rw [List.filter_append]
  split
  · next h => simp [h]
  · next h => simp [h]

theorem current_of_sending {i : Nat} {ms : List (List β)} {sent rest : List β}
    (hlock : s.lock = some i) (hi : s.writers[i]? = some ⟨ms, .sending sent rest⟩) :
    s.current = tag i sent := by
  simp [State.current, hlock, hi]

theorem current_of_free (hlock : s.lock = none) : s.current = [] := by
  unfold State.current
  rw [hlock]

/-- **A step of one writer** keeps the invariant when it accounts for what it does. -/
theorem Inv.writer (h : Inv messages s) {i : Nat} {old new : Writer β}
    (hi : s.writers[i]? = some old) (hwriters : s'.writers = s.writers.set i new)
    (hlock : new.phase.isSending = true ↔ s'.lock = some i)
    (hother : ∀ j, j ≠ i → (s'.lock = some j ↔ s.lock = some j))
    (hlog : ∀ j, j ≠ i → turns j s'.log = turns j s.log)
    (hlogged : ∀ t ∈ s'.log, t ∈ s.log ∨ t.1 = i)
    (haccount : ∀ m, Account (turns i s.log) old m → Account (turns i s'.log) new m)
    (hwire : s'.wire = s'.log.flatMap (fun t => tag t.1 t.2) ++ s'.current) : Inv messages s' where
  lock := by
    intro j w hj
    rw [hwriters, List.getElem?_set] at hj
    by_cases hij : i = j
    · subst hij
      rw [if_pos rfl] at hj
      split at hj
      · cases hj
        exact hlock
      · cases hj
    · rw [if_neg hij] at hj
      rw [hother j (Ne.symm hij)]
      exact h.lock j w hj
  holder := by
    intro j hj
    rw [hwriters, List.length_set]
    by_cases hij : j = i
    · rw [hij]
      exact (List.getElem?_eq_some_iff.mp hi).1
    · exact h.holder j ((hother j hij).mp hj)
  wire := hwire
  account := by
    intro j w hj
    rw [hwriters, List.getElem?_set] at hj
    by_cases hij : i = j
    · subst hij
      rw [if_pos rfl] at hj
      split at hj
      · cases hj
        obtain ⟨m, hm, hold⟩ := h.account i old hi
        exact ⟨m, hm, haccount m hold⟩
      · cases hj
    · rw [if_neg hij] at hj
      rw [hlog j (Ne.symm hij)]
      exact h.account j w hj
  logged := by
    intro t ht
    rw [hwriters, List.length_set]
    rcases hlogged t ht with hold | hnew
    · exact h.logged t hold
    · rw [hnew]
      exact (List.getElem?_eq_some_iff.mp hi).1
  size := by
    rw [hwriters, List.length_set]
    exact h.size

/-- A writer that sends holds the lock. -/
theorem Inv.lock_of_sending (h : Inv messages s) {i : Nat} {ms : List (List β)}
    {sent rest : List β} (hi : s.writers[i]? = some ⟨ms, .sending sent rest⟩) :
    s.lock = some i := (h.lock i _ hi).mp rfl

theorem lt_of_writer {i : Nat} {w : Writer β} (hi : s.writers[i]? = some w) :
    i < s.writers.length := (List.getElem?_eq_some_iff.mp hi).1

/-- A writer takes the lock: nobody had it. -/
theorem Inv.enter (h : Inv messages s) {i : Nat} {m : List β} {ms : List (List β)}
    (hi : s.writers[i]? = some ⟨m :: ms, .idle⟩) (hfree : s.lock = none) :
    Inv messages { s with
      lock := some i
      writers := s.writers.set i ⟨ms, .sending [] m⟩ } := by
  refine h.writer hi rfl (by simp [Phase.isSending]) ?_ (fun _ _ => rfl)
    (fun _ => Or.inl) ?_ ?_
  · intro j hj
    simp [hfree, Ne.symm hj]
  · intro messages' haccount
    simpa [Account] using haccount
  · have hcurrent := current_of_free hfree
    have hwire := h.wire
    rw [hcurrent, List.append_nil] at hwire
    rw [current_of_sending rfl (List.getElem?_set_self (lt_of_writer hi))]
    simpa [tag] using hwire

/-- The stream takes a piece. -/
theorem Inv.send (h : Inv messages s) {i : Nat} (n : Nat) {ms : List (List β)} {sent rest : List β}
    (hi : s.writers[i]? = some ⟨ms, .sending sent rest⟩) :
    Inv messages { s with
      wire := s.wire ++ tag i (rest.take n)
      writers := s.writers.set i ⟨ms, .sending (sent ++ rest.take n) (rest.drop n)⟩ } := by
  have hlock := h.lock_of_sending hi
  refine h.writer hi rfl (by simp [Phase.isSending, hlock]) (fun _ _ => Iff.rfl)
    (fun _ _ => rfl) (fun _ => Or.inl) ?_ ?_
  · intro messages' haccount
    simpa [Account] using haccount
  · have hwire := h.wire
    rw [current_of_sending hlock hi] at hwire
    show s.wire ++ tag i (rest.take n) = s.log.flatMap _ ++ _
    rw [current_of_sending
      (s := { s with
        wire := s.wire ++ tag i (rest.take n)
        writers := s.writers.set i ⟨ms, .sending (sent ++ rest.take n) (rest.drop n)⟩ })
      hlock (List.getElem?_set_self (lt_of_writer hi)), hwire, List.append_assoc]
    simp [tag]

/-- A turn ends: its writer gives the lock back. -/
theorem Inv.finish (h : Inv messages s) {i : Nat} {ms : List (List β)} {sent rest : List β}
    (hi : s.writers[i]? = some ⟨ms, .sending sent rest⟩) {phase : Phase β}
    (hphase : phase.isSending = false)
    (haccount : ∀ m, Account (turns i s.log) ⟨ms, .sending sent rest⟩ m →
      Account (turns i s.log ++ [sent]) ⟨ms, phase⟩ m) :
    Inv messages { s with
      lock := none
      writers := s.writers.set i ⟨ms, phase⟩
      log := s.log ++ [(i, sent)] } := by
  have hlock := h.lock_of_sending hi
  refine h.writer hi rfl (by simp [hphase]) ?_ ?_ ?_ ?_ ?_
  · intro j hj
    simp [hlock, Ne.symm hj]
  · intro j hj
    show turns j (s.log ++ [(i, sent)]) = _
    rw [turns_append, if_neg (Ne.symm hj)]
  · intro t ht
    rcases List.mem_append.mp ht with hold | hnew
    · exact Or.inl hold
    · rw [List.mem_singleton.mp hnew]
      exact Or.inr rfl
  · intro m hm
    show Account (turns i (s.log ++ [(i, sent)])) _ m
    rw [turns_append, if_pos rfl]
    exact haccount m hm
  · -- what was on the stream of the turn is now in the log
    have hwire := h.wire
    rw [current_of_sending hlock hi] at hwire
    rw [current_of_free rfl, List.append_nil]
    show s.wire = (s.log ++ [(i, sent)]).flatMap _
    rw [hwire, List.flatMap_append, List.flatMap_singleton]

theorem Inv.step (h : Inv messages s) {a : Action}
    (hstep : SharedStream.step true s a = some s') : Inv messages s' := by
  cases a with
  | enter i =>
    simp only [SharedStream.step] at hstep
    split at hstep
    · next hi =>
      split at hstep
      · cases hstep
      · next hfree =>
        simp only [if_pos, Option.some.injEq] at hstep
        subst hstep
        exact h.enter hi (by simpa using hfree)
    · cases hstep
  | send i n =>
    simp only [SharedStream.step] at hstep
    split at hstep
    · next hi =>
      split at hstep
      · simp only [Option.some.injEq] at hstep
        subst hstep
        exact h.send n hi
      · cases hstep
    · cases hstep
  | leave i =>
    simp only [SharedStream.step] at hstep
    split at hstep
    · next hi =>
      simp only [Option.some.injEq] at hstep
      subst hstep
      refine h.finish hi rfl ?_
      intro m hm
      simpa [Account] using hm
    · cases hstep
  | fail i =>
    simp only [SharedStream.step] at hstep
    split at hstep
    · next ms sent b rest hi =>
      simp only [Option.some.injEq] at hstep
      subst hstep
      refine h.finish hi rfl ?_
      intro m hm
      exact ⟨_, sent, rfl, hm⟩
    · cases hstep

/-- **Under the lock**, in every interleaving. -/
theorem run_inv {as : List Action} (hrun : Run (SharedStream.step true) (start messages) as s) :
    Inv messages s :=
  hrun.inv (fun _ _ _ hinv hstep => hinv.step hstep) (inv_start messages)

end preservation

/-! ## Section 3: The turns of a writer -/

/-- What the turns of the log put on the stream. -/
def onStream (log : List (Nat × List β)) : List (Nat × β) := log.flatMap fun t => tag t.1 t.2

@[simp] theorem onStream_append (log log' : List (Nat × List β)) :
    onStream (log ++ log') = onStream log ++ onStream log' := List.flatMap_append

@[simp] theorem tag_append (i : Nat) (l l' : List β) : tag i (l ++ l') = tag i l ++ tag i l' :=
  List.map_append

/-- Turns of one writer only. -/
theorem onStream_of_all {i : Nat} {log : List (Nat × List β)} (h : ∀ t ∈ log, t.1 = i) :
    onStream log = tag i (turns i log).flatten := by
  induction log with
  | nil => rfl
  | cons t log ih =>
    rw [List.forall_mem_cons] at h
    have hcons : onStream (t :: log) = tag t.1 t.2 ++ onStream log := List.flatMap_cons
    rw [hcons, ih h.2, h.1]
    simp [turns, h.1]

/-- A turn of a writer stands between what was written before it and after it. -/
theorem log_of_turns {i : Nat} {log : List (Nat × List β)} {front back : List (List β)}
    {m : List β} (h : turns i log = front ++ m :: back) :
    ∃ l₁ l₂, log = l₁ ++ (i, m) :: l₂ ∧ turns i l₁ = front ∧ turns i l₂ = back := by
  obtain ⟨f₁, f₂, hfilter, hfront, hrest⟩ := List.map_eq_append_iff.mp h
  obtain ⟨t, f₃, rfl, hm, hback⟩ := List.map_eq_cons_iff.mp hrest
  obtain ⟨l₁, l₂, rfl, hl₁, hl₂⟩ := List.filter_eq_append_iff.mp hfilter
  obtain ⟨l₃, l₄, rfl, hl₃, ht, hl₄⟩ := List.filter_eq_cons_iff.mp hl₂
  have hti : t = (i, m) := Prod.ext (of_decide_eq_true ht) hm
  refine ⟨l₁ ++ l₃, l₄, by rw [hti, List.append_assoc], ?_, ?_⟩
  · have hnone : l₃.filter (fun t => t.1 = i) = [] := List.filter_eq_nil_iff.mpr hl₃
    unfold turns
    rw [List.filter_append, hl₁, hnone, List.append_nil]
    exact hfront
  · unfold turns
    rw [hl₄]
    exact hback

section account
variable {done : List (List β)} {w : Writer β} {messages : List (List β)}

/-- **Nothing is lost, nothing comes twice and nothing overtakes**: a writer has put the
    first part of its messages on the stream. -/
theorem Account.sent_prefix (h : Account done w messages) :
    done.flatten ++ w.phase.sent <+: messages.flatten := by
  obtain ⟨todo, phase⟩ := w
  cases phase with
  | idle =>
    simp only [Account] at h
    simp [Phase.sent, ← h]
  | sending sent rest =>
    simp only [Account] at h
    simp [Phase.sent, ← h, List.append_assoc]
  | cut rest =>
    obtain ⟨front, sent, rfl, hmessages⟩ := h
    simp [Phase.sent, ← hmessages, List.append_assoc]

/-- What a writer put on the stream before its last turns are whole messages. -/
theorem Account.whole (h : Account done w messages) {d₁ d₂ : List (List β)} (hdone : done = d₁ ++ d₂)
    (hmore : d₂.flatten ++ w.phase.sent ≠ []) : d₁ <+: messages := by
  obtain ⟨todo, phase⟩ := w
  subst hdone
  cases phase with
  | idle =>
    simp only [Account] at h
    exact ⟨d₂ ++ todo, by rw [← h, List.append_assoc]⟩
  | sending sent rest =>
    simp only [Account] at h
    exact ⟨d₂ ++ (sent ++ rest) :: todo, by rw [← h, List.append_assoc]⟩
  | cut rest =>
    obtain ⟨front, sent, hfront, hmessages⟩ := h
    have hd₂ : d₂ ≠ [] := by
      rintro rfl
      simp [Phase.sent] at hmore
    -- the turn that was cut is the last one, so it is not among the first
    rw [← List.dropLast_concat_getLast hd₂, ← List.append_assoc] at hfront
    have hfirst := (List.append_inj' hfront rfl).1
    exact ⟨d₂.dropLast ++ (sent ++ rest) :: todo, by rw [← hmessages, ← hfirst, List.append_assoc]⟩

end account

/-! ## Section 4: One turn -/

/-- The pieces of a message, one after the other. -/
theorem pieces_exec (underLock : Bool) {s : State β} {i : Nat} {ms : List (List β)}
    {sent rest : List β} (hi : s.writers[i]? = some ⟨ms, .sending sent rest⟩) {ns : List Nat}
    (hpos : ∀ n ∈ ns, 1 ≤ n) (hsum : ns.sum ≤ rest.length) :
    exec (step underLock) s (ns.map (Action.send i)) = some { s with
      wire := s.wire ++ tag i (rest.take ns.sum)
      writers := s.writers.set i ⟨ms, .sending (sent ++ rest.take ns.sum) (rest.drop ns.sum)⟩ } := by
  induction ns generalizing s sent rest with
  | nil =>
    obtain ⟨hlt, hget⟩ := List.getElem?_eq_some_iff.mp hi
    have hself : s.writers.set i ⟨ms, .sending sent rest⟩ = s.writers := by
      rw [← hget, List.set_getElem_self]
    simp [exec, tag, hself]
  | cons n ns ih =>
    rw [List.forall_mem_cons] at hpos
    rw [List.sum_cons] at hsum
    have hpiece : 1 ≤ n ∧ n ≤ rest.length := ⟨hpos.1, by omega⟩
    have hlt := (List.getElem?_eq_some_iff.mp hi).1
    have hrest : ns.sum ≤ (rest.drop n).length := by
      rw [List.length_drop]
      omega
    rw [List.map_cons, exec, step, hi]
    dsimp only
    rw [if_pos hpiece, Option.bind_some, ih (List.getElem?_set_self hlt) hpos.2 hrest]
    simp [tag, List.take_add, List.drop_drop]

/-- **A turn**: a writer that finds the lock free hands its next message over. -/
theorem turn_run {s : State β} {i : Nat} {m : List β} {ms : List (List β)}
    (hi : s.writers[i]? = some ⟨m :: ms, .idle⟩) (hfree : s.lock = none) {ns : List Nat}
    (hpos : ∀ n ∈ ns, 1 ≤ n) (hsum : ns.sum = m.length) :
    Run (step true) s (.enter i :: (ns.map (Action.send i) ++ [.leave i]))
      ⟨s.wire ++ tag i m, none, s.writers.set i ⟨ms, .idle⟩, s.log ++ [(i, m)]⟩ := by
  have hlt := (List.getElem?_eq_some_iff.mp hi).1
  have henter : step true s (.enter i) = some { s with
      lock := some i
      writers := s.writers.set i ⟨ms, .sending [] m⟩ } := by
    rw [step, hi]
    simp [hfree]
  have hpieces := pieces_exec true
    (s := { s with
      lock := some i
      writers := s.writers.set i ⟨ms, .sending [] m⟩ })
    (List.getElem?_set_self hlt) hpos (Nat.le_of_eq hsum)
  refine Run.trans (.snoc .nil henter) (Run.snoc (run_of_exec hpieces) ?_)
  simp [step, hlt, hsum]

/-- A turn that ends with a piece the stream refuses. -/
theorem cut_run {s : State β} {i : Nat} {m : List β} {ms : List (List β)}
    (hi : s.writers[i]? = some ⟨m :: ms, .idle⟩) (hfree : s.lock = none) {ns : List Nat}
    (hpos : ∀ n ∈ ns, 1 ≤ n) (hsum : ns.sum < m.length) :
    Run (step true) s (.enter i :: (ns.map (Action.send i) ++ [.fail i]))
      ⟨s.wire ++ tag i (m.take ns.sum), none, s.writers.set i ⟨ms, .cut (m.drop ns.sum)⟩,
        s.log ++ [(i, m.take ns.sum)]⟩ := by
  have hlt := (List.getElem?_eq_some_iff.mp hi).1
  have henter : step true s (.enter i) = some { s with
      lock := some i
      writers := s.writers.set i ⟨ms, .sending [] m⟩ } := by
    rw [step, hi]
    simp [hfree]
  have hpieces := pieces_exec true
    (s := { s with
      lock := some i
      writers := s.writers.set i ⟨ms, .sending [] m⟩ })
    (List.getElem?_set_self hlt) hpos (Nat.le_of_lt hsum)
  have hrefused : m.drop ns.sum ≠ [] := by
    rw [ne_eq, List.drop_eq_nil_iff]
    omega
  obtain ⟨b, rest, hdrop⟩ := List.exists_cons_of_ne_nil hrefused
  rw [hdrop] at hpieces ⊢
  refine Run.trans (.snoc .nil henter) (Run.snoc (run_of_exec hpieces) ?_)
  simp [step, hlt]

/-- All the messages of a writer, when nobody else writes. -/
theorem turns_run (i : Nat) (ms rest : List (List β)) {s : State β}
    (hi : s.writers[i]? = some ⟨ms ++ rest, .idle⟩) (hfree : s.lock = none) :
    ∃ as, Run (step true) s as ⟨s.wire ++ tag i ms.flatten, none, s.writers.set i ⟨rest, .idle⟩,
      s.log ++ ms.map fun m => (i, m)⟩ := by
  induction ms generalizing s with
  | nil =>
    obtain ⟨hlt, hget⟩ := List.getElem?_eq_some_iff.mp hi
    have hself : s.writers.set i ⟨rest, .idle⟩ = s.writers := by
      rw [← List.nil_append rest, ← hget, List.set_getElem_self]
    refine ⟨[], ?_⟩
    rw [hself, ← hfree]
    simpa [tag] using Run.nil
  | cons m ms ih =>
    have hlt := (List.getElem?_eq_some_iff.mp hi).1
    have hone : ∀ n ∈ List.replicate m.length 1, 1 ≤ n := fun n hn =>
      Nat.le_of_eq (List.eq_of_mem_replicate hn).symm
    have hturn := turn_run hi hfree hone (by simp)
    obtain ⟨as, hrun⟩ := ih
      (s := ⟨s.wire ++ tag i m, none, s.writers.set i ⟨ms ++ rest, .idle⟩, s.log ++ [(i, m)]⟩)
      (List.getElem?_set_self hlt) rfl
    exact ⟨_, hturn.trans (by simpa using hrun)⟩

/-! ## Section 5: Without a lock -/

/-- **Without a lock** a message can be cut by another, anywhere. -/
theorem cut_without_lock (m₀ m₁ m₂ : List β) (h₀ : m₀ ≠ []) (h₁ : m₁ ≠ []) (h₂ : m₂ ≠ []) :
    ∃ as s, Run (SharedStream.step false) (start [[m₀ ++ m₂], [m₁]]) as s ∧
      s.wire = tag 0 m₀ ++ tag 1 m₁ ++ tag 0 m₂ ∧
      s.writers = [⟨[], .idle⟩, ⟨[], .idle⟩] := by
  have hpos₀ := List.length_pos_iff.mpr h₀
  have hpos₁ := List.length_pos_iff.mpr h₁
  have hpos₂ := List.length_pos_iff.mpr h₂
  refine ⟨[.enter 0, .send 0 m₀.length, .enter 1, .send 1 m₁.length, .leave 1,
    .send 0 m₂.length, .leave 0], ⟨tag 0 m₀ ++ tag 1 m₁ ++ tag 0 m₂, none,
      [⟨[], .idle⟩, ⟨[], .idle⟩], [(1, m₁), (0, m₀ ++ m₂)]⟩, run_of_exec ?_, rfl, rfl⟩
  have hle₀ : 1 ≤ m₀.length ∧ m₀.length ≤ (m₀ ++ m₂).length := by
    rw [List.length_append]
    omega
  simp [exec, SharedStream.step, start, hle₀, Nat.succ_le_of_lt hpos₁, Nat.succ_le_of_lt hpos₂]

end SharedStream
