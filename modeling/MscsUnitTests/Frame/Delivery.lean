import MscsUnitTests.Frame.Drive

/-! # The Framing Harness: What is Delivered

    The request of each completion is read back from a record that the parser
    under test owns and may set to anything. Whatever it does, `Drive` hands it
    the wire in order, stays on the wire and keeps to its budget.

    The invariant is `Faithful`. It is kept by every turn, because a turn that goes on
    has either delivered (`deliver_faithful`) or not touched what was delivered.
-/

open ByteMem FuzzRng BoundedLoop

namespace FuzzFrame

section delivery
variable {σ : Type} {p : Parser σ} {oWire : Wire} {bSplit : Bool} {st st' : DriveState σ}

/-! ## Section 1: One completion -/

/-- The bytes of a list of completions, in order. They are what the parser then has in its
    buffer (`deliver_written`). -/
def delivered (chunks : List Chunk) : List UInt8 :=
  (chunks.map Chunk.bytes).flatten

@[simp] theorem delivered_nil : delivered [] = [] := rfl

theorem delivered_concat (chunks : List Chunk) (c : Chunk) :
    delivered (chunks ++ [c]) = delivered chunks ++ c.bytes := by
  simp [delivered]

/-- A request is for at least one byte. -/
theorem request_pos {pOv : Overlapped} {dst : Dst} {nWant : Nat}
    (h : request pOv = some (dst, nWant)) : 0 < nWant := by
  unfold request at h
  split at h
  · -- the header: below its length there is a rest
    split at h
    · cases h
    · cases h
      omega
  · split at h
    · split at h
      · cases h
      · cases h
        omega
    · cases h

theorem takeLen_pos (bSplit : Bool) {n : Nat} (oRng : Rng) (hn : 0 < n) :
    0 < (takeLen bSplit n oRng).1 := by
  unfold takeLen
  split
  · show 0 < 1 + (oRng.below n).1
    omega
  · exact hn

/-- The buffer a completion goes to. -/
def Overlapped.buffer (pOv : Overlapped) : Dst → Option Mem
  | .db1 => pOv.pUserDB1
  | .db2 => pOv.pUserDB2

theorem buffer_of_request {pOv : Overlapped} {dst : Dst} {nWant : Nat}
    (h : request pOv = some (dst, nWant)) : ∃ m, pOv.buffer dst = some m := by
  unfold request at h
  split at h
  · split at h
    · cases h
    · next m hm =>
      cases h
      exact ⟨m, hm⟩
  · split at h
    · next m hm =>
      split at h
      · cases h
      · cases h
        exact ⟨_, by assumption⟩
    · cases h

/-- What a completion has copied is what stands in the buffer behind the bytes that
    were there. -/
theorem deliver_written (h : deliver oWire bSplit st = some st') :
    ∃ dst c m, request st.oOv = some (dst, c.asked) ∧ st'.chunks = st.chunks ++ [c] ∧
      st'.oOv.buffer dst = some m ∧ st'.oOv.dwBytes = st.oOv.dwBytes + c.bytes.length ∧
      firstBytes (fun i => m (st.oOv.dwBytes + i)) c.bytes.length = c.bytes := by
  obtain ⟨dst, nWant, n, hreq, _, _, rfl⟩ := deliver_eq_some h
  obtain ⟨m, hm⟩ := buffer_of_request hreq
  have hcopied : firstBytes (fun i => copyInto m st.oOv.dwBytes oWire.b st.nFed n.1
      (st.oOv.dwBytes + i)) n.1 = firstBytes (fun i => oWire.b (st.nFed + i)) n.1 := by
    rw [firstBytes_eq_iff]
    intro i hi
    rw [copyInto_inside _ _ _ _ _ _ (by omega) (by omega), Nat.add_sub_cancel_left]
  refine ⟨dst, ⟨nWant, u32Sub oWire.n st.nFed, firstBytes (fun i => oWire.b (st.nFed + i)) n.1⟩,
    copyInto m st.oOv.dwBytes oWire.b st.nFed n.1, hreq, rfl, ?_, ?_, ?_⟩
  · cases dst
    · show Option.map _ st.oOv.pUserDB1 = _
      rw [show st.oOv.pUserDB1 = some m from hm]
      rfl
    · show Option.map _ st.oOv.pUserDB2 = _
      rw [show st.oOv.pUserDB2 = some m from hm]
      rfl
  · cases dst <;> simp [Overlapped.receive]
  · simpa using hcopied

/-! ## Section 2: The invariant -/

/-- **Delivery invariant**: what was copied, in order, is the beginning of the wire
    up to `nFed`, in pieces of at least a byte and at most what was asked for. -/
structure Faithful (oWire : Wire) (st : DriveState σ) : Prop where
  fed_le : st.nFed ≤ oWire.n
  bytes_eq : delivered st.chunks = oWire.bytes.take st.nFed
  sizes : ∀ c ∈ st.chunks, 1 ≤ c.bytes.length ∧ c.bytes.length ≤ c.asked

theorem faithful_start (io : σ) (oRng : Rng) : Faithful oWire (DriveState.start io oRng) where
  fed_le := Nat.zero_le _
  bytes_eq := rfl
  sizes := by
    intro c hc
    cases hc

theorem deliver_faithful (hw : oWire.n < 2 ^ 32) (hst : Faithful oWire st)
    (h : deliver oWire bSplit st = some st') : Faithful oWire st' := by
  have hfed : st'.nFed ≤ oWire.n := deliver_nFed hw hst.fed_le h
  obtain ⟨dst, nWant, n, hreq, hleft, hn, rfl⟩ := deliver_eq_some h
  refine ⟨hfed, ?_, ?_⟩
  · -- the wire up to the new mark is the wire up to the old one and this piece
    have hfed₀ := hst.fed_le
    dsimp only at hfed ⊢
    rw [delivered_concat, hst.bytes_eq]
    unfold Wire.bytes
    rw [firstBytes_take, firstBytes_take, Nat.min_eq_left hfed, Nat.min_eq_left hfed₀,
      firstBytes_add]
  · intro c hc
    rcases List.mem_append.mp hc with hold | hnew
    · exact hst.sizes c hold
    · obtain rfl := List.mem_singleton.mp hnew
      have hwant := request_pos hreq
      have hpos := takeLen_pos bSplit (n := min nWant (u32Sub oWire.n st.nFed)) st.oRng (by omega)
      have hle := takeLen_le bSplit (min nWant (u32Sub oWire.n st.nFed)) st.oRng
      rw [← hn] at hpos hle
      refine ⟨?_, ?_⟩
      · rw [firstBytes_length]
        omega
      · rw [firstBytes_length]
        show n.1 ≤ nWant
        omega

/-- **What a turn that ends the loop has done**: found nothing to deliver, taken the
    last message, or passed on how the parser ended. -/
theorem onTurn_stop {t : Turn} {e : Outcome} (h : onTurn oWire bSplit st t = .stop (e, st')) :
    (e = .starved ∧ deliver oWire bSplit st = none ∧ st' = st) ∨
    (e = .msg ∧ oWire.n ≤ st.nFed ∧ st' = { st with nMsgs := st.nMsgs + 1 }) ∨
    (e ≠ .starved ∧ e ≠ .msg ∧ e ≠ .budget ∧ st' = st) := by
  unfold onTurn at h
  split at h
  · split at h
    · split at h
      · next hd =>
        cases h
        exact Or.inl ⟨rfl, hd, rfl⟩
      · cases h
    · cases h
      exact Or.inr (Or.inr ⟨by decide, by decide, by decide, rfl⟩)
  · cases h
    exact Or.inr (Or.inr ⟨by decide, by decide, by decide, rfl⟩)
  · cases h
    exact Or.inr (Or.inr ⟨by decide, by decide, by decide, rfl⟩)
  · split at h
    · next hall =>
      cases h
      exact Or.inr (Or.inl ⟨rfl, hall, rfl⟩)
    · cases h
  · cases h
    exact Or.inr (Or.inr ⟨by decide, by decide, by decide, rfl⟩)

/-- What an outcome says about the state the loop was left in. -/
def Justified (oWire : Wire) (q : Outcome × DriveState σ) : Prop :=
  Faithful oWire q.2 ∧ q.1 ≠ .budget ∧
  (q.1 = .msg → q.2.nFed = oWire.n ∧ 1 ≤ q.2.nMsgs) ∧
  (q.1 = .starved → q.2.nFed = oWire.n ∨ request q.2.oOv = none)

/-- **Step lemma**: a turn keeps the invariant, or leaves the loop with an outcome
    that is justified. -/
theorem driveTurn_faithful (hw : oWire.n < 2 ^ 32) (st : DriveState σ) (hst : Faithful oWire st) :
    (driveTurn p oWire bSplit st).Meets (Justified oWire) (Faithful oWire) := by
  have hcall : Faithful oWire (afterCall p st) := ⟨hst.fed_le, hst.bytes_eq, hst.sizes⟩
  cases hturn : driveTurn p oWire bSplit st with
  | again st₂ =>
    rcases onTurn_again hturn with ⟨m, st₁, _, _, hd, rfl⟩ | ⟨_, _, rfl⟩
    · have h₁ := deliver_faithful hw hcall hd
      exact ⟨h₁.fed_le, h₁.bytes_eq, h₁.sizes⟩
    · exact ⟨hcall.fed_le, hcall.bytes_eq, hcall.sizes⟩
  | stop q =>
    obtain ⟨e, st₂⟩ := q
    rcases onTurn_stop hturn with ⟨rfl, hd, rfl⟩ | ⟨rfl, hall, rfl⟩ | ⟨hs, hm, hb, rfl⟩
    · refine ⟨hcall, ?_, ?_, ?_⟩
      · intro h
        cases h
      · intro h
        cases h
      · -- nothing was delivered: no request, or no byte left
        intro _
        rcases (deliver_none_iff _).mp hd with hreq | hleft
        · exact Or.inr hreq
        · have hfed := hcall.fed_le
          rw [u32Sub_of_le hw hfed] at hleft
          exact Or.inl (Nat.le_antisymm hfed (Nat.le_of_sub_eq_zero hleft))
    · refine ⟨⟨hcall.fed_le, hcall.bytes_eq, hcall.sizes⟩, ?_, ?_, ?_⟩
      · intro h
        cases h
      · intro _
        refine ⟨Nat.le_antisymm hcall.fed_le hall, ?_⟩
        show 1 ≤ (afterCall p st).nMsgs + 1
        omega
      · intro h
        cases h
    · exact ⟨hcall, hb, fun h => absurd h hm, fun h => absurd h hs⟩

/-! ## Section 3: The whole drive -/

variable (p) (oWire) (bSplit)

/-- The loop of `Drive` after at most `k` turns. -/
def driveUpTo (io : σ) (oRng : Rng) (k : Nat) :
    Exit (Outcome × DriveState σ) (DriveState σ) :=
  run (driveTurn p oWire bSplit) k (.start (p.fresh io) oRng)

/-- The state a loop was left in. -/
def endState : Exit (Outcome × DriveState σ) (DriveState σ) → DriveState σ
  | .broke q => q.2
  | .spent st => st

theorem driveUpTo_faithful (hw : oWire.n < 2 ^ 32) (io : σ) (oRng : Rng) (k : Nat) :
    (driveUpTo p oWire bSplit io oRng k).Meets (Justified oWire) (Faithful oWire) :=
  run_inv (driveTurn_faithful hw) k _ (faithful_start _ _)

theorem endState_faithful (hw : oWire.n < 2 ^ 32) (io : σ) (oRng : Rng) (k : Nat) :
    Faithful oWire (endState (driveUpTo p oWire bSplit io oRng k)) := by
  have h := driveUpTo_faithful p oWire bSplit hw io oRng k
  cases hexit : driveUpTo p oWire bSplit io oRng k with
  | broke q =>
    rw [hexit] at h
    exact h.1
  | spent st =>
    rw [hexit] at h
    exact h

/-- A turn that goes on is counted, and one that ends the loop is not. -/
theorem driveUpTo_nTurn (io : σ) (oRng : Rng) (k : Nat) :
    (driveUpTo p oWire bSplit io oRng k).Meets (fun q => q.2.nTurn < k) (fun st => st.nTurn = k) := by
  have hstop : ∀ (st : DriveState σ) (q : Outcome × DriveState σ),
      driveTurn p oWire bSplit st = .stop q → q.2.nTurn = st.nTurn := by
    intro st q hturn
    obtain ⟨e, st₂⟩ := q
    rcases onTurn_stop hturn with ⟨_, _, rfl⟩ | ⟨_, _, rfl⟩ | ⟨_, _, _, rfl⟩ <;> rfl
  have hagain : ∀ st st₂ : DriveState σ,
      driveTurn p oWire bSplit st = .again st₂ → st₂.nTurn = st.nTurn + 1 := by
    intro st st₂ hturn
    rcases onTurn_again hturn with ⟨_, st₁, _, _, hd, rfl⟩ | ⟨_, _, rfl⟩
    · obtain ⟨_, _, _, _, _, _, rfl⟩ := deliver_eq_some hd
      rfl
    · rfl
  have hcount := run_count hstop hagain k (.start (p.fresh io) oRng)
  have hzero : (DriveState.start (p.fresh io) oRng).nTurn = 0 := rfl
  rw [hzero, Nat.zero_add] at hcount
  unfold driveUpTo
  cases hexit : run (driveTurn p oWire bSplit) k (.start (p.fresh io) oRng) with
  | broke q =>
    rw [hexit] at hcount
    exact hcount.2
  | spent st =>
    rw [hexit] at hcount
    exact hcount

/-! ## Section 4: Counting the calls -/

/-- The parser with a counter of its calls since the last `new P2Peerio`. -/
def Parser.counted : Parser (σ × Nat) where
  fresh s := (p.fresh s.1, 0)
  recvP2PeerMsg s oOv :=
    let r := p.recvP2PeerMsg s.1 oOv
    ⟨r.turn, r.asserts, (r.io, s.2 + 1), r.oOv⟩

/-- A state seen through a view of the parser's own state. -/
def DriveState.mapIo {τ : Type} (f : σ → τ) (st : DriveState σ) : DriveState τ :=
  { io := f st.io, oOv := st.oOv, nFed := st.nFed, nTurn := st.nTurn, nMsgs := st.nMsgs,
    oRng := st.oRng, nAsserts := st.nAsserts, chunks := st.chunks }

/-- The harness never looks at the parser's own state. -/
theorem onTurn_mapIo {τ : Type} (f : σ → τ) (st : DriveState σ) (t : Turn) :
    onTurn oWire bSplit (st.mapIo f) t =
      (onTurn oWire bSplit st t).map (fun q => (q.1, q.2.mapIo f)) (DriveState.mapIo f) := by
  have hdeliver : deliver oWire bSplit (st.mapIo f)
      = (deliver oWire bSplit st).map (DriveState.mapIo f) := by
    unfold deliver DriveState.mapIo
    dsimp only
    split
    · rfl
    · split <;> rfl
  cases t with
  | event m =>
    unfold onTurn
    rw [hdeliver]
    dsimp only
    split
    · cases deliver oWire bSplit st <;> rfl
    · rfl
  | assertTrap => rfl
  | other => rfl
  | msg =>
    unfold onTurn
    dsimp only
    have hfed : (st.mapIo f).nFed = st.nFed := rfl
    rw [hfed]
    split <;> rfl
  | null => rfl

theorem driveUpTo_counted (io : σ × Nat) (oRng : Rng) (k : Nat) :
    driveUpTo p oWire bSplit io.1 oRng k =
      (driveUpTo p.counted oWire bSplit io oRng k).map
        (fun q => (q.1, q.2.mapIo Prod.fst)) (DriveState.mapIo Prod.fst) := by
  have hturn : ∀ st : DriveState (σ × Nat), driveTurn p oWire bSplit (st.mapIo Prod.fst) =
      (driveTurn p.counted oWire bSplit st).map
        (fun q => (q.1, q.2.mapIo Prod.fst)) (DriveState.mapIo Prod.fst) := by
    intro st
    exact onTurn_mapIo oWire bSplit Prod.fst (afterCall p.counted st) _
  exact run_map hturn k (.start (p.counted.fresh io) oRng)

/-- One turn is one call. -/
theorem driveTurn_counted {st st₂ : DriveState (σ × Nat)}
    (h : driveTurn p.counted oWire bSplit st = .again st₂) : st₂.io.2 = st.io.2 + 1 := by
  rcases onTurn_again h with ⟨_, st₁, _, _, hd, rfl⟩ | ⟨_, _, rfl⟩
  · obtain ⟨_, _, _, _, _, _, rfl⟩ := deliver_eq_some hd
    rfl
  · rfl

/-- And so is the one that ends the loop. -/
theorem driveTurn_counted_stop {st : DriveState (σ × Nat)} {q : Outcome × DriveState (σ × Nat)}
    (h : driveTurn p.counted oWire bSplit st = .stop q) : q.2.io.2 = st.io.2 + 1 := by
  obtain ⟨e, st₂⟩ := q
  rcases onTurn_stop h with ⟨_, _, rfl⟩ | ⟨_, _, rfl⟩ | ⟨_, _, _, rfl⟩ <;> rfl

/-- The counter sees every turn, the one that ends the loop included. -/
theorem driveUpTo_calls (io : σ × Nat) (oRng : Rng) (k : Nat) :
    (endState (driveUpTo p.counted oWire bSplit io oRng k)).io.2 ≤ k := by
  have hstop : ∀ (st : DriveState (σ × Nat)) (q : Outcome × DriveState (σ × Nat)),
      driveTurn p.counted oWire bSplit st = .stop q → q.2.io.2 - 1 = st.io.2 := by
    intro st q hturn
    rw [driveTurn_counted_stop p oWire bSplit hturn, Nat.add_sub_cancel]
  have hagain : ∀ st st₂ : DriveState (σ × Nat),
      driveTurn p.counted oWire bSplit st = .again st₂ → st₂.io.2 = st.io.2 + 1 :=
    fun _ _ hturn => driveTurn_counted p oWire bSplit hturn
  have hcount := run_count hstop hagain k (.start (p.counted.fresh io) oRng)
  have hzero : (DriveState.start (p.counted.fresh io) oRng).io.2 = 0 := rfl
  rw [hzero, Nat.zero_add] at hcount
  unfold driveUpTo
  cases hexit : run (driveTurn p.counted oWire bSplit) k (.start (p.counted.fresh io) oRng) with
  | broke q =>
    rw [hexit] at hcount
    have hlt : q.2.io.2 - 1 < k := hcount.2
    show q.2.io.2 ≤ k
    omega
  | spent st =>
    rw [hexit] at hcount
    exact Nat.le_of_eq hcount

/-- What a drive leaves behind is what its last state says. -/
theorem drive_eq_report (io : σ) (oRng : Rng) : ∃ e,
    drive p io oWire oRng bSplit = (endState (driveUpTo p oWire bSplit io oRng kMaxTurns)).report e := by
  unfold drive driveUpTo
  cases run (driveTurn p oWire bSplit) kMaxTurns (.start (p.fresh io) oRng) with
  | broke q => exact ⟨q.1, rfl⟩
  | spent st => exact ⟨.budget, rfl⟩

/-- How often one drive calls `RecvP2PeerMsg`. Counting changes nothing else
    (`drive_counted`). -/
def recvCalls (io : σ) (oRng : Rng) : Nat :=
  (drive p.counted (io, 0) oWire oRng bSplit).io.2

/-- Counting the calls changes nothing else. -/
theorem drive_counted (io : σ) (n : Nat) (oRng : Rng) :
    (drive p.counted (io, n) oWire oRng bSplit).oRes = (drive p io oWire oRng bSplit).oRes ∧
    (drive p.counted (io, n) oWire oRng bSplit).chunks = (drive p io oWire oRng bSplit).chunks := by
  have hview := driveUpTo_counted p oWire bSplit (io, n) oRng kMaxTurns
  unfold driveUpTo at hview
  unfold drive
  rw [hview]
  cases run (driveTurn p.counted oWire bSplit) kMaxTurns (.start (p.counted.fresh (io, n)) oRng) with
  | broke q => exact ⟨rfl, rfl⟩
  | spent st => exact ⟨rfl, rfl⟩

theorem recvCalls_le (io : σ) (oRng : Rng) :
    recvCalls p oWire bSplit io oRng ≤ kMaxTurns := by
  obtain ⟨e, hdrive⟩ := drive_eq_report p.counted oWire bSplit (io, 0) oRng
  unfold recvCalls
  rw [hdrive]
  exact driveUpTo_calls p oWire bSplit (io, 0) oRng kMaxTurns

/-! ## Section 5: Delivery -/

/-- What `Drive` keeps to, whatever the parser does. -/
structure Delivers (io : σ) (oRng : Rng) : Prop where
  /-- The completions are the wire, in order, as far as `nFed` says. -/
  in_order : delivered (drive p io oWire oRng bSplit).chunks =
    oWire.bytes.take (drive p io oWire oRng bSplit).oRes.nFed
  /-- A completion is never empty and never more than was asked for. -/
  sizes : ∀ c ∈ (drive p io oWire oRng bSplit).chunks,
    1 ≤ c.bytes.length ∧ c.bytes.length ≤ c.asked
  /-- After any number of turns the rest of the wire is a real difference. -/
  no_wrap : ∀ k, (endState (driveUpTo p oWire bSplit io oRng k)).nFed ≤ oWire.n ∧
    u32Sub oWire.n (endState (driveUpTo p oWire bSplit io oRng k)).nFed =
      oWire.n - (endState (driveUpTo p oWire bSplit io oRng k)).nFed
  /-- The parser is called at most as often as the budget says. -/
  calls : recvCalls p oWire bSplit io oRng ≤ kMaxTurns
  /-- A message is reported when the wire is used up. -/
  msg : (drive p io oWire oRng bSplit).oRes.eOutcome = .msg →
    (drive p io oWire oRng bSplit).oRes.nFed = oWire.n ∧ 1 ≤ (drive p io oWire oRng bSplit).oRes.nMsgs
  /-- A spent budget is reported when the loop was never left. -/
  budget : (drive p io oWire oRng bSplit).oRes.eOutcome = .budget ↔
    ∃ st, driveUpTo p oWire bSplit io oRng kMaxTurns = .spent st
  /-- And then, only then, all turns were taken. -/
  turns : (drive p io oWire oRng bSplit).oRes.eOutcome = .budget ↔
    (drive p io oWire oRng bSplit).oRes.nTurns = kMaxTurns
  /-- Starved: no byte left, or none asked for by the record as the parser left it. -/
  starved : (drive p io oWire oRng bSplit).oRes.eOutcome = .starved →
    (drive p io oWire oRng bSplit).oRes.nFed = oWire.n ∨
      request (endState (driveUpTo p oWire bSplit io oRng kMaxTurns)).oOv = none

/-- **Delivery**: over every wire that fits the buffer, every generator, split or
    whole, and every parser. -/
theorem drive_delivers (io : σ) (oRng : Rng) (hn : oWire.n ≤ kMaxWire) :
    Delivers p oWire bSplit io oRng := by
  have hw : oWire.n < 2 ^ 32 := by
    unfold kMaxWire at hn
    omega
  have hend := endState_faithful p oWire bSplit hw io oRng
  have hjust := driveUpTo_faithful p oWire bSplit hw io oRng kMaxTurns
  have hturns := driveUpTo_nTurn p oWire bSplit io oRng kMaxTurns
  have hdrive : drive p io oWire oRng bSplit
      = reportExit (driveUpTo p oWire bSplit io oRng kMaxTurns) := rfl
  have hwrap : ∀ k, (endState (driveUpTo p oWire bSplit io oRng k)).nFed ≤ oWire.n ∧
      u32Sub oWire.n (endState (driveUpTo p oWire bSplit io oRng k)).nFed =
        oWire.n - (endState (driveUpTo p oWire bSplit io oRng k)).nFed := by
    intro k
    exact ⟨(hend k).fed_le, u32Sub_of_le hw (hend k).fed_le⟩
  have hlast := hend kMaxTurns
  have hcalls := recvCalls_le p oWire bSplit io oRng
  cases hexit : driveUpTo p oWire bSplit io oRng kMaxTurns with
  | broke q =>
    -- the loop was left: the outcome is the one the last turn justified
    obtain ⟨e, st⟩ := q
    rw [hexit] at hdrive hjust hturns hlast
    obtain ⟨_, hbudget, hmsg, hstarved⟩ := hjust
    have hlt : st.nTurn < kMaxTurns := hturns
    have hne : e ≠ .budget := hbudget
    refine ⟨?_, ?_, hwrap, hcalls, ?_, ?_, ?_, ?_⟩ <;> rw [hdrive]
    · exact hlast.bytes_eq
    · exact hlast.sizes
    · exact hmsg
    · constructor
      · intro h
        exact absurd h hne
      · intro h
        obtain ⟨st', h⟩ := h
        rw [hexit] at h
        cases h
    · constructor
      · intro h
        exact absurd h hne
      · intro h
        have heq : st.nTurn = kMaxTurns := h
        omega
    · rw [hexit]
      exact hstarved
  | spent st =>
    -- the loop was never left
    rw [hexit] at hdrive hturns hlast
    refine ⟨?_, ?_, hwrap, hcalls, ?_, ?_, ?_, ?_⟩ <;> rw [hdrive]
    · exact hlast.bytes_eq
    · exact hlast.sizes
    · intro h
      cases h
    · exact ⟨fun _ => ⟨st, hexit⟩, fun _ => rfl⟩
    · exact ⟨fun _ => hturns, fun _ => rfl⟩
    · intro h
      cases h

end delivery

/-- A parser that forgets what it was given and asks for a header again. -/
def forgetful : Parser Unit where
  fresh _ := ()
  recvP2PeerMsg _ _ := ⟨.event (some szRecv), 0, (), ⟨0, some fun _ => 0, none⟩⟩

theorem forgetful_delivers :
    Delivers forgetful ⟨fun i => UInt8.ofNat i, 20⟩ true () (Rng.seed 7) :=
  drive_delivers forgetful ⟨fun i => UInt8.ofNat i, 20⟩ true () (Rng.seed 7) (by decide)

end FuzzFrame
