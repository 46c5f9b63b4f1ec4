import MscsUnitTests.Lib.Loop
import MscsUnitTests.Frame.Wire

/-! # The Framing Harness: Driving the Parser

    `Deliver` and `Drive` of `p2p_fuzzframe.cpp`. The parser under test is the
    library's own (`P2Peerio::RecvP2PeerMsg`) and may do anything at each call,
    so it is a parameter: a state it keeps to itself, the `OVERLAPPEDcon` it
    shares with the harness, and what one call answers.
-/

open ByteMem FuzzRng BoundedLoop

namespace FuzzFrame

/-! ## Section 1: The parser as the harness sees it -/

/-- `OVERLAPPEDcon`: the byte count and the two buffers. `none` is a null
    pointer. -/
structure Overlapped where
  dwBytes : Nat
  pUserDB1 : Option Mem
  pUserDB2 : Option Mem

/-- The record after `memset(&oOv, 0, ..)`. -/
def Overlapped.zero : Overlapped := ⟨0, none, none⟩

/-- How one call of `RecvP2PeerMsg` ends. -/
inductive Turn where
  /-- A `P2Pevent` is thrown; the payload is what `GetModule` says. -/
  | event (lpszModule : Option (List Char))
  /-- An ASSERT trips and the trap throws (not on Windows). -/
  | assertTrap
  /-- Any other exception. -/
  | other
  /-- A `P2PeerMsg` is returned. -/
  | msg
  /-- `nullptr` is returned. -/
  | null
  deriving DecidableEq

/-- What one call of `RecvP2PeerMsg` leaves behind. `asserts` counts the ASSERTs
    that were counted and continued past. -/
structure Reply (σ : Type) where
  turn : Turn
  asserts : Nat
  io : σ
  oOv : Overlapped

/-- The parser: `fresh` is the constructor of `P2Peerio` in a given state of the
    library, `recvP2PeerMsg` one call. -/
structure Parser (σ : Type) where
  fresh : σ → σ
  recvP2PeerMsg : σ → Overlapped → Reply σ

/-- Nothing is carried over from one input to the next. -/
def Parser.Deterministic {σ : Type} (p : Parser σ) : Prop :=
  ∀ s s', p.fresh s = p.fresh s'

/-- All ASSERTs of one call: the trap counts the one it throws for. -/
def Reply.tripped {σ : Type} (r : Reply σ) : Nat :=
  if r.turn = .assertTrap then r.asserts + 1 else r.asserts

/-- `szRecv`. -/
def szRecv : List Char := ['R', 'e', 'c', 'v']

/-- The scan of `IsRecvRequest`: what stands behind the last colon. -/
def moduleTail (lpszTail : List Char) : List Char → List Char
  | [] => lpszTail
  | c :: p => moduleTail (if c = ':' then p else lpszTail) p

/-- `IsRecvRequest`: the marker of `P2Peerio::Recv`, as opposed to a refusal. -/
def isRecvRequest : Option (List Char) → Bool
  | none => false
  | some lpszModule => moduleTail lpszModule lpszModule == szRecv

/-- Both compilers' spellings of the marker are read as one, and the name of the
    parser itself is not. -/
example : isRecvRequest (some "P2Peerio::Recv".toList) = true ∧
    isRecvRequest (some "Recv".toList) = true ∧
    isRecvRequest (some "P2Peerio::RecvP2PeerMsg".toList) = false := by
  decide

/-! ## Section 2: `Deliver` -/

/-- The outcomes of one drive. -/
inductive Outcome where
  | msg | refused | starved | stalled | escaped | budget | assert
  deriving DecidableEq

/-- One completion: how many bytes the parser asked for, how many the peer had
    left, and the bytes that were copied. -/
structure Chunk where
  asked : Nat
  left : Nat
  bytes : List UInt8

/-- The completion was not a short one. -/
def Chunk.full (c : Chunk) : Prop :=
  c.bytes.length = min c.asked c.left

/-- The locals of `Drive`. `chunks` is a history variable: every completion so
    far, in order. -/
structure DriveState (σ : Type) where
  io : σ
  oOv : Overlapped
  nFed : Nat
  nTurn : Nat
  nMsgs : Nat
  oRng : Rng
  nAsserts : Nat
  chunks : List Chunk

/-- Which buffer a completion goes to. -/
inductive Dst where
  | db1 | db2

/-- The request, re-derived from the record as the parser derives it: the
    missing rest of the header, or of the frame the header declares. -/
def request (pOv : Overlapped) : Option (Dst × Nat) :=
  if pOv.dwBytes < syncSizeof then
    -- stage 1
    match pOv.pUserDB1 with
    | none => none
    | some _ => some (.db1, syncSizeof - pOv.dwBytes)
  else
    -- stage 3
    match pOv.pUserDB1, pOv.pUserDB2 with
    | some pHdr, some _ =>
      if declaredOf pHdr ≤ pOv.dwBytes then none
      else some (.db2, declaredOf pHdr - pOv.dwBytes)
    | _, _ => none

/-- The `memcpy` of a completion, and `dwBytes += n`. -/
def Overlapped.receive (pOv : Overlapped) (dst : Dst) (src : Mem) (s n : Nat) : Overlapped :=
  match dst with
  | .db1 => { pOv with
      pUserDB1 := pOv.pUserDB1.map fun m => copyInto m pOv.dwBytes src s n
      dwBytes := pOv.dwBytes + n }
  | .db2 => { pOv with
      pUserDB2 := pOv.pUserDB2.map fun m => copyInto m pOv.dwBytes src s n
      dwBytes := pOv.dwBytes + n }

/-- The length of a completion: all that is asked for and there, or in split
    mode a random part of it. -/
def takeLen (bSplit : Bool) (n : Nat) (oRng : Rng) : Nat × Rng :=
  if bSplit = true ∧ n > 1 then (1 + (oRng.below n).1, (oRng.below n).2) else (n, oRng)

/-- `Deliver`: `none` when there is nothing to ask for or nothing left to send. -/
def deliver {σ : Type} (oWire : Wire) (bSplit : Bool) (st : DriveState σ) :
    Option (DriveState σ) :=
  match request st.oOv with
  | none => none
  | some (dst, nWant) =>
    let nLeft := u32Sub oWire.n st.nFed
    if nLeft = 0 then none
    else
      let n := takeLen bSplit (if nWant < nLeft then nWant else nLeft) st.oRng
      some { st with
        oOv := st.oOv.receive dst oWire.b st.nFed n.1
        nFed := st.nFed + n.1
        oRng := n.2
        chunks := st.chunks ++ [⟨nWant, nLeft, firstBytes (fun i => oWire.b (st.nFed + i)) n.1⟩] }

/-! ## Section 3: `Drive` -/

/-- The turn budget. -/
def kMaxTurns : Nat := 96

/-- `DriveResult`. -/
structure DriveResult where
  eOutcome : Outcome
  nMsgs : Nat
  nTurns : Nat
  nFed : Nat
  deriving DecidableEq

/-- A drive: its result, the state it leaves the library in, the ASSERTs it
    tripped and the completions it made. -/
structure Driven (σ : Type) where
  oRes : DriveResult
  io : σ
  nAsserts : Nat
  chunks : List Chunk

/-- The state after the call of the parser, before its answer is acted on. -/
def afterCall {σ : Type} (p : Parser σ) (st : DriveState σ) : DriveState σ :=
  let r := p.recvP2PeerMsg st.io st.oOv
  { st with io := r.io, oOv := r.oOv, nAsserts := st.nAsserts + r.tripped }

/-- What the loop does with an answer. -/
def onTurn {σ : Type} (oWire : Wire) (bSplit : Bool) (st : DriveState σ) :
    Turn → Pass (Outcome × DriveState σ) (DriveState σ)
  | .event lpszModule =>
    -- a request for bytes is thrown too, and told from a refusal by its name only
    if isRecvRequest lpszModule then
      match deliver oWire bSplit st with
      | none => .stop (.starved, st)
      | some st' => .again { st' with nTurn := st'.nTurn + 1 }
    else .stop (.refused, st)
  | .assertTrap => .stop (.assert, st)
  | .other => .stop (.escaped, st)
  | .msg =>
    -- a second frame may be on the wire, so a message alone does not end the drive
    if st.nFed ≥ oWire.n then .stop (.msg, { st with nMsgs := st.nMsgs + 1 })
    else .again { st with nMsgs := st.nMsgs + 1, nTurn := st.nTurn + 1 }
  | .null => .stop (.stalled, st)

/-- One turn of the loop of `Drive`. -/
def driveTurn {σ : Type} (p : Parser σ) (oWire : Wire) (bSplit : Bool) (st : DriveState σ) :
    Pass (Outcome × DriveState σ) (DriveState σ) :=
  onTurn oWire bSplit (afterCall p st) (p.recvP2PeerMsg st.io st.oOv).turn

/-- The state the loop starts in. -/
def DriveState.start {σ : Type} (io : σ) (oRng : Rng) : DriveState σ :=
  { io := io, oOv := .zero, nFed := 0, nTurn := 0, nMsgs := 0, oRng := oRng,
    nAsserts := 0, chunks := [] }

/-- What `Drive` reports of a final state. -/
def DriveState.report {σ : Type} (st : DriveState σ) (e : Outcome) : Driven σ :=
  { oRes := ⟨e, st.nMsgs, st.nTurn, st.nFed⟩, io := st.io, nAsserts := st.nAsserts,
    chunks := st.chunks }

/-- The end of the loop, as a result: a spent budget is an outcome of its own. -/
def reportExit {σ : Type} : Exit (Outcome × DriveState σ) (DriveState σ) → Driven σ
  | .broke (e, st) => st.report e
  | .spent st => st.report .budget

/-- `Drive`: one input through a fresh parser. -/
def drive {σ : Type} (p : Parser σ) (io : σ) (oWire : Wire) (oRng : Rng) (bSplit : Bool) :
    Driven σ :=
  reportExit (run (driveTurn p oWire bSplit) kMaxTurns (.start (p.fresh io) oRng))

/-! ## Section 4: What one delivery does -/

section delivery
variable {σ : Type} {oWire : Wire} {bSplit : Bool} {st st' : DriveState σ}

theorem takeLen_le (bSplit : Bool) (n : Nat) (oRng : Rng) : (takeLen bSplit n oRng).1 ≤ n := by
  unfold takeLen
  split
  · next h =>
    have := Rng.below_lt oRng (n := n) (by omega)
    dsimp only
    omega
  · exact Nat.le_refl _

/-- Nothing but a request can be delivered, and never more than it asks for or
    than the wire still holds. -/
theorem deliver_eq_some (h : deliver oWire bSplit st = some st') :
    ∃ dst nWant n, request st.oOv = some (dst, nWant) ∧ u32Sub oWire.n st.nFed ≠ 0 ∧
      n = takeLen bSplit (min nWant (u32Sub oWire.n st.nFed)) st.oRng ∧
      st' = { st with
        oOv := st.oOv.receive dst oWire.b st.nFed n.1
        nFed := st.nFed + n.1
        oRng := n.2
        chunks := st.chunks ++ [⟨nWant, u32Sub oWire.n st.nFed,
          firstBytes (fun i => oWire.b (st.nFed + i)) n.1⟩] } := by
  unfold deliver at h
  cases hreq : request st.oOv with
  | none => rw [hreq] at h; cases h
  | some q =>
    obtain ⟨dst, nWant⟩ := q
    rw [hreq] at h
    dsimp only at h
    split at h
    · cases h
    · next hleft =>
      have hmin : (if nWant < u32Sub oWire.n st.nFed then nWant else u32Sub oWire.n st.nFed)
          = min nWant (u32Sub oWire.n st.nFed) := by
        split <;> omega
      rw [hmin] at h
      exact ⟨dst, nWant, _, rfl, hleft, rfl, (Option.some.inj h).symm⟩

/-- A delivery stays on the wire. -/
theorem deliver_nFed (hw : oWire.n < 2 ^ 32) (hfed : st.nFed ≤ oWire.n)
    (h : deliver oWire bSplit st = some st') : st'.nFed ≤ oWire.n := by
  obtain ⟨dst, nWant, n, _, _, rfl, rfl⟩ := deliver_eq_some h
  have hn := takeLen_le bSplit (min nWant (u32Sub oWire.n st.nFed)) st.oRng
  rw [u32Sub_of_le hw hfed] at hn ⊢
  dsimp only
  omega

end delivery

/-! ## Section 5: ASSERTs -/

/-- An input is only abandoned at an ASSERT that is counted. -/
theorem drive_assert_pos {σ : Type} {p : Parser σ} {io : σ} {oWire : Wire} {oRng : Rng}
    {bSplit : Bool} (h : (drive p io oWire oRng bSplit).oRes.eOutcome = .assert) :
    0 < (drive p io oWire oRng bSplit).nAsserts := by
  -- the only turn that ends in `assert` is the trap, which counts itself
  have hturn : ∀ st : DriveState σ, True → (driveTurn p oWire bSplit st).Meets
      (fun q => q.1 = .assert → 0 < q.2.nAsserts) (fun _ => True) := by
    intro st _
    unfold driveTurn
    cases ht : (p.recvP2PeerMsg st.io st.oOv).turn with
    | event m =>
      unfold onTurn
      dsimp only
      split
      · split
        · intro h
          cases h
        · trivial
      · intro h
        cases h
    | assertTrap =>
      intro _
      simp only [afterCall, Reply.tripped, ht, if_true]
      omega
    | other =>
      intro h
      cases h
    | msg =>
      unfold onTurn
      dsimp only
      split
      · intro h
        cases h
      · trivial
    | null =>
      intro h
      cases h
  have hrun := run_inv hturn kMaxTurns (.start (p.fresh io) oRng) trivial
  unfold drive at h ⊢
  cases hexit : run (driveTurn p oWire bSplit) kMaxTurns (.start (p.fresh io) oRng) with
  | broke q =>
    rw [hexit] at h hrun
    exact hrun h
  | spent st =>
    rw [hexit] at h
    cases h

/-! ## Section 6: Drives that see the same completions

    The generator of `Drive` only ever decides how long a completion is. So a
    whole delivery, and a split one none of whose completions was short, run the
    parser through the same states. -/

section lockstep
variable {σ : Type} {p : Parser σ} {oWire oWire' : Wire} {bSplit : Bool}

/-- The same state with another generator. -/
def DriveState.setRng (st : DriveState σ) (oRng : Rng) : DriveState σ :=
  { st with oRng := oRng }

/-- Every completion asked for as much as it got. -/
def AllFull (chunks : List Chunk) : Prop :=
  ∀ c ∈ chunks, c.full

theorem receive_congr (pOv : Overlapped) (dst : Dst) {m m' : Mem} {s n : Nat}
    (h : ∀ i < n, m (s + i) = m' (s + i)) :
    pOv.receive dst m s n = pOv.receive dst m' s n := by
  cases dst <;> simp only [Overlapped.receive, copyInto_congr _ _ _ _ _ _ h]

theorem deliver_none_iff (st : DriveState σ) :
    deliver oWire bSplit st = none ↔ request st.oOv = none ∨ u32Sub oWire.n st.nFed = 0 := by
  unfold deliver
  cases request st.oOv with
  | none => simp
  | some q =>
    dsimp only
    split <;> simp_all

/-- A completion that was not short is the whole one. -/
theorem deliver_setRng {st st₂ : DriveState σ} (oRng : Rng) (hbytes : oWire.bytes = oWire'.bytes)
    (hw : oWire.n < 2 ^ 32) (hfed : st.nFed ≤ oWire.n)
    (hfull : bSplit = false ∨ AllFull st₂.chunks)
    (h : deliver oWire bSplit st = some st₂) :
    deliver oWire' false (st.setRng oRng) = some (st₂.setRng oRng) := by
  obtain ⟨hn, hb⟩ := (Wire.bytes_eq_iff _ _).mp hbytes
  obtain ⟨dst, nWant, n, hreq, hleft, hlen, rfl⟩ := deliver_eq_some h
  -- the length of the completion is what was asked for or left, whoever drew it
  have hall : n.1 = min nWant (u32Sub oWire.n st.nFed) := by
    rcases hfull with hsplit | hfull
    · rw [hlen, hsplit]
      simp [takeLen]
    · have hlast := hfull ⟨nWant, u32Sub oWire.n st.nFed,
        firstBytes (fun i => oWire.b (st.nFed + i)) n.1⟩ (by simp)
      simpa [Chunk.full] using hlast
  have hmin : (if nWant < u32Sub oWire.n st.nFed then nWant else u32Sub oWire.n st.nFed)
      = min nWant (u32Sub oWire.n st.nFed) := by
    split <;> omega
  -- and it lies within the wire, where the two agree
  have hsame : ∀ i < n.1, oWire.b (st.nFed + i) = oWire'.b (st.nFed + i) := by
    rw [u32Sub_of_le hw hfed] at hall
    intro i hi
    exact hb _ (by omega)
  have hrecv : st.oOv.receive dst oWire.b st.nFed n.1 = st.oOv.receive dst oWire'.b st.nFed n.1 :=
    receive_congr _ _ hsame
  have hbytes' : firstBytes (fun i => oWire.b (st.nFed + i)) n.1
      = firstBytes (fun i => oWire'.b (st.nFed + i)) n.1 :=
    (firstBytes_eq_iff _ _ _).mpr hsame
  simp only [deliver, DriveState.setRng, hreq, ← hn, if_neg hleft, hmin, takeLen,
    Bool.false_eq_true, false_and, if_false, ← hall, hrecv, hbytes']

/-- **What a turn that goes on has done**: delivered what was asked for, or
    taken a message off a wire that is not used up. -/
theorem onTurn_again {st st₂ : DriveState σ} {t : Turn}
    (h : onTurn oWire bSplit st t = .again st₂) :
    (∃ m st₁, t = .event m ∧ isRecvRequest m = true ∧ deliver oWire bSplit st = some st₁ ∧
      st₂ = { st₁ with nTurn := st₁.nTurn + 1 }) ∨
    (t = .msg ∧ st.nFed < oWire.n ∧
      st₂ = { st with nMsgs := st.nMsgs + 1, nTurn := st.nTurn + 1 }) := by
  unfold onTurn at h
  split at h
  · next m =>
    split at h
    · next hreq =>
      split at h
      · cases h
      · next st₁ hd =>
        cases h
        exact Or.inl ⟨m, st₁, rfl, hreq, hd, rfl⟩
    · cases h
  · cases h
  · cases h
  · split at h
    · cases h
    · next hlt =>
      cases h
      exact Or.inr ⟨rfl, by omega, rfl⟩
  · cases h

/-- The completions a turn has made when it goes on. -/
theorem driveTurn_chunks {st st₂ : DriveState σ} (h : driveTurn p oWire bSplit st = .again st₂) :
    st.chunks ⊆ st₂.chunks := by
  rcases onTurn_again h with ⟨_, st₁, _, _, hd, rfl⟩ | ⟨_, _, rfl⟩
  · obtain ⟨_, _, _, _, _, _, rfl⟩ := deliver_eq_some hd
    intro c hc
    exact List.mem_append_left _ hc
  · exact List.Subset.refl _

/-- A turn that goes on has not read past the end of the wire. -/
theorem driveTurn_nFed {st st₂ : DriveState σ} (hw : oWire.n < 2 ^ 32) (hfed : st.nFed ≤ oWire.n)
    (h : driveTurn p oWire bSplit st = .again st₂) : st₂.nFed ≤ oWire.n := by
  rcases onTurn_again h with ⟨_, st₁, _, _, hd, rfl⟩ | ⟨_, _, rfl⟩
  · have hfed' : (afterCall p st).nFed ≤ oWire.n := hfed
    have h₁ : st₁.nFed ≤ oWire.n := deliver_nFed hw hfed' hd
    exact h₁
  · exact hfed

/-- A turn that ends the loop makes no completion. -/
theorem driveTurn_stop {st : DriveState σ} {q : Outcome × DriveState σ}
    (h : driveTurn p oWire bSplit st = .stop q) : q.2.chunks = st.chunks := by
  unfold driveTurn onTurn at h
  split at h
  · split at h
    · split at h <;> cases h
      rfl
    · cases h
      rfl
  · cases h
    rfl
  · cases h
    rfl
  · split at h <;> cases h
    rfl
  · cases h
    rfl

/-- The completions made so far stay in the list. -/
theorem run_chunks_subset (n : Nat) (st : DriveState σ) :
    st.chunks ⊆ (reportExit (run (driveTurn p oWire bSplit) n st)).chunks := by
  induction n generalizing st with
  | zero => exact List.Subset.refl _
  | succ n ih =>
    cases hturn : driveTurn p oWire bSplit st with
    | stop q =>
      rw [run_stop n hturn]
      show st.chunks ⊆ q.2.chunks
      rw [driveTurn_stop hturn]
      exact List.Subset.refl _
    | again st₂ =>
      rw [run_again n hturn]
      intro c hc
      exact ih st₂ (driveTurn_chunks hturn hc)

/-- An answer is acted on in the same way whoever draws the lengths, as long as
    a completion that is made is not short. -/
theorem onTurn_setRng (bSplit : Bool) (st : DriveState σ) (oRng : Rng) (t : Turn)
    (hbytes : oWire.bytes = oWire'.bytes) (hw : oWire.n < 2 ^ 32) (hfed : st.nFed ≤ oWire.n)
    (hfull : bSplit = false ∨ ∀ st₂, onTurn oWire bSplit st t = .again st₂ → AllFull st₂.chunks) :
    onTurn oWire' false (st.setRng oRng) t =
      match onTurn oWire bSplit st t with
      | .stop q => .stop (q.1, q.2.setRng oRng)
      | .again st₂ => .again (st₂.setRng oRng) := by
  have hn := ((Wire.bytes_eq_iff _ _).mp hbytes).1
  cases t with
  | event m =>
    cases hreq : isRecvRequest m with
    | false => simp [onTurn, hreq]
    | true =>
      cases hd : deliver oWire bSplit st with
      | none =>
        have hd' : deliver oWire' false (st.setRng oRng) = none := by
          rw [deliver_none_iff, ← hn]
          exact (deliver_none_iff st).mp hd
        simp [onTurn, hreq, hd, hd']
      | some st₁ =>
        have hfull' : bSplit = false ∨ AllFull st₁.chunks := by
          rcases hfull with h | h
          · exact Or.inl h
          · exact Or.inr (h { st₁ with nTurn := st₁.nTurn + 1 } (by simp [onTurn, hreq, hd]))
        have hd' := deliver_setRng oRng hbytes hw hfed hfull' hd
        simp [onTurn, hreq, hd, hd']
        rfl
  | assertTrap => rfl
  | other => rfl
  | msg =>
    simp only [onTurn, ← hn, DriveState.setRng]
    split <;> rfl
  | null => rfl

/-- **Lockstep**: a run none of whose completions is short is the run of the
    whole delivery of the same bytes. -/
theorem run_setRng (oRng : Rng) (hbytes : oWire.bytes = oWire'.bytes) (hw : oWire.n < 2 ^ 32) :
    ∀ (n : Nat) (st : DriveState σ), st.nFed ≤ oWire.n →
      (bSplit = false ∨ AllFull (reportExit (run (driveTurn p oWire bSplit) n st)).chunks) →
      reportExit (run (driveTurn p oWire' false) n (st.setRng oRng)) =
        reportExit (run (driveTurn p oWire bSplit) n st)
  | 0, _, _, _ => rfl
  | n + 1, st, hfed, hfull => by
    -- what this turn completes is among what the run completes
    have hturn' := onTurn_setRng bSplit (afterCall p st) oRng
      (p.recvP2PeerMsg st.io st.oOv).turn hbytes hw hfed <| by
        refine hfull.imp_right fun h st₂ hturn => ?_
        rw [run_again n hturn] at h
        intro c hc
        exact h c (run_chunks_subset n st₂ hc)
    cases hturn : driveTurn p oWire bSplit st with
    | stop q =>
      rw [← driveTurn, hturn] at hturn'
      rw [run_stop n hturn, run_stop n hturn']
      rfl
    | again st₂ =>
      rw [← driveTurn, hturn] at hturn'
      rw [run_again n hturn] at hfull ⊢
      rw [run_again n hturn']
      exact run_setRng oRng hbytes hw n st₂ (driveTurn_nFed hw hfed hturn) hfull

/-- **Whole delivery replays**: a drive none of whose completions was short is
    repeated by a whole drive of the same bytes, in any state of the library
    that gives the same fresh parser. -/
theorem drive_replays {io io' : σ} (hio : p.fresh io' = p.fresh io)
    (hbytes : oWire.bytes = oWire'.bytes) (hw : oWire.n < 2 ^ 32) (oRng oRng' : Rng)
    (hfull : bSplit = false ∨ AllFull (drive p io oWire oRng bSplit).chunks) :
    drive p io' oWire' oRng' false = drive p io oWire oRng bSplit := by
  unfold drive at hfull ⊢
  rw [hio]
  exact run_setRng oRng' hbytes hw kMaxTurns (.start (p.fresh io) oRng) (Nat.zero_le _) hfull

end lockstep

end FuzzFrame
