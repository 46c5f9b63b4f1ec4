import MscsUnitTests.Frame.Bounds
import MscsUnitTests.Frame.Delivery

/-! # The Framing Harness: The Loop Cannot Spin

    The loop of `Drive` without its turn budget. A turn that goes on has delivered
    a byte or taken a message, and taking a message uses nothing of the wire. What
    bounds the loop all the same is the parser: one that returns a message only
    when it was given something since the last one has each message paid for by a
    delivery of its own.

    * `PaysForMessages`: what is asked of the parser.
    * `Paid`: the invariant, which counts the two kinds of turns apart.
    * `drive_cannot_spin`: over a wire of `n` bytes the loop is left after at most
      `2 * n + 1` calls.
-/

open ByteMem FuzzRng BoundedLoop

namespace FuzzFrame

section spin
variable {σ : Type} {p : Parser σ} {oWire : Wire} {bSplit : Bool}

/-! ## Section 1: Messages that are paid for -/

variable (p) (oWire) (bSplit) in
/-- Turn `k`, the first being turn 0, is reached with `nFed` bytes delivered, and
    the parser returns a message. -/
def MsgAt (io : σ) (oRng : Rng) (k nFed : Nat) : Prop :=
  ∃ st, driveUpTo p oWire bSplit io oRng k = .spent st ∧
    (p.recvP2PeerMsg st.io st.oOv).turn = .msg ∧ st.nFed = nFed

variable (p) (oWire) (bSplit) in
/-- A message is returned only if at least one byte was delivered since the one
    before it, or since the start. -/
structure PaysForMessages (io : σ) (oRng : Rng) : Prop where
  first : ∀ k nFed, MsgAt p oWire bSplit io oRng k nFed → 0 < nFed
  next : ∀ j k nFed nFed', MsgAt p oWire bSplit io oRng j nFed →
    MsgAt p oWire bSplit io oRng k nFed' → j < k → nFed < nFed'

/-- **Payment invariant** after `k` turns: every turn was a delivery or a message,
    every delivery took a byte, and so did every message, namely one delivered
    before the last message was returned. -/
structure Paid (oWire : Wire) (LastMsg : Nat → Prop) (k : Nat) (st : DriveState σ) : Prop where
  turns : k = st.chunks.length + st.nMsgs
  deliveries : st.chunks.length ≤ st.nFed
  fed_le : st.nFed ≤ oWire.n
  messages : st.nMsgs = 0 ∨ ∃ last, LastMsg last ∧ st.nMsgs ≤ last ∧ last ≤ st.nFed

/-- A delivery is one completion more, of at least a byte. -/
theorem deliver_pays (hw : oWire.n < 2 ^ 32) (st : DriveState σ) {st' : DriveState σ}
    (hfed : st.nFed ≤ oWire.n) (h : deliver oWire bSplit st = some st') :
    st'.chunks.length = st.chunks.length + 1 ∧ st.nFed + 1 ≤ st'.nFed ∧ st'.nFed ≤ oWire.n ∧
      st'.nMsgs = st.nMsgs := by
  have hle := deliver_nFed hw hfed h
  obtain ⟨dst, nWant, n, hreq, hleft, hn, rfl⟩ := deliver_eq_some h
  have hwant := request_pos hreq
  have hpos := takeLen_pos bSplit (n := min nWant (u32Sub oWire.n st.nFed)) st.oRng (by omega)
  rw [← hn] at hpos
  refine ⟨by simp, ?_, hle, rfl⟩
  dsimp only
  omega

/-! ## Section 2: The invariant is kept -/

variable (hw : oWire.n < 2 ^ 32) {io : σ} {oRng : Rng}
include hw

/-- **Run lemma**: however many turns were taken, they are paid for. -/
theorem driveUpTo_paid (hpays : PaysForMessages p oWire bSplit io oRng) :
    ∀ (k : Nat) (st : DriveState σ), driveUpTo p oWire bSplit io oRng k = .spent st →
      Paid oWire (fun last => ∃ j < k, MsgAt p oWire bSplit io oRng j last) k st := by
  intro k
  induction k with
  | zero =>
    intro st h
    cases h
    exact ⟨rfl, Nat.le_refl 0, Nat.zero_le _, Or.inl rfl⟩
  | succ k ih =>
    intro st₂ h
    obtain ⟨st, hrun, hturn⟩ := run_succ_spent k _ h
    obtain ⟨hturns, hdeliv, hfed, hmsgs⟩ := ih st hrun
    rcases onTurn_again hturn with ⟨_, st₁, _, _, hd, rfl⟩ | ⟨hmsg, _, rfl⟩
    · -- a delivery: the last message stays the last one
      obtain ⟨hlen, hmore, hle, hsame⟩ := deliver_pays hw (afterCall p st) hfed hd
      have hlen' : st₁.chunks.length = st.chunks.length + 1 := hlen
      have hmore' : st.nFed + 1 ≤ st₁.nFed := hmore
      have hsame' : st₁.nMsgs = st.nMsgs := hsame
      refine ⟨?_, ?_, hle, ?_⟩
      · show k + 1 = st₁.chunks.length + st₁.nMsgs
        omega
      · show st₁.chunks.length ≤ st₁.nFed
        omega
      · rcases hmsgs with hnone | ⟨last, ⟨j, hj, hat⟩, hpaid, hlast⟩
        · exact Or.inl (hsame'.trans hnone)
        · refine Or.inr ⟨last, ⟨j, by omega, hat⟩, ?_, ?_⟩
          · show st₁.nMsgs ≤ last
            omega
          · show last ≤ st₁.nFed
            omega
    · -- a message: it becomes the last one, and something came in since the one before
      have hat : MsgAt p oWire bSplit io oRng k st.nFed := ⟨st, hrun, hmsg, rfl⟩
      have hpaid : st.nMsgs + 1 ≤ st.nFed := by
        rcases hmsgs with hnone | ⟨last, ⟨j, hj, hbefore⟩, hpaid, _⟩
        · have hpos := hpays.first k st.nFed hat
          omega
        · have hnext := hpays.next j k last st.nFed hbefore hat hj
          omega
      refine ⟨?_, hdeliv, hfed, Or.inr ⟨st.nFed, ⟨k, Nat.lt_succ_self k, hat⟩, hpaid, Nat.le_refl _⟩⟩
      show k + 1 = st.chunks.length + (st.nMsgs + 1)
      omega

/-- So no more than two turns a byte go on. -/
theorem driveUpTo_spent_le (hpays : PaysForMessages p oWire bSplit io oRng) {k : Nat}
    {st : DriveState σ} (h : driveUpTo p oWire bSplit io oRng k = .spent st) : k ≤ 2 * oWire.n := by
  obtain ⟨hturns, hdeliv, hfed, hmsgs⟩ := driveUpTo_paid hw hpays k st h
  rcases hmsgs with hnone | ⟨last, _, hpaid, hlast⟩
  · omega
  · omega

end spin

/-! ## Section 3: The loop without its budget -/

/-- What it is that the loop does not spin: it is left, and the parser has then been
    called at most `2 * n + 1` times. -/
structure CannotSpin {σ : Type} (p : Parser σ) (oWire : Wire) (bSplit : Bool) (io : σ)
    (oRng : Rng) : Prop where
  /-- The loop is left at some turn. -/
  ends : ∃ k q, LeavesAt (driveTurn p oWire bSplit) (.start (p.fresh io) oRng) k q
  /-- And with the calls counted, at most `2 * n + 1` were made, one a turn. -/
  calls : ∃ k q, LeavesAt (driveTurn p.counted oWire bSplit)
    (.start (p.counted.fresh (io, 0)) oRng) k q ∧ q.2.io.2 = k ∧ k ≤ 2 * oWire.n + 1

/-- **The drive loop cannot spin**: over every wire, every generator, split or whole,
    and every parser that has its messages paid for. -/
theorem drive_cannot_spin {σ : Type} (p : Parser σ) (oWire : Wire) (bSplit : Bool) (io : σ)
    (oRng : Rng) (hw : oWire.n < 2 ^ 32) (hpays : PaysForMessages p oWire bSplit io oRng) :
    CannotSpin p oWire bSplit io oRng := by
  have hleft : ∃ q, driveUpTo p oWire bSplit io oRng (2 * oWire.n + 1) = .broke q := by
    cases hexit : driveUpTo p oWire bSplit io oRng (2 * oWire.n + 1) with
    | broke q => exact ⟨q, rfl⟩
    | spent st =>
      have hle := driveUpTo_spent_le hw hpays hexit
      omega
  obtain ⟨q, hq⟩ := hleft
  refine ⟨?_, ?_⟩
  · obtain ⟨k, _, hends⟩ := leavesAt_of_run _ _ hq
    exact ⟨k, q, hends⟩
  · -- the loop with the calls counted takes the same turns
    have hcounted := driveUpTo_counted p oWire bSplit (io, 0) oRng (2 * oWire.n + 1)
    rw [hq] at hcounted
    cases hexit : driveUpTo p.counted oWire bSplit (io, 0) oRng (2 * oWire.n + 1) with
    | spent st =>
      rw [hexit] at hcounted
      cases hcounted
    | broke q' =>
      obtain ⟨k, hk, hends⟩ := leavesAt_of_run _ _ hexit
      have hcount := leavesAt_count (fun st => st.io.2) (fun q => q.2.io.2)
        (fun _ _ h => driveTurn_counted_stop p oWire bSplit h)
        (fun _ _ h => driveTurn_counted p oWire bSplit h) hends
      exact ⟨k, q', hends, hcount.trans (Nat.zero_add k), hk⟩

/-! ## Section 4: The documented parser pays -/

/-- A parser that goes by the byte count of the record: it never raises it, and a
    message takes all there is, which is something. -/
structure GoesByCount {σ : Type} (p : Parser σ) : Prop where
  le : ∀ io oOv, (p.recvP2PeerMsg io oOv).oOv.dwBytes ≤ oOv.dwBytes
  msg : ∀ io oOv, (p.recvP2PeerMsg io oOv).turn = .msg →
    0 < oOv.dwBytes ∧ (p.recvP2PeerMsg io oOv).oOv.dwBytes = 0

section counting
variable {σ : Type} {p : Parser σ} {oWire : Wire} {bSplit : Bool} {io : σ} {oRng : Rng}

/-- What the record counts came in after the last message. -/
theorem driveUpTo_recent (hp : GoesByCount p) :
    ∀ (k : Nat) (st : DriveState σ), driveUpTo p oWire bSplit io oRng k = .spent st →
      st.oOv.dwBytes ≤ st.nFed ∧
      ∀ j nFed, j < k → MsgAt p oWire bSplit io oRng j nFed → nFed + st.oOv.dwBytes ≤ st.nFed := by
  intro k
  induction k with
  | zero =>
    intro st h
    cases h
    exact ⟨Nat.le_refl 0, fun j nFed hj => absurd hj (Nat.not_lt_zero j)⟩
  | succ k ih =>
    intro st₂ h
    obtain ⟨st, hrun, hturn⟩ := run_succ_spent k _ h
    obtain ⟨hle, hsince⟩ := ih st hrun
    have hcount := hp.le st.io st.oOv
    have hat : ∀ nFed, MsgAt p oWire bSplit io oRng k nFed →
        (p.recvP2PeerMsg st.io st.oOv).turn = .msg ∧ st.nFed = nFed := by
      intro nFed hmsg
      obtain ⟨st', hrun', hturn', hfed⟩ := hmsg
      obtain rfl : st = st' := Exit.spent.inj (hrun.symm.trans hrun')
      exact ⟨hturn', hfed⟩
    rcases onTurn_again hturn with ⟨m, st₁, hev, _, hd, rfl⟩ | ⟨hmsg, _, rfl⟩
    · -- a delivery raises both counts alike
      obtain ⟨dst, nWant, n, _, _, _, rfl⟩ := deliver_eq_some hd
      have hbytes : ((afterCall p st).oOv.receive dst oWire.b st.nFed n.1).dwBytes
          = (p.recvP2PeerMsg st.io st.oOv).oOv.dwBytes + n.1 := by
        cases dst <;> rfl
      refine ⟨?_, ?_⟩
      · show ((afterCall p st).oOv.receive dst oWire.b st.nFed n.1).dwBytes ≤ st.nFed + n.1
        omega
      · intro j nFed hj hbefore
        show nFed + ((afterCall p st).oOv.receive dst oWire.b st.nFed n.1).dwBytes ≤ st.nFed + n.1
        rcases Nat.lt_succ_iff_lt_or_eq.mp hj with hlt | rfl
        · have hold := hsince j nFed hlt hbefore
          omega
        · have hturn' := (hat nFed hbefore).1
          rw [hev] at hturn'
          cases hturn'
    · -- a message leaves nothing counted
      have hzero := (hp.msg st.io st.oOv hmsg).2
      refine ⟨?_, ?_⟩
      · show (p.recvP2PeerMsg st.io st.oOv).oOv.dwBytes ≤ st.nFed
        omega
      · intro j nFed hj hbefore
        show nFed + (p.recvP2PeerMsg st.io st.oOv).oOv.dwBytes ≤ st.nFed
        rcases Nat.lt_succ_iff_lt_or_eq.mp hj with hlt | rfl
        · have hold := hsince j nFed hlt hbefore
          omega
        · have hfed := (hat nFed hbefore).2
          omega

theorem paysForMessages_of_count (hp : GoesByCount p) : PaysForMessages p oWire bSplit io oRng where
  first := by
    intro k nFed h
    obtain ⟨st, hrun, hmsg, rfl⟩ := h
    have hpos := (hp.msg st.io st.oOv hmsg).1
    have hle := (driveUpTo_recent hp k st hrun).1
    omega
  next := by
    intro j k nFed nFed' hj h hlt
    obtain ⟨st, hrun, hmsg, rfl⟩ := h
    have hpos := (hp.msg st.io st.oOv hmsg).1
    have hsince := (driveUpTo_recent hp k st hrun).2 j nFed hlt hj
    omega

end counting

theorem bodyStage_count (oOv : Overlapped) (pHdr : Mem) :
    (bodyStage oOv pHdr).oOv.dwBytes ≤ oOv.dwBytes ∧
      ((bodyStage oOv pHdr).turn = .msg → (bodyStage oOv pHdr).oOv.dwBytes = 0) := by
  unfold bodyStage
  split
  · exact ⟨Nat.zero_le _, fun _ => rfl⟩
  · exact ⟨Nat.le_refl _, fun h => by cases h⟩

/-- A message needs a header at least, and everything else is a request or a refusal. -/
theorem framingRecv_count (nMin nMax : Nat) (oOv : Overlapped) :
    (framingRecv nMin nMax oOv).oOv.dwBytes ≤ oOv.dwBytes ∧
      ((framingRecv nMin nMax oOv).turn = .msg →
        0 < oOv.dwBytes ∧ (framingRecv nMin nMax oOv).oOv.dwBytes = 0) := by
  unfold framingRecv
  split
  · exact ⟨Nat.le_refl _, fun h => by cases h⟩
  · next pHdr _ =>
    split
    · exact ⟨Nat.le_refl _, fun h => by cases h⟩
    · next hfull =>
      have hpos : 0 < oOv.dwBytes := by
        unfold syncSizeof at hfull
        omega
      split
      · have hstage := bodyStage_count oOv pHdr
        exact ⟨hstage.1, fun h => ⟨hpos, hstage.2 h⟩⟩
      · split
        · split
          · exact ⟨Nat.le_refl _, fun h => by cases h⟩
          · split
            · exact ⟨Nat.le_refl _, fun h => by cases h⟩
            · have hstage := bodyStage_count { oOv with pUserDB2 := some pHdr } pHdr
              exact ⟨hstage.1, fun h => ⟨hpos, hstage.2 h⟩⟩
        · -- a slide drops one byte
          refine ⟨?_, fun h => by cases h⟩
          show syncSizeof - 1 ≤ oOv.dwBytes
          omega

/-- The parser the harness documents goes by the count, whatever its bounds. -/
theorem framing_goesByCount (nMin nMax : Nat) : GoesByCount (framing nMin nMax) where
  le := fun _ oOv => (framingRecv_count nMin nMax oOv).1
  msg := fun _ oOv => (framingRecv_count nMin nMax oOv).2

theorem framing_cannot_spin :
    CannotSpin (framing 8 32768) ⟨fun i => UInt8.ofNat i, 20⟩ true () (Rng.seed 7) :=
  drive_cannot_spin (framing 8 32768) ⟨fun i => UInt8.ofNat i, 20⟩ true () (Rng.seed 7) (by decide)
    (paysForMessages_of_count (framing_goesByCount 8 32768))

end FuzzFrame
