import MscsUnitTests.Lib.Network
import MscsUnitTests.Lib.Search
import MscsUnitTests.Payload

/-! # The Two Directions: A Body and Its Reply

    Phase 6 of `p2p_gcmdirection.cpp`: the client posts a body when its login is
    acknowledged, and the server replies when it sees the body the first time. Each hub
    looks for the other one's literal at every byte of what it is given, and tells `main`.

    * `reply_follows_body`: whatever is lost, doubled or reordered, the reply is seen only
      after the body, and neither hub posts twice.
    * `both_directions`: where nothing is lost, both are seen.
-/

open ByteSearch CFiles Network Payload Transitions WideText
open FuzzFrame (WCharT)

namespace GcmDirection

/-! ## Section 1: The hubs -/

inductive Side where
  | server | client
  deriving DecidableEq

structure Message where
  dest : Side
  data : List UInt8

inductive Event where
  | onConLoginAck
  deriving DecidableEq

def kToServer : Literal := ⟨cstr "client-to-server body", by decide⟩

def kToClient : Literal := ⟨cstr "server-to-client body", by decide⟩

/-- A hub's field, and the event it sets: `g_hServerGot` or `g_hClientGot`. -/
structure DirHub where
  m_bSent : Bool
  bGot : Bool

section hubs
variable (b : WCharT)

/-- `Contains`: the units of the needle, without the terminator. -/
def contains (data : List UInt8) (psz : Literal) : Bool :=
  let needle := bytesOf (psz.wide b)
  if data.length < needle.length ∨ needle.length = 0 then false else occursIn needle data

/-- `PostP2PeerMsg` of a literal with its terminator. -/
def post (dest : Side) (psz : Literal) : List Message :=
  (posted b (psz.wide b ++ [0])).toList.map fun data => ⟨dest, data⟩

/-- `PeekP2PeerMsg`. -/
def peekP2PeerMsg (v : Side) (pMsg : Message) (hub : DirHub) : DirHub × List Message :=
  if pMsg.data.length > 0 then
    match v with
    | .server =>
      if contains b pMsg.data kToServer then
        if hub.m_bSent = false then (⟨true, true⟩, post b .client kToClient)
        else ({ hub with bGot := true }, [])
      else (hub, [])
    | .client =>
      if contains b pMsg.data kToClient then ({ hub with bGot := true }, []) else (hub, [])
  else (hub, [])

/-- `On_ConLoginAck`. -/
def onConLoginAck (v : Side) (hub : DirHub) : DirHub × List Message :=
  if v = .client ∧ hub.m_bSent = false then
    ({ hub with m_bSent := true }, post b .server kToServer)
  else (hub, [])

def dirHubs : Protocol Side Event DirHub Message where
  start := fun _ => ⟨false, false⟩
  event := fun v _ hub => onConLoginAck b v hub
  receive := peekP2PeerMsg b
  dest := Message.dest

end hubs

/-! ## Section 2: What each hub keeps -/

section views
variable {b : WCharT}

/-- What a hub posts. -/
def message (b : WCharT) : Side → Message
  | .client => ⟨.server, bytesOf (kToServer.wide b ++ [0])⟩
  | .server => ⟨.client, bytesOf (kToClient.wide b ++ [0])⟩

/-- What a hub looks for. -/
def wanted : Side → Literal
  | .server => kToServer
  | .client => kToClient

/-- A hub sees the other one's body, and not its own. -/
theorem contains_message (b : WCharT) (v w : Side) :
    (contains b (message b w).data (wanted v) = true ↔ w ≠ v) ∧ (message b w).data.length > 0 := by
  cases b <;> cases v <;> cases w <;> decide

theorem post_client : post b .server kToServer = [message b .client] := by
  unfold post posted
  rw [kToServer.textOf_wide, Option.map_some, List.take_of_length_le]
  · rfl
  · rw [length_bytesOf, List.length_append, List.length_singleton]

theorem post_server : post b .client kToClient = [message b .server] := by
  unfold post posted
  rw [kToClient.textOf_wide, Option.map_some, List.take_of_length_le]
  · rfl
  · rw [length_bytesOf, List.length_append, List.length_singleton]

/-- Seen by a hub: what it looks for, in something that has reached it. -/
def Seen (b : WCharT) (v : Side) (reached : List Message) : Prop :=
  ∃ m ∈ reached, m.data.length > 0 ∧ contains b m.data (wanted v) = true

/-- A hub posts at most once; the server does when it sees the body. -/
structure View (b : WCharT) (v : Side) (hub : DirHub) (seen : List Event)
    (out reached : List Message) : Prop where
  out : out = if hub.m_bSent then [message b v] else []
  got : hub.bGot = true ↔ Seen b v reached
  replied : v = .server → hub.m_bSent = hub.bGot
  acked : v = .client → .onConLoginAck ∈ seen → hub.m_bSent = true

theorem seen_append (v : Side) (reached : List Message) (m : Message) :
    Seen b v (reached ++ [m]) ↔
      Seen b v reached ∨ (m.data.length > 0 ∧ contains b m.data (wanted v) = true) := by
  unfold Seen
  simp only [List.mem_append, List.mem_singleton, or_and_right, exists_or, exists_eq_left]

/-- A handler that posts nothing and leaves `m_bSent` alone. -/
theorem View.quiet {v : Side} {hub : DirHub} {seen : List Event} {out reached : List Message}
    {bGot : Bool} {reached' : List Message} (h : View b v hub seen out reached)
    (hgot : bGot = true ↔ Seen b v reached') (hreplied : v = .server → hub.m_bSent = bGot) :
    View b v { hub with bGot := bGot } seen (out ++ []) reached' := by
  rw [List.append_nil]
  exact ⟨h.out, hgot, hreplied, h.acked⟩

theorem view_event (v : Side) (e : Event) (hub : DirHub) (seen : List Event)
    (out reached : List Message) (h : View b v hub seen out reached) :
    View b v (onConLoginAck b v hub).1 (seen ++ [e]) (out ++ (onConLoginAck b v hub).2)
      reached := by
  unfold onConLoginAck
  split
  · next hfirst =>
    obtain ⟨rfl, hsent⟩ := hfirst
    have hout := h.out
    rw [hsent] at hout
    refine ⟨?_, h.got, ?_, fun _ _ => rfl⟩
    · rw [hout, post_client]
      rfl
    · intro habsurd
      cases habsurd
  · next hnot =>
    refine ⟨?_, h.got, h.replied, ?_⟩
    · rw [List.append_nil]
      exact h.out
    · rintro rfl _
      simpa using hnot

theorem view_receive (v : Side) (m : Message) (hub : DirHub) (seen : List Event)
    (out reached : List Message) (h : View b v hub seen out reached) :
    View b v (peekP2PeerMsg b v m hub).1 seen (out ++ (peekP2PeerMsg b v m hub).2)
      (reached ++ [m]) := by
  have hseen := seen_append (b := b) v reached m
  unfold peekP2PeerMsg
  split
  · next hlength =>
    cases hfound : contains b m.data (wanted v) with
    | false =>
      -- not what this hub looks for
      rw [hfound] at hseen
      have hgot : hub.bGot = true ↔ Seen b v (reached ++ [m]) := by
        rw [hseen, h.got]
        simp
      cases v with
      | server =>
        dsimp only
        rw [show contains b m.data kToServer = false from hfound, if_neg Bool.false_ne_true]
        exact h.quiet hgot h.replied
      | client =>
        dsimp only
        rw [show contains b m.data kToClient = false from hfound, if_neg Bool.false_ne_true]
        exact h.quiet hgot h.replied
    | true =>
      have hgot : true = true ↔ Seen b v (reached ++ [m]) := by
        rw [hseen, hfound]
        simp [hlength]
      cases v with
      | server =>
        dsimp only
        rw [show contains b m.data kToServer = true from hfound, if_pos rfl]
        split
        · next hsent =>
          have hout := h.out
          rw [hsent] at hout
          refine ⟨?_, hgot, fun _ => rfl, fun _ _ => rfl⟩
          rw [hout, post_server]
          rfl
        · next hsent =>
          rw [Bool.not_eq_false] at hsent
          exact h.quiet hgot fun _ => hsent
      | client =>
        dsimp only
        rw [show contains b m.data kToClient = true from hfound, if_pos rfl]
        refine h.quiet hgot ?_
        intro habsurd
        cases habsurd
  · next hlength =>
    refine h.quiet ?_ h.replied
    rw [hseen, h.got]
    simp [hlength]

theorem view_kept : KeptByAll (dirHubs b) (View b) where
  start v := ⟨rfl, by simp [Seen, dirHubs], fun _ => rfl, by simp⟩
  event := view_event
  receive := view_receive

end views

/-! ## Section 3: What `main` is told -/

section runs
variable {b : WCharT} {as : List (Action Side Event)} {s : State Side Event DirHub Message}

theorem postedBy_eq (hrun : Run (step (dirHubs b)) (dirHubs b).init as s) (v : Side) :
    s.postedBy v = if (s.nodes v).m_bSent then [message b v] else [] :=
  (views view_kept hrun v).out

/-- What a hub has seen, the other one has posted. -/
theorem sent_of_got (hrun : Run (step (dirHubs b)) (dirHubs b).init as s) {v : Side}
    (hgot : (s.nodes v).bGot = true) : ∃ w, w ≠ v ∧ (s.nodes w).m_bSent = true := by
  obtain ⟨m, hm, -, hfound⟩ := (views view_kept hrun v).got.mp hgot
  obtain ⟨w, hw⟩ := posted_of_delivered hrun (List.mem_of_mem_filter hm)
  rw [postedBy_eq hrun w] at hw
  split at hw
  · next hsent =>
    rw [List.mem_singleton.mp hw] at hfound
    exact ⟨w, (contains_message b v w).1.mp hfound, hsent⟩
  · cases hw

/-- **The reply follows the body**: at any point of any run, whatever is lost, doubled or
    reordered. The client has seen the reply only if the server has seen the body, which it
    has only if the client has posted it. Neither hub posts more than one message. -/
theorem reply_follows_body (hrun : Run (step (dirHubs b)) (dirHubs b).init as s) :
    ((s.nodes .client).bGot = true → (s.nodes .server).bGot = true) ∧
      ((s.nodes .server).bGot = true → (s.nodes .client).m_bSent = true) ∧
      ∀ v, (s.postedBy v).length ≤ 1 := by
  refine ⟨?_, ?_, ?_⟩
  · intro hgot
    obtain ⟨w, hw, hsent⟩ := sent_of_got hrun hgot
    cases w with
    | server =>
      rw [← (views view_kept hrun .server).replied rfl]
      exact hsent
    | client => exact absurd rfl hw
  · intro hgot
    obtain ⟨w, hw, hsent⟩ := sent_of_got hrun hgot
    cases w with
    | server => exact absurd rfl hw
    | client => exact hsent
  · intro v
    rw [postedBy_eq hrun v]
    split <;> simp

/-- A posted message that has reached the other hub is seen there. -/
theorem got_of_sent (hrun : Run (step (dirHubs b)) (dirHubs b).init as s)
    (hkept : ∀ a ∈ as, a.loses = false) (hquiet : s.flight = []) {v w : Side} (hne : w ≠ v)
    (hdest : (message b w).dest = v) (hsent : (s.nodes w).m_bSent = true) :
    (s.nodes v).bGot = true := by
  have hposted : message b w ∈ s.postedBy w := by
    rw [postedBy_eq hrun w, if_pos hsent]
    exact List.mem_singleton_self _
  have hdelivered := delivered_of_posted hrun hkept hquiet hposted
  rw [(views view_kept hrun v).got]
  obtain ⟨hfound, hlength⟩ := contains_message b v w
  exact ⟨message b w, List.mem_filter.mpr ⟨hdelivered, decide_eq_true hdest⟩, hlength,
    hfound.mpr hne⟩

/-- **Both directions work** where nothing is lost: once the client's login was acknowledged
    and nothing is in flight, the server has seen the body and the client the reply. -/
theorem both_directions (hrun : Run (step (dirHubs b)) (dirHubs b).init as s)
    (hkept : ∀ a ∈ as, a.loses = false) (hquiet : s.flight = [])
    (hacked : .event .client .onConLoginAck ∈ as) :
    (s.nodes .server).bGot = true ∧ (s.nodes .client).bGot = true := by
  have hclient := (views view_kept hrun .client).acked rfl (mem_seenBy hrun hacked)
  have hserver := got_of_sent hrun hkept hquiet (v := .server) (by decide) rfl hclient
  refine ⟨hserver, got_of_sent hrun hkept hquiet (w := .server) (by decide) rfl ?_⟩
  rw [(views view_kept hrun .server).replied rfl]
  exact hserver

end runs

/-- The run as it is meant: a login, the body, the reply. -/
def roundTrip : List (Action Side Event) := [.event .client .onConLoginAck, .deliver 0, .deliver 0]

theorem roundTrip_run : ∃ s, Run (step (dirHubs .two)) (dirHubs .two).init roundTrip s ∧
    s.flight = [] ∧ (s.nodes .client).bGot = true :=
  ⟨_, run_of_exec rfl, rfl, rfl⟩

theorem reply_follows_body_round_trip :
    ∃ s, Run (step (dirHubs .two)) (dirHubs .two).init roundTrip s ∧
      (s.nodes .server).bGot = true := by
  obtain ⟨s, hrun, -, hgot⟩ := roundTrip_run
  exact ⟨s, hrun, (reply_follows_body hrun).1 hgot⟩

theorem both_directions_round_trip :
    ∃ s, Run (step (dirHubs .two)) (dirHubs .two).init roundTrip s ∧
      (s.nodes .server).bGot = true ∧ (s.nodes .client).bGot = true := by
  obtain ⟨s, hrun, hquiet, -⟩ := roundTrip_run
  have hkept : ∀ a ∈ roundTrip, a.loses = false := by simp [roundTrip, Action.loses]
  exact ⟨s, hrun, both_directions hrun hkept hquiet (by decide)⟩

end GcmDirection
