import Mathlib.Data.Fintype.Card
import Mathlib.Data.Set.List
import MscsUnitTests.Lib.Network
import MscsUnitTests.Payload

/-! # The Mesh Programs: One Message from Each Client

    In `mix_con.cpp` and `mix_con3.cpp` some clients dial one server, each over a transport
    of its own. Each posts one message when its login is acknowledged, and the server counts
    what it is given: at `kExpected` it ends the wait of `main`. The programs with a single
    client, `wsa_mesh.cpp` and its like, are the same with `kExpected` 1.

    * `exit_zero_iff_each_printed`: over transports that lose and reorder, but do not
      double, `main` returns 0 exactly when the server has printed the text of every client.
    * `exit_zero_of_quiet`: where nothing is lost, it does so once nothing is in flight.
    * `doubled_message_passes`: a doubled message is taken for the one that is missing.
-/

open CFiles Network Payload Transitions WideText
open FuzzFrame (WCharT)

namespace Mesh

/-! ## Section 1: The hubs -/

inductive Hub (n : Nat) where
  | server
  | client (i : Fin n)
  deriving DecidableEq

/-- `P2PeerMsg32`: where it comes from and goes to, and its bytes. -/
structure Message (n : Nat) where
  source : Hub n
  dest : Hub n
  body : List UInt8

/-- What becomes known to a hub. -/
inductive Event where
  | onConLoginAck
  deriving DecidableEq

/-- A hub's fields; the counter and the event are of the server. -/
structure HubState (n : Nat) where
  m_bSent : Bool
  g_delivered : Nat
  /-- `g_hDoneEvent` has been set. -/
  bDone : Bool
  /-- What `PrintMessage` has printed: the source, and the text that `NBody` makes. -/
  printed : List (Hub n × Option CStr)

section hubs
variable {n : Nat} (b : WCharT) (kExpected : Nat) (texts : Fin n → Literal)

/-- `m_lpszMsg`, null in the server; the terminator is part of the literal. -/
def lpszMsg : Hub n → Option (List (WideChar b))
  | .server => none
  | .client i => some ((texts i).wide b ++ [0])

/-- `PostTestMessage`. -/
def postTestMessage (v : Hub n) (psz : List (WideChar b)) : List (Message n) :=
  (posted b psz).toList.map fun body => ⟨v, .server, body⟩

/-- `On_ConLoginAck`. -/
def onConLoginAck (v : Hub n) (st : HubState n) : HubState n × List (Message n) :=
  match lpszMsg b texts v with
  | some psz =>
    if st.m_bSent = false then ({ st with m_bSent := true }, postTestMessage b v psz) else (st, [])
  | none => (st, [])

/-- `PrintMessage`, for `On_P2PeerBCast` and `On_P2PeerUCast`. -/
def printMessage (v : Hub n) (pMsg : Message n) (st : HubState n) : HubState n :=
  let st := { st with printed := st.printed ++ [(pMsg.source, nBody b (some (some pMsg.body)))] }
  match v with
  | .server =>
    { st with
      g_delivered := st.g_delivered + 1
      bDone := st.bDone || decide (kExpected ≤ st.g_delivered + 1) }
  | .client _ => st

/-- The program. -/
def mesh : Protocol (Hub n) Event (HubState n) (Message n) where
  start := fun _ => ⟨false, 0, false, []⟩
  event := fun v _ st => onConLoginAck b texts v st
  receive := fun v pMsg st => (printMessage b kExpected v pMsg st, [])
  dest := Message.dest

/-- What `main` returns when its wait ends in this state. -/
def exitCode (s : State (Hub n) Event (HubState n) (Message n)) : Nat :=
  if (s.nodes .server).bDone then 0 else 3

end hubs

/-! ## Section 2: What each hub keeps -/

section views
variable {n : Nat} {b : WCharT} {kExpected : Nat} {texts : Fin n → Literal}

/-- The message of a client. -/
def testMessage (b : WCharT) (texts : Fin n → Literal) (i : Fin n) : Message n :=
  ⟨.client i, .server, bytesOf ((texts i).wide b ++ [0])⟩

theorem posted_wide (b : WCharT) (text : Literal) :
    posted b (text.wide b ++ [0]) = some (bytesOf (text.wide b ++ [0])) := by
  unfold posted
  rw [text.textOf_wide, Option.map_some, List.take_of_length_le]
  rw [length_bytesOf, List.length_append, List.length_singleton]

theorem postTestMessage_client (i : Fin n) :
    postTestMessage b (.client i) ((texts i).wide b ++ [0]) = [testMessage b texts i] := by
  unfold postTestMessage
  rw [posted_wide]
  rfl

/-- The text of a client is printed as it is written. -/
theorem nBody_testMessage (i : Fin n) :
    nBody b (some (some (testMessage b texts i).body)) = some (texts i).chars := by
  obtain ⟨body, hbody, -, -, hread, -⟩ := posted_text_is_read ((texts i).textOf_wide b) []
  rw [posted_wide, Option.some_inj] at hbody
  subst hbody
  rw [List.append_nil, (texts i).map_narrowed] at hread
  exact hread

/-- The server counts and prints what reaches it; a client posts its message once. -/
def View (b : WCharT) (kExpected : Nat) (texts : Fin n → Literal) (v : Hub n) (st : HubState n)
    (seen : List Event) (out reached : List (Message n)) : Prop :=
  match v with
  | .server => out = [] ∧ st.g_delivered = reached.length ∧
      (st.bDone = true ↔ kExpected ≤ reached.length) ∧
      st.printed = reached.map fun pMsg => (pMsg.source, nBody b (some (some pMsg.body)))
  | .client i => (st.m_bSent = true ↔ .onConLoginAck ∈ seen) ∧
      out = if st.m_bSent then [testMessage b texts i] else []

theorem view_kept (hpos : 0 < kExpected) :
    KeptByAll (mesh b kExpected texts) (View b kExpected texts) where
  start v := by
    cases v with
    | server =>
      refine ⟨rfl, rfl, ?_, rfl⟩
      rw [List.length_nil]
      show false = true ↔ _
      simp only [Bool.false_eq_true, false_iff]
      omega
    | client i => exact ⟨by simp [mesh], rfl⟩
  event v e st seen out reached h := by
    cases v with
    | server =>
      show View b kExpected texts .server st (seen ++ [e]) (out ++ []) reached
      rw [List.append_nil]
      exact h
    | client i =>
      obtain ⟨m_bSent, g_delivered, bDone, printed⟩ := st
      obtain ⟨hsent, hout⟩ := h
      have hacked : true = true ↔ .onConLoginAck ∈ seen ++ [e] := by
        cases e
        simp
      cases m_bSent with
      | true =>
        refine ⟨hacked, ?_⟩
        show out ++ [] = _
        rw [List.append_nil]
        exact hout
      | false =>
        refine ⟨hacked, ?_⟩
        show out ++ postTestMessage b (.client i) ((texts i).wide b ++ [0]) = [_]
        rw [hout, postTestMessage_client]
        rfl
  receive v m st seen out reached h := by
    cases v with
    | server =>
      obtain ⟨hout, hcount, hdone, hprinted⟩ := h
      refine ⟨?_, ?_, ?_, ?_⟩
      · rw [hout]
        rfl
      · show st.g_delivered + 1 = _
        rw [hcount, List.length_append, List.length_singleton]
      · show (st.bDone || decide (kExpected ≤ st.g_delivered + 1)) = true ↔ _
        rw [Bool.or_eq_true, hdone, decide_eq_true_iff, hcount, List.length_append,
          List.length_singleton]
        omega
      · show st.printed ++ _ = _
        rw [hprinted, List.map_append]
        rfl
    | client i =>
      refine ⟨h.1, ?_⟩
      show out ++ [] = _
      rw [List.append_nil]
      exact h.2

/-- What a client has posted. -/
theorem postedBy_client (hpos : 0 < kExpected) {as : List (Action (Hub n) Event)}
    {s : State (Hub n) Event (HubState n) (Message n)}
    (hrun : Run (step (mesh b kExpected texts)) (mesh b kExpected texts).init as s) (i : Fin n) :
    s.postedBy (.client i) =
      if (s.nodes (.client i)).m_bSent then [testMessage b texts i] else [] :=
  (views (view_kept hpos) hrun (.client i)).2

/-- The server posts nothing. -/
theorem postedBy_server (hpos : 0 < kExpected) {as : List (Action (Hub n) Event)}
    {s : State (Hub n) Event (HubState n) (Message n)}
    (hrun : Run (step (mesh b kExpected texts)) (mesh b kExpected texts).init as s) :
    s.postedBy .server = [] :=
  (views (view_kept hpos) hrun .server).1

/-- What was posted is the message of the client that posted it. -/
theorem eq_testMessage (hpos : 0 < kExpected) {as : List (Action (Hub n) Event)}
    {s : State (Hub n) Event (HubState n) (Message n)}
    (hrun : Run (step (mesh b kExpected texts)) (mesh b kExpected texts).init as s) {v : Hub n}
    {m : Message n} (hm : m ∈ s.postedBy v) : ∃ i, v = .client i ∧ m = testMessage b texts i := by
  cases v with
  | server =>
    rw [postedBy_server hpos hrun] at hm
    cases hm
  | client i =>
    rw [postedBy_client hpos hrun] at hm
    split at hm
    · exact ⟨i, rfl, List.mem_singleton.mp hm⟩
    · cases hm

end views

/-! ## Section 3: What reaches the server -/

section runs
variable {n : Nat} {b : WCharT} {kExpected : Nat} {texts : Fin n → Literal}
  {as : List (Action (Hub n) Event)} {s : State (Hub n) Event (HubState n) (Message n)}

/-- What is delivered are messages of clients, whose numbers these are. -/
theorem delivered_eq (hpos : 0 < kExpected)
    (hrun : Run (step (mesh b kExpected texts)) (mesh b kExpected texts).init as s) :
    ∃ order : List (Fin n), s.delivered = order.map (testMessage b texts) := by
  have hall : ∀ m ∈ s.delivered, m ∈ Set.range (testMessage b texts) := by
    intro m hm
    obtain ⟨v, hv⟩ := posted_of_delivered hrun hm
    obtain ⟨i, -, rfl⟩ := eq_testMessage hpos hrun hv
    exact Set.mem_range_self i
  have hrange : s.delivered ∈ Set.range (List.map (testMessage b texts)) := by
    rw [Set.range_list_map]
    exact hall
  obtain ⟨order, horder⟩ := hrange
  exact ⟨order, horder.symm⟩

/-- All of it reaches the server. -/
theorem reached_server {order : List (Fin n)}
    (horder : s.delivered = order.map (testMessage b texts)) :
    (mesh b kExpected texts).reached s .server = order.map (testMessage b texts) := by
  unfold Protocol.reached
  rw [horder, List.filter_eq_self]
  intro m hm
  obtain ⟨i, -, rfl⟩ := List.mem_map.mp hm
  exact decide_eq_true rfl

/-- What the server has made of them. -/
theorem server_state (hpos : 0 < kExpected)
    (hrun : Run (step (mesh b kExpected texts)) (mesh b kExpected texts).init as s)
    {order : List (Fin n)} (horder : s.delivered = order.map (testMessage b texts)) :
    (exitCode s = 0 ↔ kExpected ≤ order.length) ∧
      (s.nodes .server).printed = order.map fun i => (.client i, some (texts i).chars) := by
  obtain ⟨-, -, hdone, hprinted⟩ := views (view_kept hpos) hrun .server
  rw [reached_server horder] at hdone hprinted
  rw [List.length_map] at hdone
  refine ⟨?_, ?_⟩
  · unfold exitCode
    rw [← hdone]
    split
    · next h => simp [h]
    · next h => simp [h]
  · rw [hprinted, List.map_map]
    refine List.map_congr_left fun i _ => ?_
    exact congrArg (Prod.mk _) (nBody_testMessage i)

/-- Where nothing is doubled, no client is delivered twice. -/
theorem nodup_order (hpos : 0 < kExpected)
    (hrun : Run (step (mesh b kExpected texts)) (mesh b kExpected texts).init as s)
    (honce : ∀ a ∈ as, a.doubles = false) {order : List (Fin n)}
    (horder : s.delivered = order.map (testMessage b texts)) : order.Nodup := by
  have hone : ∀ v, (s.postedBy v).length ≤ 1 := by
    intro v
    cases v with
    | server =>
      rw [postedBy_server hpos hrun]
      exact Nat.zero_le 1
    | client i =>
      rw [postedBy_client hpos hrun]
      split <;> simp
  -- a message names the hub that has posted it
  have hsource : ∀ p ∈ s.posted, p.2.source = p.1 := by
    rintro ⟨v, m⟩ hp
    obtain ⟨i, rfl, rfl⟩ := eq_testMessage hpos hrun (mem_ofParty.mpr hp)
    rfl
  have hposters : (s.posted.map Prod.snd).map Message.source = s.posted.map Prod.fst := by
    rw [List.map_map]
    exact List.map_congr_left hsource
  have hle := Multiset.map_le_map (f := Message.source) (delivered_le_posted hrun honce)
  rw [Multiset.map_coe, Multiset.map_coe, hposters, horder, List.map_map] at hle
  have hnodup : (order.map (Message.source ∘ testMessage b texts)).Nodup :=
    Multiset.nodup_of_le hle (nodup_posters hone)
  exact List.Nodup.of_map _ hnodup

/-! ## Section 4: What the exit code says -/

/-- A list without doubles is as long as there are numbers exactly when it has them all. -/
theorem le_length_iff {order : List (Fin n)} (hnodup : order.Nodup) :
    n ≤ order.length ↔ ∀ i, i ∈ order := by
  have hcard : order.toFinset.card = order.length := List.toFinset_card_of_nodup hnodup
  rw [← hcard]
  constructor
  · intro hle i
    have huniv := Finset.eq_univ_of_card order.toFinset
      (le_antisymm (Finset.card_le_univ _) (by rwa [Fintype.card_fin]))
    exact List.mem_toFinset.mp (huniv ▸ Finset.mem_univ i)
  · intro hall
    have huniv : order.toFinset = Finset.univ :=
      Finset.eq_univ_of_forall fun i => List.mem_toFinset.mpr (hall i)
    rw [huniv, Finset.card_univ, Fintype.card_fin]

/-- **The verdict bears out**, over transports that may lose and reorder: with a message
    expected of each client, `main` returns 0 exactly when the server has printed the text of
    each. It has printed no text twice. -/
theorem exit_zero_iff_each_printed (hpos : 0 < n)
    (hrun : Run (step (mesh b n texts)) (mesh b n texts).init as s)
    (honce : ∀ a ∈ as, a.doubles = false) :
    (exitCode s = 0 ↔
      ∀ i, (Hub.client i, some (texts i).chars) ∈ (s.nodes .server).printed) ∧
    ((s.nodes .server).printed.map Prod.fst).Nodup := by
  obtain ⟨order, horder⟩ := delivered_eq hpos hrun
  have hnodup := nodup_order hpos hrun honce horder
  obtain ⟨hexit, hprinted⟩ := server_state hpos hrun horder
  have hmem : ∀ i, (Hub.client i, some (texts i).chars) ∈ (s.nodes .server).printed ↔
      i ∈ order := by
    intro i
    rw [hprinted, List.mem_map]
    constructor
    · rintro ⟨j, hj, heq⟩
      cases heq
      exact hj
    · intro hi
      exact ⟨i, hi, rfl⟩
  refine ⟨?_, ?_⟩
  · rw [hexit]
    simp only [hmem]
    exact le_length_iff hnodup
  · rw [hprinted, List.map_map]
    refine hnodup.map ?_
    intro i j hij
    cases hij
    rfl

/-- A client has posted its message once its login was acknowledged. -/
theorem posted_of_acked (hpos : 0 < kExpected)
    (hrun : Run (step (mesh b kExpected texts)) (mesh b kExpected texts).init as s) {i : Fin n}
    (hacked : .event (.client i) .onConLoginAck ∈ as) :
    testMessage b texts i ∈ s.postedBy (.client i) := by
  have hsent := (views (view_kept hpos) hrun (.client i)).1.mpr (mem_seenBy hrun hacked)
  rw [postedBy_client hpos hrun, if_pos hsent]
  exact List.mem_singleton_self _

/-- **The round trip succeeds** where no message is lost: once the login of each client was
    acknowledged and nothing is in flight, `main` returns 0 and every text was printed. -/
theorem exit_zero_of_quiet (hpos : 0 < n)
    (hrun : Run (step (mesh b n texts)) (mesh b n texts).init as s)
    (hkept : ∀ a ∈ as, a.loses = false) (hquiet : s.flight = [])
    (hacked : ∀ i, .event (.client i) .onConLoginAck ∈ as) :
    exitCode s = 0 ∧
      ∀ i, (Hub.client i, some (texts i).chars) ∈ (s.nodes .server).printed := by
  obtain ⟨order, horder⟩ := delivered_eq hpos hrun
  obtain ⟨hexit, hprinted⟩ := server_state hpos hrun horder
  have hall : ∀ i, i ∈ order := by
    intro i
    have hdelivered := delivered_of_posted hrun hkept hquiet (posted_of_acked hpos hrun (hacked i))
    rw [horder, List.mem_map] at hdelivered
    obtain ⟨j, hj, heq⟩ := hdelivered
    have hsource := congrArg Message.source heq
    cases hsource
    exact hj
  refine ⟨?_, ?_⟩
  · rw [hexit]
    -- the numbers without doubles are no more than the list
    have hdedup := (le_length_iff order.nodup_dedup).mpr fun i => List.mem_dedup.mpr (hall i)
    exact hdedup.trans order.dedup_sublist.length_le
  · intro i
    rw [hprinted, List.mem_map]
    exact ⟨i, hall i, rfl⟩

end runs

/-! ## Section 5: The programs -/

/-- The clients of `mix_con.cpp`. -/
def mixConTexts : Fin 2 → Literal
  | 0 => ⟨cstr "Hello via Wsa (loopback TCP)!", by decide⟩
  | 1 => ⟨cstr "Hello via Pipe (AF_UNIX)!", by decide⟩

def mixCon (b : WCharT) : Protocol (Hub 2) Event (HubState 2) (Message 2) := mesh b 2 mixConTexts

/-- The clients of `mix_con3.cpp`. -/
def mixCon3Texts : Fin 3 → Literal
  | 0 => ⟨cstr "Hello via Wsa (loopback TCP)!", by decide⟩
  | 1 => ⟨cstr "Hello via Pipe (AF_UNIX)!", by decide⟩
  | 2 => ⟨cstr "Hello via Dmx (in-process)!", by decide⟩

def mixCon3 (b : WCharT) : Protocol (Hub 3) Event (HubState 3) (Message 3) :=
  mesh b 3 mixCon3Texts

/-- A program with one client: its server sets the event for any message, and has no
    counter that could be looked at. -/
def single (b : WCharT) (text : Literal) : Protocol (Hub 1) Event (HubState 1) (Message 1) :=
  mesh b 1 fun _ => text

def wsaMesh (b : WCharT) : Protocol (Hub 1) Event (HubState 1) (Message 1) :=
  single b ⟨cstr "Hello over loopback TCP, in one process!", by decide⟩

def pipeMesh (b : WCharT) : Protocol (Hub 1) Event (HubState 1) (Message 1) :=
  single b ⟨cstr "Hello over a named pipe, in one process!", by decide⟩

def dmxMesh (b : WCharT) : Protocol (Hub 1) Event (HubState 1) (Message 1) :=
  single b ⟨cstr "Hello over an in-process Dmx connection!", by decide⟩

def com232Mesh (b : WCharT) : Protocol (Hub 1) Event (HubState 1) (Message 1) :=
  single b ⟨cstr "Hello over an RS-232 serial connection!", by decide⟩

/-- Both clients of `mix_con.cpp`, the second one first. -/
def bothClients : List (Action (Hub 2) Event) :=
  [.event (.client 1) .onConLoginAck, .event (.client 0) .onConLoginAck, .deliver 0, .deliver 0]

theorem bothClients_run : ∃ s, Run (step (mixCon .two)) (mixCon .two).init bothClients s ∧
    s.flight = [] ∧ exitCode s = 0 :=
  ⟨_, run_of_exec rfl, rfl, rfl⟩

theorem exit_zero_iff_each_printed_mix :
    ∃ s, Run (step (mixCon .two)) (mixCon .two).init bothClients s ∧
      ∀ i, (Hub.client i, some (mixConTexts i).chars) ∈ (s.nodes .server).printed := by
  obtain ⟨s, hrun, -, hexit⟩ := bothClients_run
  have honce : ∀ a ∈ bothClients, a.doubles = false := by simp [bothClients, Action.doubles]
  exact ⟨s, hrun, (exit_zero_iff_each_printed (by decide) hrun honce).1.mp hexit⟩

theorem exit_zero_of_quiet_mix :
    ∃ s, Run (step (mixCon .two)) (mixCon .two).init bothClients s ∧ exitCode s = 0 := by
  obtain ⟨s, hrun, hquiet, -⟩ := bothClients_run
  have hkept : ∀ a ∈ bothClients, a.loses = false := by simp [bothClients, Action.loses]
  have hacked : ∀ i, .event (.client i) .onConLoginAck ∈ bothClients := by decide
  exact ⟨s, hrun, (exit_zero_of_quiet (by decide) hrun hkept hquiet hacked).1⟩

/-- **A doubled message passes for the one that is missing**: only one client of
    `mix_con.cpp` has posted, and `main` returns 0. -/
theorem doubled_message_passes : ∃ as s, Run (step (mixCon .two)) (mixCon .two).init as s ∧
    exitCode s = 0 ∧ s.postedBy (.client 1) = [] :=
  ⟨[.event (.client 0) .onConLoginAck, .double 0, .deliver 0, .deliver 0], _, run_of_exec rfl,
    rfl, rfl⟩

end Mesh
