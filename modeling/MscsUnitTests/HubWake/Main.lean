import MscsUnitTests.HubWake.Burst

/-! # The Hub Is Woken: What the Exit Code Says

    `main` of `p2p_hubwake.cpp` beside the hubs. It waits for the burst to be posted, looks
    for the connection, waits for the burst to arrive, looks at the connection again, posts
    the last message and waits for it. What the library says of the connection, and whether
    a wait that is not answered yet times out, is left open.
-/

open CFiles Network Payload Transitions
open FuzzFrame (WCharT)

namespace HubWake

/-! ## Section 1: `main` -/

/-- Where `main` stands. -/
inductive Main where
  | waitPosted
  /-- It looks for the connection, and has the hub paused and woken. -/
  | identify
  | waitBurst
  | check (nExit : Nat)
  | waitAfter
  | exited (nExit : Nat)
  deriving DecidableEq

structure Program where
  net : State Side Event WakeHub Message
  main : Main

inductive Act where
  /-- The hubs, and what happens to the messages. -/
  | hub (a : Action Side Event)
  | wait (timedOut : Bool)
  | identify (found : Bool)
  | check (survived : Bool)

/-- Whether the event that `main` waits for is set. -/
def signalled (p : Program) : Bool :=
  match p.main with
  | .waitPosted => (p.net.nodes .client).m_bSent
  | .waitBurst => (p.net.nodes .server).bBurstDone
  | .waitAfter => (p.net.nodes .server).bAfterSeen
  | _ => false

def afterWait (timedOut : Bool) : Main → Option Main
  | .waitPosted => some (if timedOut then .exited 3 else .identify)
  | .waitBurst => some (.check (if timedOut then 2 else 0))
  | .waitAfter => some (.exited (if timedOut then 2 else 0))
  | _ => none

/-- `PostAfterWake` is called by `main` alone. -/
def ofMain : Action Side Event → Bool
  | .event _ .postAfterWake => true
  | _ => false

section main
variable (b : WCharT) (kBurst : Nat)

def program : Program := ⟨(wakeHubs b kBurst).init, .waitPosted⟩

def programStep (p : Program) : Act → Option Program
  | .hub a =>
    if ofMain a then none
    else (step (wakeHubs b kBurst) p.net a).map fun net => { p with net := net }
  | .wait timedOut =>
    if signalled p = timedOut then none
    else (afterWait timedOut p.main).map fun main => { p with main := main }
  | .identify found =>
    match p.main with
    | .identify => some { p with main := if found then .waitBurst else .exited 1 }
    | _ => none
  | .check survived =>
    match p.main with
    | .check nExit =>
      let nExit := if survived then nExit else 2
      if nExit = 0 then
        (step (wakeHubs b kBurst) p.net (.event .client .postAfterWake)).map fun net =>
          ⟨net, .waitAfter⟩
      else some { p with main := .exited nExit }
    | _ => none

end main

/-! ## Section 2: What `main` knows -/

section knows
variable {b : WCharT} {kBurst : Nat}

/-- What `main` can do without the hubs. -/
inductive MainMoves (p : Program) : Main → Prop where
  | neverPosted (h : p.main = .waitPosted) : MainMoves p (.exited 3)
  | posted (h : p.main = .waitPosted) : MainMoves p .identify
  | missing (h : p.main = .identify) : MainMoves p (.exited 1)
  | found (h : p.main = .identify) : MainMoves p .waitBurst
  | burstLate (h : p.main = .waitBurst) : MainMoves p (.check 2)
  | burst (h : p.main = .waitBurst) (hset : (p.net.nodes .server).bBurstDone = true) :
    MainMoves p (.check 0)
  | failed {n nExit : Nat} (h : p.main = .check n) (hne : nExit ≠ 0) : MainMoves p (.exited nExit)
  | afterLate (h : p.main = .waitAfter) : MainMoves p (.exited 2)
  | after (h : p.main = .waitAfter) (hset : (p.net.nodes .server).bAfterSeen = true) :
    MainMoves p (.exited 0)

/-- A step is one of the hubs, one of `main` alone, or the call that `main` makes. -/
theorem programStep_cases {p p' : Program} {a : Act} (hstep : programStep b kBurst p a = some p') :
    (∃ a' net', a = .hub a' ∧ ofMain a' = false ∧
      step (wakeHubs b kBurst) p.net a' = some net' ∧ p' = ⟨net', p.main⟩) ∨
    (∃ main', (∀ a', a ≠ .hub a') ∧ MainMoves p main' ∧ p' = ⟨p.net, main'⟩) ∨
    (∃ net', (∀ a', a ≠ .hub a') ∧ p.main = .check 0 ∧
      step (wakeHubs b kBurst) p.net (.event .client .postAfterWake) = some net' ∧
      p' = ⟨net', .waitAfter⟩) := by
  obtain ⟨net, main⟩ := p
  cases a with
  | hub a =>
    left
    simp only [programStep] at hstep
    split at hstep
    · cases hstep
    · next hown =>
      obtain ⟨net', hnet', rfl⟩ := Option.map_eq_some_iff.mp hstep
      exact ⟨a, net', rfl, Bool.not_eq_true _ ▸ hown, hnet', rfl⟩
  | wait timedOut =>
    right
    left
    simp only [programStep] at hstep
    split at hstep
    · cases hstep
    · next hanswer =>
      obtain ⟨main', hmain', rfl⟩ := Option.map_eq_some_iff.mp hstep
      refine ⟨main', by simp, ?_, rfl⟩
      cases main <;> cases hmain' <;> cases timedOut
      · exact .posted rfl
      · exact .neverPosted rfl
      · exact .burst rfl (by simpa [signalled] using hanswer)
      · exact .burstLate rfl
      · exact .after rfl (by simpa [signalled] using hanswer)
      · exact .afterLate rfl
  | identify found =>
    right
    left
    cases main <;> cases hstep
    cases found
    · exact ⟨_, by simp, .missing rfl, rfl⟩
    · exact ⟨_, by simp, .found rfl, rfl⟩
  | check survived =>
    right
    rcases main with _ | _ | _ | nExit | _ | _
    · cases hstep
    · cases hstep
    · cases hstep
    · simp only [programStep] at hstep
      generalize hexit : (if survived = true then nExit else 2) = n at hstep
      by_cases hzero : n = 0
      · rw [if_pos hzero] at hstep
        obtain ⟨net', hnet', rfl⟩ := Option.map_eq_some_iff.mp hstep
        refine .inr ⟨net', by simp, ?_, hnet', rfl⟩
        cases survived with
        | true =>
          rw [← hzero, ← hexit]
          rfl
        | false =>
          rw [if_neg Bool.false_ne_true] at hexit
          omega
      · rw [if_neg hzero] at hstep
        cases hstep
        exact .inl ⟨_, by simp, .failed rfl hzero, rfl⟩
    · cases hstep
    · cases hstep

/-- How often `PostAfterWake` has been called. -/
def Calls (k : Nat) : Main → Prop
  | .waitAfter => k = 1
  | .exited _ => k ≤ 1
  | _ => k = 0

/-- The events of the server that `main` has waited for. -/
def Waited (hub : WakeHub) : Main → Prop
  | .check nExit => nExit = 0 → hub.bBurstDone = true
  | .waitAfter => hub.bBurstDone = true
  | .exited nExit => nExit = 0 → hub.bBurstDone = true ∧ hub.bAfterSeen = true
  | _ => True

structure Knows (p : Program) : Prop where
  calls : Calls ((p.net.seenBy .client).count .postAfterWake) p.main
  serverCalls : (p.net.seenBy .server).count .postAfterWake = 0
  waited : Waited (p.net.nodes .server) p.main

/-- An action of the hubs calls nothing. -/
theorem count_seenBy {s s' : State Side Event WakeHub Message} {a : Action Side Event}
    (hown : ofMain a = false) (hstep : step (wakeHubs b kBurst) s a = some s') (v : Side) :
    (s'.seenBy v).count .postAfterWake = (s.seenBy v).count .postAfterWake := by
  cases a with
  | event w e =>
    cases e with
    | postAfterWake => cases hown
    | onConLoginAck =>
      cases hstep
      show (ofParty v (s.seen ++ [(w, Event.onConLoginAck)])).count _ = _
      by_cases hw : v = w
      · subst hw
        have hself := ofParty_self v s.seen [Event.onConLoginAck]
        rw [List.map_singleton] at hself
        rw [hself, List.count_append]
        rfl
      · have hother := ofParty_ne hw s.seen [Event.onConLoginAck]
        rw [List.map_singleton] at hother
        rw [hother]
        rfl
  | deliver k =>
    obtain ⟨m, -, rfl⟩ := Option.map_eq_some_iff.mp hstep
    rfl
  | lose k =>
    obtain ⟨m, -, rfl⟩ := Option.map_eq_some_iff.mp hstep
    rfl
  | double k =>
    obtain ⟨m, -, rfl⟩ := Option.map_eq_some_iff.mp hstep
    rfl

/-- A call that `main` makes on the client's hub. -/
theorem seenBy_call {s s' : State Side Event WakeHub Message}
    (hstep : step (wakeHubs b kBurst) s (.event .client .postAfterWake) = some s') :
    s'.seenBy .client = s.seenBy .client ++ [.postAfterWake] ∧
      s'.seenBy .server = s.seenBy .server := by
  cases hstep
  exact ⟨ofParty_self Side.client s.seen [Event.postAfterWake],
    ofParty_ne (by decide) s.seen [Event.postAfterWake]⟩

/-- The events of the server stay set. -/
theorem flags_kept (burst after : Bool) : KeptByHandlers (wakeHubs b kBurst) fun v hub _ _ _ =>
    v = .server → (burst = true → hub.bBurstDone = true) ∧
      (after = true → hub.bAfterSeen = true) where
  event v e hub seen out reached h hv := by
    subst hv
    cases e <;> exact h rfl
  receive v m hub seen out reached h hv := by
    subst hv
    obtain ⟨hburst, hafter⟩ := h rfl
    show (burst = true → (onP2PeerBCast b kBurst .server m hub).bBurstDone = true) ∧
      (after = true → (onP2PeerBCast b kBurst .server m hub).bAfterSeen = true)
    unfold onP2PeerBCast
    split
    · split
      · exact ⟨hburst, fun _ => rfl⟩
      · refine ⟨fun hb => ?_, hafter⟩
        show (_ || _) = true
        rw [hburst hb, Bool.true_or]
    · exact ⟨hburst, hafter⟩

theorem Waited.step {s s' : State Side Event WakeHub Message} {a : Action Side Event}
    (hstep : step (wakeHubs b kBurst) s a = some s') {main : Main}
    (h : Waited (s.nodes .server) main) : Waited (s'.nodes .server) main := by
  have hflags := views_step
    (flags_kept (s.nodes .server).bBurstDone (s.nodes .server).bAfterSeen) s a s' ?_ hstep
    .server rfl
  · cases main with
    | waitPosted => trivial
    | identify => trivial
    | waitBurst => trivial
    | check nExit => exact fun hzero => hflags.1 (h hzero)
    | waitAfter => exact hflags.1 h
    | exited nExit => exact fun hzero => ⟨hflags.1 (h hzero).1, hflags.2 (h hzero).2⟩
  · rintro v rfl
    exact ⟨id, id⟩

theorem knows_move {p : Program} {main' : Main} (h : Knows p) (hmove : MainMoves p main') :
    Knows ⟨p.net, main'⟩ := by
  obtain ⟨net, main⟩ := p
  obtain ⟨hcalls, hserver, hwaited⟩ := h
  have hnone : ∀ k : Nat, k = 0 → k ≤ 1 := by omega
  cases hmove with
  | neverPosted hmain =>
    cases hmain
    exact ⟨hnone _ hcalls, hserver, fun habsurd => by cases habsurd⟩
  | posted hmain =>
    cases hmain
    exact ⟨hcalls, hserver, trivial⟩
  | missing hmain =>
    cases hmain
    exact ⟨hnone _ hcalls, hserver, fun habsurd => by cases habsurd⟩
  | found hmain =>
    cases hmain
    exact ⟨hcalls, hserver, trivial⟩
  | burstLate hmain =>
    cases hmain
    exact ⟨hcalls, hserver, fun habsurd => by cases habsurd⟩
  | burst hmain hset =>
    cases hmain
    exact ⟨hcalls, hserver, fun _ => hset⟩
  | failed hmain hne =>
    cases hmain
    exact ⟨hnone _ hcalls, hserver, fun hzero => absurd hzero hne⟩
  | afterLate hmain =>
    cases hmain
    exact ⟨Nat.le_of_eq hcalls, hserver, fun habsurd => by cases habsurd⟩
  | after hmain hset =>
    cases hmain
    exact ⟨Nat.le_of_eq hcalls, hserver, fun _ => ⟨hwaited, hset⟩⟩

theorem knows_step (p : Program) (a : Act) (p' : Program) (h : Knows p)
    (hstep : programStep b kBurst p a = some p') : Knows p' := by
  rcases programStep_cases hstep with ⟨a', net', -, hown, hnet', rfl⟩ |
    ⟨main', -, hmove, rfl⟩ | ⟨net', -, hmain, hnet', rfl⟩
  · refine ⟨?_, ?_, Waited.step hnet' h.waited⟩
    · show Calls ((net'.seenBy .client).count _) p.main
      rw [count_seenBy hown hnet']
      exact h.calls
    · show (net'.seenBy .server).count _ = 0
      rw [count_seenBy hown hnet']
      exact h.serverCalls
  · exact knows_move h hmove
  · obtain ⟨hcalls, hserver, hwaited⟩ := h
    rw [hmain] at hcalls hwaited
    obtain ⟨hclient, hother⟩ := seenBy_call hnet'
    have hdone : Waited (p.net.nodes .server) .waitAfter := hwaited rfl
    refine ⟨?_, ?_, Waited.step hnet' hdone⟩
    · show (net'.seenBy .client).count _ = 1
      have hnone : (p.net.seenBy .client).count .postAfterWake = 0 := hcalls
      rw [hclient, List.count_append, hnone]
      rfl
    · show (net'.seenBy .server).count _ = 0
      rw [hother]
      exact hserver

/-- What `main` knows, at any point of any run. -/
theorem knows {as : List Act} {p : Program}
    (hrun : Run (programStep b kBurst) (program b kBurst) as p) : Knows p :=
  hrun.inv knows_step ⟨rfl, rfl, trivial⟩

/-- A run of the program is a run of the hubs, in which `main` calls something now and then. -/
theorem net_run {as : List Act} {p : Program}
    (hrun : Run (programStep b kBurst) (program b kBurst) as p) : ∃ as' : List (Action Side Event),
      Run (step (wakeHubs b kBurst)) (wakeHubs b kBurst).init as' p.net ∧
      (∀ a ∈ as', .hub a ∈ as ∨ a = .event .client .postAfterWake) ∧
      ∀ a, .hub a ∈ as → a ∈ as' := by
  induction hrun with
  | nil => exact ⟨[], .nil, by simp⟩
  | @snoc as a p p' _ hstep ih =>
    obtain ⟨as', hnet, hfrom, hto⟩ := ih
    have hold : ∀ a' ∈ as', .hub a' ∈ as ++ [a] ∨ a' = .event .client .postAfterWake := by
      intro a' ha'
      exact (hfrom a' ha').imp_left (List.mem_append_left _)
    have hother : (∀ a', a ≠ .hub a') → ∀ a', .hub a' ∈ as ++ [a] → a' ∈ as' := by
      intro hne a' ha'
      rcases List.mem_append.mp ha' with h | h
      · exact hto a' h
      · exact absurd (List.mem_singleton.mp h).symm (hne a')
    rcases programStep_cases hstep with ⟨a', net', rfl, -, hnet', rfl⟩ |
      ⟨main', hne, -, rfl⟩ | ⟨net', hne, -, hnet', rfl⟩
    · refine ⟨as' ++ [a'], hnet.snoc hnet', ?_, ?_⟩
      · rw [List.forall_mem_append, List.forall_mem_singleton]
        exact ⟨hold, .inl (List.mem_append_right _ (List.mem_singleton_self _))⟩
      · intro a'' ha''
        rcases List.mem_append.mp ha'' with h | h
        · exact List.mem_append_left _ (hto a'' h)
        · cases List.mem_singleton.mp h
          exact List.mem_append_right _ (List.mem_singleton_self _)
    · exact ⟨as', hnet, hold, hother hne⟩
    · refine ⟨as' ++ [.event .client .postAfterWake], hnet.snoc hnet', ?_, ?_⟩
      · rw [List.forall_mem_append, List.forall_mem_singleton]
        exact ⟨hold, .inr rfl⟩
      · intro a'' ha''
        exact List.mem_append_left _ (hother hne a'' ha'')

end knows

/-! ## Section 3: What the exit code says -/

section exit
variable {b : WCharT} {kBurst : Nat} {s : State Side Event WakeHub Message}
  {as : List (Action Side Event)}

/-- All that is posted is posted by the client, where `main` calls nothing on the server. -/
theorem posted_eq (hpos : 0 < kBurst)
    (hrun : Run (step (wakeHubs b kBurst)) (wakeHubs b kBurst).init as s)
    (hserver : (s.seenBy .server).count .postAfterWake = 0) :
    s.posted.map Prod.snd = s.postedBy .client := by
  have hnone : s.postedBy .server = [] := by
    rw [(views (view_kept hpos) hrun .server).1, hserver]
    rfl
  unfold State.postedBy ofParty
  rw [List.filter_eq_self.mpr]
  rintro ⟨v, m⟩ hmem
  cases v with
  | client => rfl
  | server =>
    have hm : m ∈ s.postedBy .server := mem_ofParty.mpr hmem
    rw [hnone] at hm
    cases hm

/-- What arrives is for the server. -/
theorem reached_server (hpos : 0 < kBurst)
    (hrun : Run (step (wakeHubs b kBurst)) (wakeHubs b kBurst).init as s) :
    (wakeHubs b kBurst).reached s .server = s.delivered := by
  unfold Protocol.reached
  rw [List.filter_eq_self]
  intro m hm
  obtain ⟨v, hv⟩ := posted_of_delivered hrun hm
  have hview := views (view_kept hpos) hrun v
  have hdest : m = burstMessage b ∨ m = afterMessage b := by
    cases v with
    | server =>
      rw [hview.1] at hv
      exact .inr (List.eq_of_mem_replicate hv)
    | client =>
      rcases List.mem_append.mp (hview.2.mem_iff.mp hv) with h | h
      · split at h
        · exact .inl (List.eq_of_mem_replicate h)
        · cases h
      · exact .inr (List.eq_of_mem_replicate h)
  rcases hdest with rfl | rfl
  · exact decide_eq_true rfl
  · exact decide_eq_true rfl

/-- A message is of the burst or the last one, not both. -/
theorem countP_add_le (l : List Message) :
    l.countP (counts b) + l.countP (wakes b) ≤ l.length := by
  rw [List.length_eq_countP_add_countP (counts b) (l := l)]
  refine Nat.add_le_add_left (List.countP_mono_left ?_) _
  intro m _ hwakes
  unfold wakes at hwakes
  rw [Bool.and_eq_true] at hwakes
  simp [counts, hwakes.2]

/-- **An exit code of 0 means that nothing was lost**: over transports that do not double,
    every message of the burst and the last one have arrived, and the server has counted the
    burst. -/
theorem exit_zero_nothing_lost {as : List Act} {p : Program} (hpos : 0 < kBurst)
    (hrun : Run (programStep b kBurst) (program b kBurst) as p)
    (honce : ∀ a, .hub a ∈ as → a.doubles = false) (hexit : p.main = .exited 0) :
    p.net.flight = [] ∧ p.net.lost = [] ∧ (p.net.nodes .server).g_nReceived = kBurst := by
  obtain ⟨as', hnet, hfrom, -⟩ := net_run hrun
  obtain ⟨hcalls, hserver, hwaited⟩ := knows hrun
  rw [hexit] at hcalls hwaited
  obtain ⟨hburst, hafter⟩ := hwaited rfl
  have honce' : ∀ a ∈ as', a.doubles = false := by
    intro a ha
    rcases hfrom a ha with h | rfl
    · exact honce a h
    · rfl
  -- at most the burst and one message more was posted, and as many have arrived
  obtain ⟨-, hcount, hdone, hseen⟩ := views (view_kept hpos) hnet .server
  rw [reached_server hpos hnet] at hcount hdone hseen
  have hgot := hdone.mp hburst
  have hwoken := hseen.mp hafter
  have hdisjoint := countP_add_le (b := b) p.net.delivered
  have hposted := posted_eq hpos hnet hserver
  have hlength : (p.net.postedBy .client).length ≤ kBurst + 1 := by
    rw [(views (view_kept hpos) hnet .client).2.length_eq, List.length_append,
      List.length_replicate]
    refine Nat.add_le_add ?_ hcalls
    split
    · rw [postBurst, List.length_replicate]
    · exact Nat.zero_le _
  have hle := delivered_le_posted hnet honce'
  have hall : (p.net.delivered : Multiset Message) = p.net.posted.map Prod.snd := by
    refine Multiset.eq_of_le_of_card_le hle ?_
    rw [Multiset.coe_card, Multiset.coe_card, hposted]
    omega
  have hconserved : _ = _ := conserved hnet
  rw [doubled_eq_nil hnet honce', ← hall] at hconserved
  have hcard := congrArg Multiset.card hconserved
  simp only [Multiset.card_add, Multiset.coe_card, List.length_nil] at hcard
  have hdelivered := congrArg Multiset.card hall
  rw [Multiset.coe_card, Multiset.coe_card, hposted] at hdelivered
  refine ⟨List.length_eq_zero_iff.mp (by omega), List.length_eq_zero_iff.mp (by omega), ?_⟩
  rw [hcount]
  omega

/-- **No wait of `main` times out** where nothing is lost, once the client's login was
    acknowledged and nothing is in flight. -/
theorem no_wait_times_out {as : List Act} {p : Program} (hpos : 0 < kBurst)
    (hrun : Run (programStep b kBurst) (program b kBurst) as p)
    (hkept : ∀ a, .hub a ∈ as → a.loses = false) (hquiet : p.net.flight = [])
    (hacked : .hub (.event .client .onConLoginAck) ∈ as) :
    programStep b kBurst p (.wait true) = none := by
  obtain ⟨as', hnet, hfrom, hto⟩ := net_run hrun
  obtain ⟨hcalls, hserver, -⟩ := knows hrun
  have hkept' : ∀ a ∈ as', a.loses = false := by
    intro a ha
    rcases hfrom a ha with h | rfl
    · exact hkept a h
    · rfl
  obtain ⟨hsent, hout⟩ := views (view_kept hpos) hnet .client
  have hbSent := hsent.mpr (mem_seenBy hnet (hto _ hacked))
  rw [if_pos hbSent] at hout
  obtain ⟨-, -, hdone, hseen⟩ := views (view_kept hpos) hnet .server
  rw [reached_server hpos hnet] at hdone hseen
  have hle := posted_le_delivered hnet hkept' hquiet
  rw [posted_eq hpos hnet hserver] at hle
  have hcountP : ∀ q : Message → Bool,
      (p.net.postedBy .client).countP q ≤ p.net.delivered.countP q := by
    intro q
    have h := Multiset.countP_le_of_le (fun m => q m = true) hle
    simpa only [Multiset.coe_countP, Bool.decide_eq_true] using h
  have hburst : (p.net.nodes .server).bBurstDone = true := by
    rw [hdone]
    refine le_trans ?_ (hcountP (counts b))
    have hcounts : counts b (burstMessage b) = true := by
      obtain ⟨htag, hlength⟩ := hasTag_burst (b := b)
      simp [counts, htag, hlength]
    rw [hout.countP_eq, List.countP_append, postBurst, List.countP_replicate, if_pos hcounts]
    exact Nat.le_add_right _ _
  have hsignalled : ∀ main', afterWait true p.main = some main' → signalled p = true := by
    intro main' hwait
    obtain ⟨net, main⟩ := p
    cases main with
    | waitPosted => exact hbSent
    | waitBurst => exact hburst
    | waitAfter =>
      show (net.nodes .server).bAfterSeen = true
      rw [hseen]
      refine Nat.lt_of_lt_of_le ?_ (hcountP (wakes b))
      have hone : (net.seenBy .client).count .postAfterWake = 1 := hcalls
      have hwakes : wakes b (afterMessage b) = true := by
        obtain ⟨htag, hlength⟩ := hasTag_after (b := b)
        simp [wakes, htag, hlength]
      rw [hout.countP_eq, List.countP_append, hone, List.countP_replicate, if_pos hwakes]
      exact Nat.lt_add_left _ Nat.zero_lt_one
    | identify => cases hwait
    | check nExit => cases hwait
    | exited nExit => cases hwait
  simp only [programStep]
  split
  · rfl
  · next hnot =>
    rw [Option.map_eq_none_iff]
    by_contra hsome
    obtain ⟨main', hmain'⟩ := Option.ne_none_iff_exists'.mp hsome
    exact hnot (hsignalled main' hmain')

end exit

/-- The run as it is meant, with a burst of one: until it has arrived, and to its end. -/
def burstRun : List Act :=
  [.hub (.event .client .onConLoginAck), .wait false, .identify true, .hub (.deliver 0)]

def wakeRun : List Act := burstRun ++ [.wait false, .check true, .hub (.deliver 0), .wait false]

theorem exit_zero_nothing_lost_one :
    ∃ p, Run (programStep .two 1) (program .two 1) wakeRun p ∧ p.net.lost = [] := by
  have hexec : (exec (programStep .two 1) (program .two 1) wakeRun).map (·.main) =
      some (.exited 0) := by
    decide +kernel
  obtain ⟨p, hp, hexit⟩ := Option.map_eq_some_iff.mp hexec
  have hrun := run_of_exec hp
  have honce : ∀ a, .hub a ∈ wakeRun → a.doubles = false := by
    simp [wakeRun, burstRun, Action.doubles]
  exact ⟨p, hrun, (exit_zero_nothing_lost Nat.one_pos hrun honce hexit).2.1⟩

theorem no_wait_times_out_burst :
    ∃ p, Run (programStep .two 1) (program .two 1) burstRun p ∧ p.main = .waitBurst ∧
      programStep .two 1 p (.wait true) = none := by
  have hexec : (exec (programStep .two 1) (program .two 1) burstRun).map
      (fun p => (p.net.flight, p.main)) = some ([], .waitBurst) := by
    decide +kernel
  obtain ⟨p, hp, hfields⟩ := Option.map_eq_some_iff.mp hexec
  obtain ⟨hquiet, hmain⟩ := Prod.mk.inj hfields
  have hrun := run_of_exec hp
  have hkept : ∀ a, .hub a ∈ burstRun → a.loses = false := by simp [burstRun, Action.loses]
  have hacked : .hub (.event .client .onConLoginAck) ∈ burstRun := by simp [burstRun]
  exact ⟨p, hrun, hmain, no_wait_times_out Nat.one_pos hrun hkept hquiet hacked⟩

end HubWake
