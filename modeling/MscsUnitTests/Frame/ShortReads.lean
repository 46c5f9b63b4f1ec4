import MscsUnitTests.Frame.Bounds

/-! # The Framing Harness: Short Reads

    The same wire, delivered whole and delivered in short reads. A framing parser
    asks for the missing rest of the header or of the declared frame and does
    nothing else until it has it, so the two drives end alike.

    The turns of the two drives do not line up: one whole completion stands against any
    number of short ones. The simulation relates the short-read drive to a whole drive
    that is either level with it or one completion ahead (`Matches`).
-/

open ByteMem FuzzRng BoundedLoop

namespace FuzzFrame

/-! ## Section 1: Framing parsers -/

/-- A parser of the documented shape. As long as the record lacks a rest of the
    header or of the declared frame, a call asks for it and leaves everything as it
    is; any other call may do what it likes with what it has. -/
structure FramingParser (σ : Type) extends Parser σ where
  fresh_eq : ∀ s s', fresh s = fresh s'
  asks_rest : ∀ s oOv dst nWant, request oOv = some (dst, nWant) →
    ∃ lpszModule nAsserts, isRecvRequest lpszModule = true ∧
      recvP2PeerMsg s oOv = ⟨.event lpszModule, nAsserts, s, oOv⟩

/-- An answer that ends the drive. -/
def Turn.Final : Turn → Prop
  | .event lpszModule => isRecvRequest lpszModule = false
  | .msg => False
  | _ => True

/-- What stage 2 makes of a header. -/
inductive HeaderStep (σ : Type) where
  | giveUp (t : Turn) (h : t.Final)
  /-- Re-synchronisation: drop one byte and fetch another. -/
  | slide (s : σ)
  /-- Allocate the frame and fetch the rest of it. -/
  | body (s : σ)

/-- What stage 4 makes of a frame. -/
inductive FrameStep (σ : Type) where
  | giveUp (t : Turn) (h : t.Final)
  /-- A message, and the record the next frame starts from. -/
  | msg (s : σ) (oOv : Overlapped)

/-- The decisions of a parser by stages, as functions of the bytes it has
    accumulated (`σ` is what it remembers of earlier ones). The second component
    counts ASSERTs. `raw` is what an allocation happens to hold. -/
structure Stages (σ : Type) where
  init : σ
  raw : Mem
  onHeader : σ → List UInt8 → HeaderStep σ × Nat
  onFrame : σ → List UInt8 → List UInt8 → FrameStep σ × Nat

section stages
variable {σ : Type} (d : Stages σ)

/-- Stages 3 and 4: the body of the frame that `pHdr` declares. -/
def Stages.body (s : σ) (nAsserts : Nat) (oOv : Overlapped) (pHdr pBody : Mem) : Reply σ :=
  if oOv.dwBytes < declaredOf pHdr then ⟨.event (some szRecv), nAsserts, s, oOv⟩
  else
    match d.onFrame s (firstBytes pHdr syncSizeof) (firstBytes pBody oOv.dwBytes) with
    | (.giveUp t _, k) => ⟨t, nAsserts + k, s, oOv⟩
    | (.msg s' oOv', k) => ⟨.msg, nAsserts + k, s', oOv'⟩

/-- One call, from the stage the record is in. -/
def Stages.recv (s : σ) (oOv : Overlapped) : Reply σ :=
  match oOv.pUserDB1 with
  | none => ⟨.event (some szRecv), 0, s, ⟨0, some d.raw, none⟩⟩
  | some pHdr =>
    if oOv.dwBytes < syncSizeof then ⟨.event (some szRecv), 0, s, oOv⟩
    else
      match oOv.pUserDB2 with
      | some pBody => d.body s 0 oOv pHdr pBody
      | none =>
        match d.onHeader s (firstBytes pHdr syncSizeof) with
        | (.giveUp t _, k) => ⟨t, k, s, oOv⟩
        | (.slide s', k) => ⟨.event (some szRecv), k, s', { oOv with
            pUserDB1 := some (copyInto pHdr 0 pHdr 1 (syncSizeof - 1))
            dwBytes := syncSizeof - 1 }⟩
        | (.body s', k) =>
          -- only the eight header bytes are copied into the new frame
          let pBody := copyInto d.raw 0 pHdr 0 syncSizeof
          d.body s' k { oOv with pUserDB2 := some pBody } pHdr pBody

/-- The decisions at each stage make a framing parser. -/
def Stages.parser : FramingParser σ where
  fresh _ := d.init
  recvP2PeerMsg := d.recv
  fresh_eq _ _ := rfl
  asks_rest := by
    intro s oOv dst nWant hreq
    refine ⟨some szRecv, 0, by decide, ?_⟩
    unfold request at hreq
    unfold Stages.recv
    split at hreq
    · next hhdr =>
      split at hreq
      · cases hreq
      · next m hm =>
        simp only [hm, if_pos hhdr]
    · next hhdr =>
      split at hreq
      · next pHdr pBody h₁ h₂ =>
        split at hreq
        · cases hreq
        · next hrest =>
          simp only [h₁, h₂, if_neg hhdr, Stages.body, if_pos (Nat.lt_of_not_le hrest)]
      · cases hreq

end stages

/-! ## Section 2: A completion in parts -/

theorem receive_receive (pOv : Overlapped) (dst : Dst) (src : Mem) (s a b : Nat) :
    (pOv.receive dst src s a).receive dst src (s + a) b = pOv.receive dst src s (a + b) := by
  cases dst with
  | db1 =>
    simp only [Overlapped.receive, Option.map_map, Nat.add_assoc]
    congr 2
    funext m
    exact copyInto_copyInto m src pOv.dwBytes s a b
  | db2 =>
    simp only [Overlapped.receive, Option.map_map, Nat.add_assoc]
    congr 2
    funext m
    exact copyInto_copyInto m src pOv.dwBytes s a b

/-- After a part of a completion the record asks for the rest of it. -/
theorem request_receive {pOv : Overlapped} {dst : Dst} {nWant n : Nat} (src : Mem) (s : Nat)
    (h : request pOv = some (dst, nWant)) (hn : n < nWant) :
    request (pOv.receive dst src s n) = some (dst, nWant - n) := by
  unfold request at h
  split at h
  · next hhdr =>
    split at h
    · cases h
    · next m hm =>
      cases h
      have hlt : pOv.dwBytes + n < syncSizeof := by omega
      simp only [request, Overlapped.receive, hm, Option.map_some, if_pos hlt]
      congr 2
      omega
  · next hhdr =>
    split at h
    · next pHdr pBody h₁ h₂ =>
      split at h
      · cases h
      · next hrest =>
        cases h
        -- the frame is written behind the header, which declares what it declared
        have hge : ¬ pOv.dwBytes + n < syncSizeof := by omega
        have hmore : ¬ declaredOf pHdr ≤ pOv.dwBytes + n := by omega
        simp only [request, Overlapped.receive, h₁, h₂, Option.map_some, if_neg hge, if_neg hmore]
        congr 2
        omega
    · cases h

/-! ## Section 3: The simulation -/

section simulation
variable {σ : Type} {oWire : Wire} {p : FramingParser σ} {S S' W W' : DriveState σ}

/-- Two drives have come to the same point. -/
structure Level (S W : DriveState σ) : Prop where
  io : W.io = S.io
  oOv : W.oOv = S.oOv
  nFed : W.nFed = S.nFed
  nMsgs : W.nMsgs = S.nMsgs

/-- The second drive has had the whole completion that the first one's record still
    asks for. -/
structure Ahead (oWire : Wire) (S W : DriveState σ) (dst : Dst) (nWant : Nat) : Prop where
  asked : request S.oOv = some (dst, nWant)
  left : u32Sub oWire.n S.nFed ≠ 0
  io : W.io = S.io
  oOv : W.oOv = S.oOv.receive dst oWire.b S.nFed (min nWant (u32Sub oWire.n S.nFed))
  nFed : W.nFed = S.nFed + min nWant (u32Sub oWire.n S.nFed)
  nMsgs : W.nMsgs = S.nMsgs

/-- The simulation relation. -/
def Matches (oWire : Wire) (S W : DriveState σ) : Prop :=
  Level S W ∨ ∃ dst nWant, Ahead oWire S W dst nWant

/-- The turn counters play no part in it. -/
theorem Matches.setTurns (h : Matches oWire S W) (a b : Nat) :
    Matches oWire { S with nTurn := a } { W with nTurn := b } := by
  rcases h with hl | ⟨dst, nWant, ha⟩
  · exact Or.inl ⟨hl.io, hl.oOv, hl.nFed, hl.nMsgs⟩
  · exact Or.inr ⟨dst, nWant, ha.asked, ha.left, ha.io, ha.oOv, ha.nFed, ha.nMsgs⟩

/-- Two drives that ended alike. -/
def SameEnd (q q' : Outcome × DriveState σ) : Prop :=
  q'.1 = q.1 ∧ q'.2.nMsgs = q.2.nMsgs ∧ q'.2.nFed = q.2.nFed

/-- A whole completion gets ahead of a drive that stood level. -/
theorem whole_ahead (h : Level S W) (hd : deliver oWire false W = some W') :
    ∃ dst nWant, Ahead oWire S W' dst nWant := by
  obtain ⟨dst, nWant, n, hreq, hleft, hn, rfl⟩ := deliver_eq_some hd
  have hall : n.1 = min nWant (u32Sub oWire.n S.nFed) := by
    rw [hn, h.nFed]
    simp [takeLen]
  refine ⟨dst, nWant, ?_, ?_, h.io, ?_, ?_, h.nMsgs⟩
  · rw [← h.oOv]
    exact hreq
  · rw [← h.nFed]
    exact hleft
  · dsimp only
    rw [hall, h.oOv, h.nFed]
  · dsimp only
    rw [hall, h.nFed]

/-- A short completion brings the first drive level, or leaves it behind by the rest
    of the same completion. -/
theorem short_matches {dst : Dst} {nWant : Nat} (h : Ahead oWire S W dst nWant)
    (hd : deliver oWire true S = some S') : Matches oWire S' W := by
  obtain ⟨dst', nWant', n, hreq, hleft, hn, rfl⟩ := deliver_eq_some hd
  rw [h.asked] at hreq
  cases hreq
  have hle : n.1 ≤ min nWant (u32Sub oWire.n S.nFed) := by
    rw [hn]
    exact takeLen_le _ _ _
  rcases Nat.lt_or_eq_of_le hle with hlt | heq
  · -- a rest of the completion is still to come
    have hmore : u32Sub oWire.n (S.nFed + n.1) = u32Sub oWire.n S.nFed - n.1 :=
      u32Sub_add (by omega)
    have hrest : n.1 + min (nWant - n.1) (u32Sub oWire.n (S.nFed + n.1))
        = min nWant (u32Sub oWire.n S.nFed) := by
      rw [hmore]
      omega
    refine Or.inr ⟨dst, nWant - n.1, ?_, ?_, h.io, ?_, ?_, h.nMsgs⟩
    · exact request_receive oWire.b S.nFed h.asked (by omega)
    · dsimp only
      rw [hmore]
      omega
    · dsimp only
      rw [receive_receive, hrest]
      exact h.oOv
    · dsimp only
      rw [Nat.add_assoc, hrest]
      exact h.nFed
  · refine Or.inl ⟨h.io, ?_, ?_, h.nMsgs⟩
    · dsimp only
      rw [heq]
      exact h.oOv
    · dsimp only
      rw [heq]
      exact h.nFed

/-- A drive that is behind takes a turn alone. -/
theorem turn_behind {dst : Dst} {nWant : Nat} (h : Ahead oWire S W dst nWant) :
    ∃ S', driveTurn p.toParser oWire true S = .again S' ∧ Matches oWire S' W := by
  obtain ⟨m, k, hm, hcall⟩ := p.asks_rest S.io S.oOv dst nWant h.asked
  have hio : (afterCall p.toParser S).io = S.io := by
    unfold afterCall
    rw [hcall]
  have hov : (afterCall p.toParser S).oOv = S.oOv := by
    unfold afterCall
    rw [hcall]
  have hahead : Ahead oWire (afterCall p.toParser S) W dst nWant := by
    refine ⟨?_, h.left, ?_, ?_, h.nFed, h.nMsgs⟩
    · rw [hov]
      exact h.asked
    · rw [hio]
      exact h.io
    · rw [hov]
      exact h.oOv
  cases hd : deliver oWire true (afterCall p.toParser S) with
  | none =>
    rcases (deliver_none_iff _).mp hd with hno | hno
    · rw [hahead.asked] at hno
      cases hno
    · exact absurd hno hahead.left
  | some S₁ =>
    have hmatch := short_matches hahead hd
    refine ⟨{ S₁ with nTurn := S₁.nTurn + 1 }, ?_, hmatch.setTurns _ _⟩
    unfold driveTurn
    rw [hcall]
    simp only [onTurn, hm, if_true, hd]

/-- Two drives that stand level take a turn together. -/
theorem onTurn_level (t : Turn) (h : Level S W) :
    (∃ S' W', onTurn oWire true S t = .again S' ∧ onTurn oWire false W t = .again W' ∧
      Matches oWire S' W') ∨
    (∃ q q', onTurn oWire true S t = .stop q ∧ onTurn oWire false W t = .stop q' ∧
      SameEnd q q') := by
  cases t with
  | event m =>
    cases hm : isRecvRequest m with
    | false =>
      refine Or.inr ⟨(.refused, S), (.refused, W), ?_, ?_, rfl, h.nMsgs, h.nFed⟩
      · simp [onTurn, hm]
      · simp [onTurn, hm]
    | true =>
      cases hW : deliver oWire false W with
      | none =>
        have hS : deliver oWire true S = none := by
          rw [deliver_none_iff, ← h.oOv, ← h.nFed]
          exact (deliver_none_iff W).mp hW
        refine Or.inr ⟨(.starved, S), (.starved, W), ?_, ?_, rfl, h.nMsgs, h.nFed⟩
        · simp [onTurn, hm, hS]
        · simp [onTurn, hm, hW]
      | some W₁ =>
        obtain ⟨dst, nWant, hahead⟩ := whole_ahead h hW
        cases hS : deliver oWire true S with
        | none =>
          rcases (deliver_none_iff _).mp hS with hno | hno
          · rw [hahead.asked] at hno
            cases hno
          · exact absurd hno hahead.left
        | some S₁ =>
          have hmatch := short_matches hahead hS
          refine Or.inl ⟨{ S₁ with nTurn := S₁.nTurn + 1 }, { W₁ with nTurn := W₁.nTurn + 1 },
            ?_, ?_, hmatch.setTurns _ _⟩
          · simp only [onTurn, hm, if_true, hS]
          · simp only [onTurn, hm, if_true, hW]
  | assertTrap => exact Or.inr ⟨_, _, rfl, rfl, rfl, h.nMsgs, h.nFed⟩
  | other => exact Or.inr ⟨_, _, rfl, rfl, rfl, h.nMsgs, h.nFed⟩
  | msg =>
    by_cases hend : S.nFed ≥ oWire.n
    · have hend' : W.nFed ≥ oWire.n := by
        rw [h.nFed]
        exact hend
      refine Or.inr ⟨(.msg, { S with nMsgs := S.nMsgs + 1 }), (.msg, { W with nMsgs := W.nMsgs + 1 }),
        ?_, ?_, rfl, ?_, h.nFed⟩
      · simp only [onTurn, if_pos hend]
      · simp only [onTurn, if_pos hend']
      · exact congrArg (· + 1) h.nMsgs
    · have hend' : ¬ W.nFed ≥ oWire.n := by
        rw [h.nFed]
        exact hend
      refine Or.inl ⟨{ S with nMsgs := S.nMsgs + 1, nTurn := S.nTurn + 1 },
        { W with nMsgs := W.nMsgs + 1, nTurn := W.nTurn + 1 }, ?_, ?_, ?_⟩
      · simp only [onTurn, if_neg hend]
      · simp only [onTurn, if_neg hend']
      · exact Or.inl ⟨h.io, h.oOv, h.nFed, congrArg (· + 1) h.nMsgs⟩
  | null => exact Or.inr ⟨_, _, rfl, rfl, rfl, h.nMsgs, h.nFed⟩

/-- Two drives that stand level call the parser with the same state and record. -/
theorem afterCall_level (h : Level S W) :
    Level (afterCall p.toParser S) (afterCall p.toParser W) ∧
    (p.recvP2PeerMsg W.io W.oOv).turn = (p.recvP2PeerMsg S.io S.oOv).turn := by
  unfold afterCall
  rw [h.io, h.oOv]
  exact ⟨⟨rfl, rfl, h.nFed, h.nMsgs⟩, rfl⟩

/-- **Run lemma**: two loops that were both left were left alike. -/
theorem run_sameEnd {io io' : σ} {oRng oRng' : Rng} {q q' : Outcome × DriveState σ}
    (hsplit : run (driveTurn p.toParser oWire true) kMaxTurns (.start (p.fresh io) oRng) = .broke q)
    (hwhole : run (driveTurn p.toParser oWire false) kMaxTurns (.start (p.fresh io') oRng')
      = .broke q') : SameEnd q q' := by
  have hturn : ∀ S W : DriveState σ, Matches oWire S W →
      (∃ S', driveTurn p.toParser oWire true S = .again S' ∧ Matches oWire S' W) ∨
      (∃ S' W', driveTurn p.toParser oWire true S = .again S' ∧
        driveTurn p.toParser oWire false W = .again W' ∧ Matches oWire S' W') ∨
      (∃ q q', driveTurn p.toParser oWire true S = .stop q ∧
        driveTurn p.toParser oWire false W = .stop q' ∧ SameEnd q q') := by
    intro S W hmatch
    rcases hmatch with hlevel | ⟨dst, nWant, hahead⟩
    · obtain ⟨hcall, ht⟩ := afterCall_level (p := p) hlevel
      unfold driveTurn
      rw [ht]
      exact Or.inr (onTurn_level _ hcall)
    · exact Or.inl (turn_behind hahead)
  have hstart : Matches oWire (DriveState.start (p.fresh io) oRng)
      (DriveState.start (p.fresh io') oRng') :=
    Or.inl ⟨p.fresh_eq io' io, rfl, rfl, rfl⟩
  exact run_stutter hturn kMaxTurns kMaxTurns _ _ hstart hsplit hwhole

/-- A drive that did not use up its budget has left the loop. -/
theorem drive_broke {bSplit : Bool} {p : Parser σ} {io : σ} {oRng : Rng}
    (h : (drive p io oWire oRng bSplit).oRes.eOutcome ≠ .budget) :
    ∃ q, run (driveTurn p oWire bSplit) kMaxTurns (.start (p.fresh io) oRng) = .broke q ∧
      drive p io oWire oRng bSplit = q.2.report q.1 := by
  unfold drive at h ⊢
  cases hexit : run (driveTurn p oWire bSplit) kMaxTurns (.start (p.fresh io) oRng) with
  | spent st =>
    rw [hexit] at h
    exact absurd rfl h
  | broke q => exact ⟨q, rfl, rfl⟩

/-- **Short reads do not change the result**: a drive in short reads and a whole
    drive of the same wire that both end by themselves end alike. -/
theorem short_reads_agree (p : FramingParser σ) (io io' : σ) (oWire : Wire) (oRng oRng' : Rng)
    (hsplit : (drive p.toParser io oWire oRng true).oRes.eOutcome ≠ .budget)
    (hwhole : (drive p.toParser io' oWire oRng' false).oRes.eOutcome ≠ .budget) :
    (drive p.toParser io oWire oRng true).oRes.eOutcome =
      (drive p.toParser io' oWire oRng' false).oRes.eOutcome ∧
    (drive p.toParser io oWire oRng true).oRes.nMsgs =
      (drive p.toParser io' oWire oRng' false).oRes.nMsgs ∧
    (drive p.toParser io oWire oRng true).oRes.nFed =
      (drive p.toParser io' oWire oRng' false).oRes.nFed := by
  obtain ⟨q, hq, hdrive⟩ := drive_broke hsplit
  obtain ⟨q', hq', hdrive'⟩ := drive_broke hwhole
  obtain ⟨he, hm, hf⟩ := run_sameEnd hq hq'
  rw [hdrive, hdrive']
  exact ⟨he.symm, hm.symm, hf.symm⟩

end simulation

/-- A parser that slides to a header whose words match, takes any frame behind it,
    and remembers how many it has had. -/
def takeAll : Stages Nat where
  init := 0
  raw _ := 0
  onHeader n pHdr := if Complementary (ofBytes pHdr) then (.body n, 0) else (.slide n, 0)
  onFrame n _ _ := (.msg (n + 1) .zero, 0)

/-- A frame of twelve bytes. -/
def twelve : Wire :=
  stampSync nativeSync ⟨fun i => UInt8.ofNat i, 12⟩ 12 vblockAddr32

theorem twelve_agrees :
    (drive takeAll.parser.toParser 0 twelve (Rng.seed 0xA5A5A5A5A5A5) true).oRes.nTurns ≠
      (drive takeAll.parser.toParser 0 twelve (Rng.seed 8) false).oRes.nTurns ∧
    (drive takeAll.parser.toParser 0 twelve (Rng.seed 0xA5A5A5A5A5A5) true).oRes.eOutcome =
      (drive takeAll.parser.toParser 0 twelve (Rng.seed 8) false).oRes.eOutcome ∧
    (drive takeAll.parser.toParser 0 twelve (Rng.seed 0xA5A5A5A5A5A5) true).oRes.nMsgs =
      (drive takeAll.parser.toParser 0 twelve (Rng.seed 8) false).oRes.nMsgs ∧
    (drive takeAll.parser.toParser 0 twelve (Rng.seed 0xA5A5A5A5A5A5) true).oRes.nFed =
      (drive takeAll.parser.toParser 0 twelve (Rng.seed 8) false).oRes.nFed :=
  ⟨by decide +kernel, short_reads_agree takeAll.parser 0 0 twelve (Rng.seed 0xA5A5A5A5A5A5) (Rng.seed 8)
    (by decide +kernel) (by decide +kernel)⟩

/-- **The split seed vectors**: what is said of `split_reads` and `big_split`, that they
    end as the same frame sent whole, holds of every parser of the documented shape. -/
theorem split_seeds_agree {sync : VBLockSync} {oBase oBig : Wire} {g : CaseTable}
    (hg : buildCorpus sync oBase oBig = some g) (B : Build Unit) (p : FramingParser Unit)
    (hp : B.parser = p.toParser) (nSeed : BitVec 32) (c c' : Fin kCases)
    (hpair : (c, c') = (10, 0) ∨ (c, c') = (15, 14))
    (hsplit : (seedDrive B g nSeed c).eOutcome ≠ .budget)
    (hwhole : (seedDrive B g nSeed c').eOutcome ≠ .budget) :
    (seedDrive B g nSeed c).eOutcome = (seedDrive B g nSeed c').eOutcome ∧
    (seedDrive B g nSeed c).nMsgs = (seedDrive B g nSeed c').nMsgs := by
  have hslot := buildCorpus_slot hg
  -- both slots hold the same frame, the first to be split and the second whole
  have hwire : (g.slot c).oWire = (g.slot c').oWire ∧ (g.slot c).bSplit = true ∧
      (g.slot c').bSplit = false := by
    rcases hpair with heq | heq
    · obtain ⟨rfl, rfl⟩ := Prod.mk.inj heq
      rw [hslot 10, hslot 0]
      exact ⟨rfl, rfl, rfl⟩
    · obtain ⟨rfl, rfl⟩ := Prod.mk.inj heq
      rw [hslot 15, hslot 14]
      exact ⟨rfl, rfl, rfl⟩
  obtain ⟨hw, hs, hs'⟩ := hwire
  unfold seedDrive at hsplit hwhole ⊢
  rw [hp, hw, hs] at hsplit
  rw [hp, hs'] at hwhole
  rw [hp, hw, hs, hs']
  obtain ⟨q, hq, hdrive⟩ := drive_broke hsplit
  obtain ⟨q', hq', hdrive'⟩ := drive_broke hwhole
  obtain ⟨he, hm, _⟩ := run_sameEnd hq hq'
  rw [hdrive, hdrive']
  exact ⟨he.symm, hm.symm⟩

end FuzzFrame
