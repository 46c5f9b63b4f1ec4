import MscsUnitTests.Frame.Trace

/-! # The Framing Harness: Which Size Bounds the Seed Vectors Pin

    A parser that does what the harness documents of `RecvP2PeerMsg`, with its two
    size bounds left open, and what the seed vectors that are about the bounds
    make of it.
-/

open ByteMem FuzzRng BoundedLoop CFiles

namespace FuzzFrame

/-! ## Section 1: The documented parser -/

/-- The request for more bytes. -/
def askMore (oOv : Overlapped) : Reply Unit :=
  ⟨.event (some szRecv), 0, (), oOv⟩

/-- A refusal, thrown by the parser under its own name. -/
def refuse (oOv : Overlapped) : Reply Unit :=
  ⟨.event (some "P2Peerio::RecvP2PeerMsg".toList), 0, (), oOv⟩

/-- Stages 3 and 4: fetch the body, then hand the message over and start afresh. -/
def bodyStage (oOv : Overlapped) (pHdr : Mem) : Reply Unit :=
  if declaredOf pHdr ≤ oOv.dwBytes then ⟨.msg, 0, (), .zero⟩ else askMore oOv

/-- Stages 0 to 2: fetch the header, check it, size the body. Headers whose words
    do not match are slid over byte by byte. -/
def framingRecv (nMin nMax : Nat) (oOv : Overlapped) : Reply Unit :=
  match oOv.pUserDB1 with
  | none => askMore { oOv with pUserDB1 := some fun _ => 0 }
  | some pHdr =>
    if oOv.dwBytes < syncSizeof then askMore oOv
    else
      match oOv.pUserDB2 with
      | some _ => bodyStage oOv pHdr
      | none =>
        if Complementary pHdr then
          if declaredOf pHdr > nMax then refuse oOv
          else if declaredOf pHdr < nMin then refuse oOv
          else bodyStage { oOv with pUserDB2 := some pHdr } pHdr
        else askMore { oOv with
          pUserDB1 := some (copyInto pHdr 0 pHdr 1 (syncSizeof - 1))
          dwBytes := syncSizeof - 1 }

/-- The parser with the bounds `nMin` and `nMax` on the declared size. -/
def framing (nMin nMax : Nat) : Parser Unit where
  fresh := id
  recvP2PeerMsg _ oOv := framingRecv nMin nMax oOv

/-! ## Section 2: What it makes of a wire -/

section drives
variable {nMin nMax : Nat} {w : Wire}

/-- The header buffer after eight bytes of the wire. -/
def hdrOf (w : Wire) : Mem :=
  copyInto (fun _ => 0) 0 w.b 0 syncSizeof

theorem declaredOf_hdrOf (w : Wire) : declaredOf (hdrOf w) = declaredOf w.b := by
  apply declaredOf_congr
  intro i hi
  unfold hdrOf syncSizeof
  rw [copyInto_inside _ _ _ _ _ _ (by omega) (by omega)]
  congr 1
  omega

theorem complementary_hdrOf (w : Wire) : Complementary (hdrOf w) ↔ Complementary w.b := by
  apply complementary_congr
  intro i hi
  unfold hdrOf syncSizeof
  rw [copyInto_inside _ _ _ _ _ _ (by omega) (by omega)]
  congr 1
  omega

/-- A request is answered with all there is, up to what was asked for. -/
theorem onTurn_ask {st : DriveState Unit} {dst : Dst} {nWant : Nat} (hw : w.n < 2 ^ 32)
    (hreq : request st.oOv = some (dst, nWant)) (hleft : st.nFed < w.n) :
    ∃ st', onTurn w false st (.event (some szRecv)) = .again st' ∧
      st'.oOv = st.oOv.receive dst w.b st.nFed (min nWant (w.n - st.nFed)) ∧
      st'.nFed = st.nFed + min nWant (w.n - st.nFed) ∧ st'.nMsgs = st.nMsgs := by
  have hrecv : isRecvRequest (some szRecv) = true := by decide
  have hsub : u32Sub w.n st.nFed = w.n - st.nFed := u32Sub_of_le hw (by omega)
  cases hd : deliver w false st with
  | none =>
    rcases (deliver_none_iff st).mp hd with h | h
    · rw [hreq] at h
      cases h
    · omega
  | some st₁ =>
    obtain ⟨dst', nWant', n, hreq', -, hn, rfl⟩ := deliver_eq_some hd
    have hlen : n.1 = min nWant' (w.n - st.nFed) := by
      rw [hn, hsub]
      rfl
    obtain ⟨rfl, rfl⟩ := Prod.mk.inj (Option.some.inj (hreq.symm.trans hreq'))
    simp only [onTurn, hrecv, if_true, hd]
    exact ⟨_, rfl, by rw [← hlen], by rw [← hlen], rfl⟩

/-- With nothing left to send, a request starves. -/
theorem onTurn_starve (st : DriveState Unit) (hleft : st.nFed = w.n) (hw : w.n < 2 ^ 32) :
    onTurn w false st (.event (some szRecv)) = .stop (.starved, st) := by
  have hrecv : isRecvRequest (some szRecv) = true := by decide
  have hd : deliver w false st = none := by
    rw [deliver_none_iff, hleft, u32Sub_of_le hw (Nat.le_refl _)]
    exact Or.inr (Nat.sub_self _)
  simp only [onTurn, hrecv, if_true, hd]

/-- The first turn fetches the header. -/
theorem framing_header (nMin nMax : Nat) (oRng : Rng) (hn : syncSizeof ≤ w.n) (hw : w.n < 2 ^ 32) :
    ∃ st, driveTurn (framing nMin nMax) w false (.start () oRng) = .again st ∧
      st.oOv = ⟨syncSizeof, some (hdrOf w), none⟩ ∧ st.nFed = syncSizeof ∧ st.nMsgs = 0 := by
  let st₀ : DriveState Unit := afterCall (framing nMin nMax) (.start () oRng)
  have hfed : st₀.nFed = 0 := rfl
  have hreq : request st₀.oOv = some (.db1, syncSizeof) := rfl
  have hmin : min syncSizeof (w.n - st₀.nFed) = syncSizeof := by
    rw [hfed]
    omega
  obtain ⟨st, hturn, hov, hnFed, hmsgs⟩ := onTurn_ask hw hreq (by
    rw [hfed]
    unfold syncSizeof at hn
    omega)
  refine ⟨st, hturn, ?_, ?_, hmsgs⟩
  · rw [hov, hmin, hfed]
    rfl
  · rw [hnFed, hmin, hfed]
    rfl

/-- What a drive reports, as far as the expectations ask. -/
def Ends (r : DriveResult) (e : Outcome) (nMsgs : Nat) : Prop :=
  r.eOutcome = e ∧ r.nMsgs = nMsgs

/-- A loop that stops with an outcome ends with it. -/
theorem ends_of_stop {p : Parser Unit} {n : Nat} {st st' : DriveState Unit} {e : Outcome}
    (h : driveTurn p w false st = .stop (e, st')) :
    Ends (reportExit (run (driveTurn p w false) (n + 1) st)).oRes e st'.nMsgs := by
  rw [run_stop n h]
  exact ⟨rfl, rfl⟩

/-- The size is refused at stage 2. -/
def OutOfBounds (nMin nMax n : Nat) : Prop :=
  nMax < n ∨ n < nMin

/-- A header that declares a size out of bounds is refused. -/
theorem framing_refuses (oRng : Rng) (hn : syncSizeof ≤ w.n) (hw : w.n < 2 ^ 32)
    (hsync : Complementary w.b) (hbad : OutOfBounds nMin nMax (declaredOf w.b)) :
    Ends (drive (framing nMin nMax) () w oRng false).oRes .refused 0 := by
  obtain ⟨st, hturn, hov, -, hmsgs⟩ := framing_header nMin nMax oRng hn hw
  have hrecv : framingRecv nMin nMax st.oOv = refuse st.oOv := by
    rw [hov]
    unfold framingRecv
    simp only [Nat.lt_irrefl, if_false, declaredOf_hdrOf, complementary_hdrOf, hsync, if_true]
    rcases hbad with h | h
    · rw [if_pos h]
    · split <;> rfl
  -- the refusal carries the parser's own name, which is not the marker
  have hmark : isRecvRequest (some "P2Peerio::RecvP2PeerMsg".toList) = false := by decide
  have hstop : driveTurn (framing nMin nMax) w false st
      = .stop (.refused, afterCall (framing nMin nMax) st) := by
    unfold driveTurn
    show onTurn w false _ (framingRecv nMin nMax st.oOv).turn = _
    rw [hrecv]
    simp only [refuse, onTurn, hmark, Bool.false_eq_true, if_false]
  have hends := ends_of_stop (n := 94) hstop
  rw [← run_again 95 hturn] at hends
  exact hmsgs ▸ hends

/-- A header in bounds gets past stage 2, and the body stage decides. -/
theorem framing_passes {oOv : Overlapped} (hov : oOv = ⟨syncSizeof, some (hdrOf w), none⟩)
    (hsync : Complementary w.b) (hok : ¬ OutOfBounds nMin nMax (declaredOf w.b)) :
    framingRecv nMin nMax oOv = bodyStage { oOv with pUserDB2 := some (hdrOf w) } (hdrOf w) := by
  have hmax : ¬ declaredOf w.b > nMax := fun h => hok (Or.inl h)
  have hmin : ¬ declaredOf w.b < nMin := fun h => hok (Or.inr h)
  subst hov
  unfold framingRecv
  simp only [Nat.lt_irrefl, if_false, declaredOf_hdrOf, complementary_hdrOf, hsync, if_true, hmax,
    hmin]

/-- A message that uses the wire up ends the drive. -/
theorem driveTurn_msg {st : DriveState Unit} {oOv : Overlapped}
    (hrecv : framingRecv nMin nMax st.oOv = ⟨.msg, 0, (), oOv⟩) (hfed : w.n ≤ st.nFed) :
    ∃ st', driveTurn (framing nMin nMax) w false st = .stop (.msg, st') ∧
      st'.nMsgs = st.nMsgs + 1 := by
  unfold driveTurn
  show ∃ st', onTurn w false _ (framingRecv nMin nMax st.oOv).turn = _ ∧ _
  rw [hrecv]
  unfold onTurn
  dsimp only
  rw [if_pos (show (afterCall (framing nMin nMax) st).nFed ≥ w.n from hfed)]
  exact ⟨_, rfl, rfl⟩

/-- A header on its own that is in bounds: a message when it declares no body, else
    the drive starves. -/
theorem framing_headerOnly (oRng : Rng) (hn : w.n = syncSizeof) (hsync : Complementary w.b)
    (hok : ¬ OutOfBounds nMin nMax (declaredOf w.b)) :
    if declaredOf w.b ≤ syncSizeof then
      Ends (drive (framing nMin nMax) () w oRng false).oRes .msg 1
    else Ends (drive (framing nMin nMax) () w oRng false).oRes .starved 0 := by
  have hw : w.n < 2 ^ 32 := by rw [hn]; decide
  obtain ⟨st, hturn, hov, hfed, hmsgs⟩ := framing_header nMin nMax oRng
    (le_of_eq hn.symm) hw
  have hpass := framing_passes hov hsync hok
  unfold bodyStage at hpass
  rw [declaredOf_hdrOf, hov] at hpass
  dsimp only at hpass
  split
  · next hsmall =>
    rw [if_pos hsmall, ← hov] at hpass
    obtain ⟨st', hstop, hmsgs'⟩ := driveTurn_msg (w := w) hpass (by omega)
    have hends := ends_of_stop (n := 94) hstop
    rw [← run_again 95 hturn, hmsgs', hmsgs] at hends
    exact hends
  · next hlarge =>
    rw [if_neg hlarge, ← hov] at hpass
    have hstop : driveTurn (framing nMin nMax) w false st
        = .stop (.starved, afterCall (framing nMin nMax) st) := by
      unfold driveTurn
      show onTurn w false _ (framingRecv nMin nMax st.oOv).turn = _
      rw [hpass]
      exact onTurn_starve (afterCall (framing nMin nMax) st) (hfed.trans hn.symm) hw
    have hends := ends_of_stop (n := 94) hstop
    rw [← run_again 95 hturn] at hends
    exact hmsgs ▸ hends

/-- A frame that is as long as it declares and in bounds is one message. -/
theorem framing_accepts (oRng : Rng) (hn : syncSizeof < w.n) (hw : w.n < 2 ^ 32)
    (hsync : Complementary w.b) (hdecl : declaredOf w.b = w.n) (hok : ¬ OutOfBounds nMin nMax w.n) :
    Ends (drive (framing nMin nMax) () w oRng false).oRes .msg 1 := by
  obtain ⟨st, hturn, hov, hfed, hmsgs⟩ := framing_header nMin nMax oRng
    (le_of_lt hn) hw
  have hpass := framing_passes hov hsync (by rw [hdecl]; exact hok)
  unfold bodyStage at hpass
  rw [declaredOf_hdrOf, hdecl, hov] at hpass
  dsimp only at hpass
  rw [if_neg (by omega), ← hov] at hpass
  -- the second turn fetches the body
  let st₁ := afterCall (framing nMin nMax) st
  have hov₁ : st₁.oOv = ⟨syncSizeof, some (hdrOf w), some (hdrOf w)⟩ := by
    show (framingRecv nMin nMax st.oOv).oOv = _
    rw [hpass]
    rfl
  have hreq : request st₁.oOv = some (.db2, w.n - syncSizeof) := by
    rw [hov₁]
    unfold request
    simp only [Nat.lt_irrefl, if_false, declaredOf_hdrOf, hdecl]
    rw [if_neg (by omega)]
  have hfed₁ : st₁.nFed = syncSizeof := hfed
  obtain ⟨st₂, hask, hov₂, hfed₂, hmsgs₂⟩ := onTurn_ask (w := w) hw hreq (by omega)
  rw [hfed₁, Nat.min_self] at hov₂ hfed₂
  have hturn₂ : driveTurn (framing nMin nMax) w false st = .again st₂ := by
    unfold driveTurn
    show onTurn w false _ (framingRecv nMin nMax st.oOv).turn = _
    rw [hpass]
    exact hask
  -- the third hands the message over
  have hrecv₂ : framingRecv nMin nMax st₂.oOv = ⟨.msg, 0, (), .zero⟩ := by
    rw [hov₂, hov₁]
    unfold framingRecv Overlapped.receive bodyStage
    simp only [Option.map_some, declaredOf_hdrOf, hdecl]
    rw [if_neg (by omega), if_pos (by omega)]
  obtain ⟨st₃, hstop, hmsgs₃⟩ := driveTurn_msg (w := w) hrecv₂ (by omega)
  have hends := ends_of_stop (n := 93) hstop
  have hzero : st₂.nMsgs = 0 := hmsgs₂.trans hmsgs
  rw [← run_again 94 hturn₂, ← run_again 95 hturn, hmsgs₃, hzero] at hends
  exact hends

/-- A wire that is shorter than a header starves. -/
theorem framing_short (oRng : Rng) (hn : w.n < syncSizeof) :
    Ends (drive (framing nMin nMax) () w oRng false).oRes .starved 0 := by
  have hw : w.n < 2 ^ 32 := by unfold syncSizeof at hn; omega
  let st₀ : DriveState Unit := afterCall (framing nMin nMax) (.start () oRng)
  have hfed₀ : st₀.nFed = 0 := rfl
  -- an empty wire starves at the first request, a stub of a header at the second
  by_cases h0 : w.n = 0
  · have hstop : driveTurn (framing nMin nMax) w false (.start () oRng) = .stop (.starved, st₀) :=
      onTurn_starve st₀ (hfed₀.trans h0.symm) hw
    have hends := ends_of_stop (n := 95) hstop
    exact hends
  · have hreq : request st₀.oOv = some (.db1, syncSizeof) := rfl
    obtain ⟨st, hturn, hov, hfed, hmsgs⟩ := onTurn_ask hw hreq (by omega)
    have hmin : min syncSizeof (w.n - st₀.nFed) = w.n := by omega
    rw [hmin, hfed₀, Nat.zero_add] at hfed
    rw [hmin, hfed₀] at hov
    -- the header is still not complete, and there is no more
    have hrecv : framingRecv nMin nMax st.oOv = askMore st.oOv := by
      have hlt : 0 + w.n < syncSizeof := by omega
      rw [hov]
      show (if 0 + w.n < syncSizeof then _ else _) = _
      rw [if_pos hlt]
    have hstop : driveTurn (framing nMin nMax) w false st
        = .stop (.starved, afterCall (framing nMin nMax) st) := by
      unfold driveTurn
      show onTurn w false _ (framingRecv nMin nMax st.oOv).turn = _
      rw [hrecv]
      exact onTurn_starve (afterCall (framing nMin nMax) st) hfed hw
    have hends := ends_of_stop (n := 94) hstop
    have hturn' : driveTurn (framing nMin nMax) w false (.start () oRng) = .again st := hturn
    rw [← run_again 95 hturn'] at hends
    have hzero : (afterCall (framing nMin nMax) st).nMsgs = 0 := hmsgs
    rw [hzero] at hends
    exact hends

end drives

/-! ## Section 3: The seed vectors about the bounds -/

/-- The slots: the valid frame, the headers around the two bounds, and the frame at
    the ceiling. -/
def boundCases : List (Fin kCases) := [0, 1, 2, 3, 4, 5, 14, 17]

/-- The seed vectors of some slots, one after the other. -/
def runSeeds {σ : Type} (B : Build σ) (g : CaseTable) (nSeed : BitVec 32)
    (cs : List (Fin kCases)) (s : Proc σ) : Proc σ :=
  cs.foldl (fun s c => seedVector B g nSeed c s) s

/-- A drive that the expectation of a case has nothing against. -/
def Acceptable (e : Expect) (r : DriveResult) : Prop :=
  r.eOutcome = .assert ∨ (satisfies e r = true ∧ r.eOutcome ≠ .escaped)

/-- The drive of the seed vector of a slot. -/
def seedDrive (B : Build Unit) (g : CaseTable) (nSeed : BitVec 32) (c : Fin kCases) : DriveResult :=
  (drive B.parser () (g.slot c).oWire (Rng.seed (iterState nSeed c.val (-1)))
    (g.slot c).bSplit).oRes

/-- No finding is raised exactly when every one of the drives is acceptable. -/
theorem runSeeds_nFindings (B : Build Unit) (g : CaseTable) (nSeed : BitVec 32) :
    ∀ (cs : List (Fin kCases)) (s : Proc Unit),
      ∃ k : Nat, (runSeeds B g nSeed cs s).nFindings = s.nFindings + k ∧
        (k = 0 ↔ ∀ c ∈ cs, Acceptable (g.slot c).eExpect (seedDrive B g nSeed c))
  | [], s => ⟨0, by simp [runSeeds], by simp⟩
  | c :: cs, s => by
    obtain ⟨k, hk, hf⟩ := checkExpectation_nFindings B (g.slot c) (seedDrive B g nSeed c)
      (tally (seedDrive B g nSeed c).eOutcome (runDrive B (g.slot c).oWire
        (Rng.seed (iterState nSeed c.val (-1))) (g.slot c).bSplit
        (setCursor (g.slot c).pszName c.val (-1) nSeed (g.slot c).oWire s)).2)
    obtain ⟨k', hk', hf'⟩ := runSeeds_nFindings B g nSeed cs (seedVector B g nSeed c s)
    have hstep : (seedVector B g nSeed c s).nFindings = s.nFindings + k := hk
    refine ⟨k + k', ?_, ?_⟩
    · show (runSeeds B g nSeed cs (seedVector B g nSeed c s)).nFindings = _
      rw [hk', hstep]
      push_cast
      omega
    · rw [Nat.add_eq_zero_iff, hf, hf', List.forall_mem_cons]
      rfl

/-- A frame of the library: the header is one, and declares the length. -/
structure HonestFrame (w : Wire) : Prop where
  complementary : Complementary w.b
  declared : declaredOf w.b = w.n

section bounds
variable {sync : VBLockSync} {oBase oBig : Wire} {g : CaseTable} {nMin nMax : Nat}
  {nSeed : BitVec 32}

/-- The harness over the documented parser. -/
def framingBuild (sync : VBLockSync) (nMin nMax : Nat) : Build Unit :=
  ⟨.posix, sync, framing nMin nMax⟩

theorem acceptable_of_ends {e : Expect} {r : DriveResult} {o : Outcome} {n : Nat}
    (h : Ends r o n) (hr : o = .msg ∧ n = 1 ∨ o = .refused ∧ n = 0 ∨ o = .starved ∧ n = 0) :
    Acceptable e r ↔ match e with
      | .msg1 => o = .msg
      | .msg2 => False
      | .refuse => o = .refused
      | .nomsg => o ≠ .msg
      | .any => True := by
  obtain ⟨ho, hn⟩ := h
  rcases hr with ⟨rfl, rfl⟩ | ⟨rfl, rfl⟩ | ⟨rfl, rfl⟩ <;> cases e <;>
    simp [Acceptable, satisfies, ho, hn]

/-- A frame of the library is accepted as a message exactly when it has a header
    and its size is in bounds. -/
theorem frame_acceptable {w : Wire} (hw : w.n < 2 ^ 32) (hframe : HonestFrame w) (oRng : Rng) :
    Acceptable .msg1 (drive (framing nMin nMax) () w oRng false).oRes ↔
      syncSizeof ≤ w.n ∧ ¬ OutOfBounds nMin nMax w.n := by
  have hdecl := hframe.declared
  -- no header, refused, a header and nothing else, or a frame
  by_cases hshort : w.n < syncSizeof
  · rw [acceptable_of_ends (framing_short oRng hshort) (by simp)]
    simp [hshort]
  · have hn : syncSizeof ≤ w.n := by omega
    by_cases hbad : OutOfBounds nMin nMax w.n
    · rw [acceptable_of_ends
        (framing_refuses oRng hn hw hframe.complementary (hdecl ▸ hbad)) (by simp)]
      simp [hbad]
    · rcases Nat.lt_or_eq_of_le hn with hlt | heq
      · rw [acceptable_of_ends
          (framing_accepts oRng hlt hw hframe.complementary hdecl hbad) (by simp)]
        simp [hn, hbad]
      · have hhdr := framing_headerOnly oRng heq.symm hframe.complementary
          (hdecl.symm ▸ hbad)
        rw [if_pos (by omega)] at hhdr
        rw [acceptable_of_ends hhdr (by simp)]
        simp [hn, hbad]

/-- A header on its own: refused when the size it declares is out of bounds, and
    otherwise neither refused nor, if it declares a body, a message. -/
theorem headerOnly_acceptable {v : Nat} (hv : v < 2 ^ 24) (oRng : Rng) :
    (Acceptable .refuse (drive (framing nMin nMax) () (headerOnly sync v) oRng false).oRes ↔
      OutOfBounds nMin nMax v) ∧
    (syncSizeof < v →
      Acceptable .nomsg (drive (framing nMin nMax) () (headerOnly sync v) oRng false).oRes) := by
  have hlen : (headerOnly sync v).n = syncSizeof := headerOnly_n sync v
  have hsync : Complementary (headerOnly sync v).b := complementary_stampSync _ _ _ _ (by simp)
  have hdecl : declaredOf (headerOnly sync v).b = v := declaredOf_stampSync _ _ _ _ (by simp) hv
  by_cases hbad : OutOfBounds nMin nMax v
  · have hends := framing_refuses oRng (le_of_eq hlen.symm)
      (by rw [hlen]; decide) hsync (hdecl.symm ▸ hbad)
    rw [acceptable_of_ends hends (by simp), acceptable_of_ends hends (by simp)]
    simp [hbad]
  · have hends := framing_headerOnly oRng hlen hsync (hdecl.symm ▸ hbad)
    rw [hdecl] at hends
    split at hends
    · next hsmall =>
      rw [acceptable_of_ends hends (by simp)]
      refine ⟨by simp [hbad], fun h => absurd hsmall (by omega)⟩
    · rw [acceptable_of_ends hends (by simp), acceptable_of_ends hends (by simp)]
      simp [hbad]

/-- The bounds that the seed vectors have nothing against: both frames are let
    through, the headers on the outside are not. -/
def InWindow (nMin nMax nBase nBig : Nat) : Prop :=
  9 ≤ nMin ∧ nMin ≤ min nBase nBig ∧ max nBase nBig ≤ nMax ∧ nMax ≤ 32768

theorem forall_boundCases (P : Fin kCases → Prop) :
    (∀ c ∈ boundCases, P c) ↔ P 0 ∧ P 1 ∧ P 2 ∧ P 3 ∧ P 4 ∧ P 5 ∧ P 14 ∧ P 17 := by
  simp [boundCases]

/-- The check of a slot that is driven whole. -/
theorem seed_acceptable_iff (B : Build Unit) {p : Parser Unit} (hp : B.parser = p)
    {c : Fin kCases} {oCase : Case} (hslot : g.slot c = oCase) (hwhole : oCase.bSplit = false) :
    Acceptable (g.slot c).eExpect (seedDrive B g nSeed c) ↔
      Acceptable oCase.eExpect
        (drive p () oCase.oWire (Rng.seed (iterState nSeed c.val (-1))) false).oRes := by
  have hdrive : seedDrive B g nSeed c
      = (drive p () oCase.oWire (Rng.seed (iterState nSeed c.val (-1))) false).oRes := by
    unfold seedDrive
    rw [hslot, hwhole, hp]
  rw [hdrive, hslot]

theorem frameSlot_acceptable {c : Fin kCases} {nm : CStr} {w : Wire}
    (hslot : g.slot c = ⟨nm, .msg1, false, w⟩) (hw : w.n < 2 ^ 32) (hframe : HonestFrame w) :
    Acceptable (g.slot c).eExpect (seedDrive (framingBuild sync nMin nMax) g nSeed c) ↔
      syncSizeof ≤ w.n ∧ ¬ OutOfBounds nMin nMax w.n :=
  (seed_acceptable_iff _ rfl hslot rfl).trans (frame_acceptable hw hframe _)

theorem refusedSlot_acceptable {c : Fin kCases} {nm : CStr} {v : Nat}
    (hslot : g.slot c = ⟨nm, .refuse, false, headerOnly sync v⟩) (hv : v < 2 ^ 24) :
    Acceptable (g.slot c).eExpect (seedDrive (framingBuild sync nMin nMax) g nSeed c) ↔
      OutOfBounds nMin nMax v :=
  (seed_acceptable_iff _ rfl hslot rfl).trans (headerOnly_acceptable hv _).1

theorem silentSlot_acceptable (nMin nMax : Nat) (nSeed : BitVec 32) {c : Fin kCases} {nm : CStr}
    {v : Nat}
    (hslot : g.slot c = ⟨nm, .nomsg, false, headerOnly sync v⟩) (hv : v < 2 ^ 24)
    (hbody : syncSizeof < v) :
    Acceptable (g.slot c).eExpect (seedDrive (framingBuild sync nMin nMax) g nSeed c) :=
  (seed_acceptable_iff _ rfl hslot rfl).mpr ((headerOnly_acceptable hv _).2 hbody)

/-- **What the seed vectors pin**: no finding is raised for the bounds in the window
    that the two frames leave open. -/
theorem bounds_silent_iff (nMin nMax : Nat) (nSeed : BitVec 32)
    (hg : buildCorpus sync oBase oBig = some g) (hBase : HonestFrame oBase)
    (hBig : HonestFrame oBig) (hmin : 9 ≤ oBase.n) (hmax : oBase.n ≤ 32768)
    (hceil : oBig.n ≤ 32768) (s : Proc Unit) :
    (runSeeds (framingBuild sync nMin nMax) g nSeed boundCases s).nFindings = s.nFindings ↔
      InWindow nMin nMax oBase.n oBig.n := by
  obtain ⟨k, hk, hf⟩ := runSeeds_nFindings (framingBuild sync nMin nMax) g nSeed boundCases s
  have hzero : (runSeeds (framingBuild sync nMin nMax) g nSeed boundCases s).nFindings
      = s.nFindings ↔ k = 0 := by omega
  -- the two headers on the inside are only asked not to be a message
  have h₄ := silentSlot_acceptable nMin nMax nSeed (buildCorpus_slot hg 4) (by omega) (by decide)
  have h₁₇ := silentSlot_acceptable nMin nMax nSeed (buildCorpus_slot hg 17) (by omega) (by decide)
  rw [hzero, hf, forall_boundCases, frameSlot_acceptable (buildCorpus_slot hg 0) (by omega) hBase,
    refusedSlot_acceptable (buildCorpus_slot hg 1) (by omega),
    refusedSlot_acceptable (buildCorpus_slot hg 2) (by omega),
    refusedSlot_acceptable (buildCorpus_slot hg 3) (by omega),
    refusedSlot_acceptable (buildCorpus_slot hg 5) (by omega),
    frameSlot_acceptable (buildCorpus_slot hg 14) (by omega) hBig]
  simp only [h₄, h₁₇, true_and, and_true]
  unfold InWindow OutOfBounds syncSizeof
  omega

/-- **When the seed vectors pin the bounds**: when the bounds are the documented
    ones, or outside of the window. Bounds in the window that are other ones are
    not reported. -/
theorem bounds_pinned_iff (nMin nMax : Nat) (nSeed : BitVec 32)
    (hg : buildCorpus sync oBase oBig = some g) (hBase : HonestFrame oBase)
    (hBig : HonestFrame oBig) (hmin : 9 ≤ oBase.n) (hmax : oBase.n ≤ 32768)
    (hceil : oBig.n ≤ 32768) (s : Proc Unit) :
    ((runSeeds (framingBuild sync nMin nMax) g nSeed boundCases s).nFindings = s.nFindings ↔
        nMin = 9 ∧ nMax = 32768) ↔
      (nMin = 9 ∧ nMax = 32768 ∧ 9 ≤ oBig.n) ∨
        (¬ (nMin = 9 ∧ nMax = 32768) ∧ ¬ InWindow nMin nMax oBase.n oBig.n) := by
  rw [bounds_silent_iff nMin nMax nSeed hg hBase hBig hmin hmax hceil s]
  unfold InWindow
  omega

theorem blankFrame_honest (sync : VBLockSync) {n : Nat} (hn : 8 ≤ n) (hsize : n < 2 ^ 24) :
    HonestFrame (blankFrame sync n) where
  complementary := complementary_stampSync _ _ _ _ hn
  declared := by
    rw [blankFrame_n]
    exact declaredOf_stampSync _ _ _ _ hn hsize

/-- The harness before it drives anything. -/
def beforeSeeds : Proc Unit :=
  .start .empty () [] 0

/-- The documented bounds raise no finding. -/
theorem bounds_pinned_iff_blank :
    (runSeeds (framingBuild nativeSync 9 32768) blankTable 0 boundCases beforeSeeds).nFindings
      = beforeSeeds.nFindings :=
  ((bounds_pinned_iff 9 32768 0 buildCorpus_blankTable
    (blankFrame_honest nativeSync (by omega) (by omega))
    (blankFrame_honest nativeSync (by omega) (by omega)) (by decide) (by decide) (by decide)
    beforeSeeds).mpr (Or.inl (by decide))).mpr (by decide)

/-- **Bounds that are off are not reported**: a parser that refuses 32768 itself
    raises no finding beside a ceiling frame of 32764 bytes. -/
theorem bounds_can_slip :
    ¬ ∀ (sync : VBLockSync) (oBase oBig : Wire) (g : CaseTable) (nMin nMax : Nat)
        (nSeed : BitVec 32) (s : Proc Unit), buildCorpus sync oBase oBig = some g →
      HonestFrame oBase → HonestFrame oBig → 9 ≤ oBase.n → oBase.n ≤ 32768 → oBig.n ≤ 32768 →
        ((runSeeds (framingBuild sync nMin nMax) g nSeed boundCases s).nFindings = s.nFindings ↔
          nMin = 9 ∧ nMax = 32768) := by
  intro hclaim
  have hBase : HonestFrame (blankFrame nativeSync 40) :=
    blankFrame_honest nativeSync (by omega) (by omega)
  have hBig : HonestFrame (blankFrame nativeSync 32764) :=
    blankFrame_honest nativeSync (by omega) (by omega)
  obtain ⟨g, hg⟩ := buildCorpus_of_le nativeSync (blankFrame nativeSync 40)
    (blankFrame nativeSync 32764) (by simp [kMaxWire]) (by simp [kMaxWire])
  have hsilent := (bounds_silent_iff 9 32767 0 hg hBase hBig
    (by simp) (by simp) (by simp) beforeSeeds).mpr (by simp [InWindow])
  have hexact := (hclaim nativeSync _ _ g 9 32767 0 beforeSeeds hg hBase hBig (by simp) (by simp)
    (by simp)).mp hsilent
  exact absurd hexact.2 (by decide)

end bounds

end FuzzFrame
