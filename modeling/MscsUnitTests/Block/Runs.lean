import Mathlib.Algebra.Order.Group.Nat
import MscsUnitTests.Block.Harness

/-! # The Block Harness: What Every Run Keeps

    A run is a loop over offered inputs, once the controls have passed. What one
    offer does is said once (`offer_step`); what every offer keeps, the run keeps
    (`mainRun_inv`).
-/

open ByteMem FuzzRng CFiles FuzzCorpus History

namespace FuzzBlock

variable {H : Type} {B : Build H} {aSeed : Target → Block}

/-! ## Section 1: Findings -/

/-- Reporting adds findings and leaves the rig, the seed and the offers alone. -/
structure Proc.Reported (s u : Proc H) (rs : List Report) : Prop where
  rig : u.rig = s.rig
  offers : u.offers = s.offers
  nSeed : u.nSeed = s.nSeed
  reports : u.reports = s.reports ++ rs
  nFindings : u.nFindings = s.nFindings + rs.length

theorem finding_reported (B : Build H) (pszWhat pszWhy : CStr) (s : Proc H) :
    s.Reported (finding B pszWhat pszWhy s) [⟨pszWhat, pszWhy⟩] := by
  unfold finding emitRepro
  split <;> exact ⟨rfl, rfl, rfl, rfl, rfl⟩

theorem findingIf_reported (B : Build H) (b : Bool) (pszWhat pszWhy : CStr) (s : Proc H) :
    s.Reported (findingIf B b pszWhat pszWhy s) (if b then [⟨pszWhat, pszWhy⟩] else []) := by
  cases b with
  | true => exact finding_reported B pszWhat pszWhy s
  | false => exact ⟨rfl, rfl, rfl, (List.append_nil _).symm, rfl⟩

/-- The judgement reports a forgery when a block that differs from the seed within
    the significant length is accepted. -/
theorem judge_reported (B : Build H) (aSeed : Target → Block) (texts : OfferTexts) (t : Target)
    (w : Block) (a : Answer Bool) (s : Proc H) :
    ∃ rs, s.Reported (judge B aSeed texts t w a s) rs ∧
      (a = .returned true →
        differsWithin w (aSeed t) (significantLen B.layout t (aSeed t)) = true →
        ⟨texts.forged, cstr "forged"⟩ ∈ rs) := by
  cases a with
  | event => exact ⟨_, finding_reported _ _ _ _, fun h => by cases h⟩
  | escaped => exact ⟨_, finding_reported _ _ _ _, fun h => by cases h⟩
  | returned bAccepted =>
    refine ⟨_, findingIf_reported _ _ _ _ _, ?_⟩
    intro hacc hdiff
    cases hacc
    rw [hdiff]
    exact List.mem_singleton_self _

/-! ## Section 2: One call of a target -/

/-- Some hub accepts the bytes. -/
def Accepts (B : Build H) : Target → List UInt8 → Prop
  | .login, p => ∃ h, (B.parsers.authVerifyLogin h p).1 = .returned .authOk
  | .ack, p => ∃ h, (B.parsers.authVerifyAck h p).1 = .returned .authOk
  | .relay, p => ∃ h wszAtt, (B.parsers.verifyRelay h p wszAtt).1 = .returned .authOk
  | .revoke, p => ∃ h, (B.parsers.applyRevocationList h p).1 = .returned .revOk

theorem map_eq_returned_true {α : Type} [DecidableEq α] (ok : α) (a : Answer α) :
    a.map (· == ok) = .returned true ↔ a = .returned ok := by
  cases a with
  | returned e => simp [Answer.map]
  | event => simp [Answer.map]
  | escaped => simp [Answer.map]

theorem runTarget_accepts (B : Build H) (t : Target) (p : List UInt8) (bMutant : Bool) (s : Proc H)
    (h : (runTarget B t p bMutant s).1 = .returned true) : Accepts B t p := by
  cases t with
  | login => exact ⟨_, (map_eq_returned_true _ _).mp h⟩
  | ack => exact ⟨_, (map_eq_returned_true _ _).mp h⟩
  | relay => exact ⟨_, _, (map_eq_returned_true _ _).mp h⟩
  | revoke =>
    cases bMutant with
    | true => exact ⟨_, (map_eq_returned_true _ _).mp h⟩
    | false => exact ⟨_, (map_eq_returned_true _ _).mp h⟩

/-- `VerifyRelay`, and the check for a name that leaks. -/
theorem relay_reported (B : Build H) (p : List UInt8) (s : Proc H) :
    let r := B.parsers.verifyRelay s.rig.pReceiver p (poisonedAtt B.layout)
    let s' : Proc H := { s with rig := { s.rig with pReceiver := r.2.2 } }
    let pszWhat := cstr "VerifyRelay REFUSED but still published an attester name"
    s'.Reported (findingIf B (leaks r.2.1 r.1) pszWhat (cstr "leak") s')
      (if leaks r.2.1 r.1 then [⟨pszWhat, cstr "leak"⟩] else []) :=
  findingIf_reported _ _ _ _ _

/-- What a call of a target moves: the hub it is made on, and what the quiet half
    of the oracle reports. -/
structure Called (B : Build H) (t : Target) (p : List UInt8) (bMutant : Bool) (s u : Proc H)
    (rs : List Report) : Prop where
  offers : u.offers = s.offers
  nSeed : u.nSeed = s.nSeed
  reports : u.reports = s.reports ++ rs
  nFindings : u.nFindings = s.nFindings + rs.length
  pRevMutant : u.rig.pRevMutant =
    if t = .revoke ∧ bMutant = true then (B.parsers.applyRevocationList s.rig.pRevMutant p).2
    else s.rig.pRevMutant

theorem runTarget_called (B : Build H) (t : Target) (p : List UInt8) (bMutant : Bool) (s : Proc H) :
    ∃ rs, Called B t p bMutant s (runTarget B t p bMutant s).2 rs := by
  have hnil : s.reports = s.reports ++ [] := (List.append_nil _).symm
  cases t with
  | login => exact ⟨[], rfl, rfl, hnil, rfl, rfl⟩
  | ack => exact ⟨[], rfl, rfl, hnil, rfl, rfl⟩
  | relay =>
    have h := relay_reported B p s
    refine ⟨_, h.offers, h.nSeed, h.reports, h.nFindings, ?_⟩
    show (findingIf B _ _ _ _).rig.pRevMutant = _
    rw [h.rig]
    rfl
  | revoke =>
    cases bMutant with
    | true => exact ⟨[], rfl, rfl, hnil, rfl, rfl⟩
    | false => exact ⟨[], rfl, rfl, hnil, rfl, rfl⟩

/-! ## Section 3: One offer -/

/-- What one offer does: the entry it leaves, and what becomes of the mutants'
    receiver and of the findings. -/
structure OfferStep (B : Build H) (aSeed : Target → Block) (s : Proc H) (o : Offer)
    (u : Proc H) : Prop where
  offers : u.offers = s.offers ++ [o]
  nSeed : u.nSeed = s.nSeed
  epoch : o.epoch = B.parsers.epoch s.rig.pRevMutant
  nFindings : o.nFindings = s.nFindings
  raised : u.nFindings = s.nFindings + o.raised.length
  accepted : o.answer = .returned true → Accepts B o.tgt o.bytes
  /-- A forgery is reported unless the input agrees with the seed up to the
      significant length. -/
  forged : o.answer = .returned true → (∀ r ∈ o.raised, r.pszWhy ≠ cstr "forged") →
    o.bytes.take (significantLen B.layout o.tgt (aSeed o.tgt)) =
      (aSeed o.tgt).bytes.take (significantLen B.layout o.tgt (aSeed o.tgt))
  revoked : o.tgt = .revoke →
    u.rig.pRevMutant = (B.parsers.applyRevocationList s.rig.pRevMutant o.bytes).2 ∧
      o.answer = (B.parsers.applyRevocationList s.rig.pRevMutant o.bytes).1.map (· == .revOk)
  others : o.tgt ≠ .revoke → u.rig.pRevMutant = s.rig.pRevMutant

theorem offer_step (B : Build H) (aSeed : Target → Block) (texts : OfferTexts) (t : Target)
    (nIter : Int) (pszSrc : CStr) (w : Block) (s : Proc H) :
    ∃ o, OfferStep B aSeed s o (offer B aSeed texts t nIter pszSrc w s) ∧ o.tgt = t ∧
      o.nIter = nIter ∧ o.bytes = w.bytes := by
  let s₁ : Proc H := { setCursor (some t) nIter pszSrc w s with nProgress := s.nProgress + 1 }
  let r := runTarget B t w.bytes true s₁
  let s₂ := judge B aSeed texts t w r.1 r.2
  obtain ⟨rs, hrun⟩ := runTarget_called B t w.bytes true s₁
  obtain ⟨rs', hjudge, hforged⟩ := judge_reported B aSeed texts t w r.1 r.2
  have hreports : s₂.reports = s.reports ++ (rs ++ rs') := by
    rw [hjudge.reports, hrun.reports, List.append_assoc]
    rfl
  have hraised : s₂.reports.drop s.reports.length = rs ++ rs' := by
    rw [hreports, List.drop_left]
  have hrig : s₂.rig.pRevMutant = r.2.rig.pRevMutant := by
    rw [hjudge.rig]
  let o : Offer := ⟨t, nIter, w.bytes, B.parsers.epoch s.rig.pRevMutant, s.nFindings, r.1,
    s₂.reports.drop s.reports.length⟩
  refine ⟨o, ⟨?_, ?_, rfl, rfl, ?_, ?_, ?_, ?_, ?_⟩, rfl, rfl, rfl⟩
  · show s₂.offers ++ _ = s.offers ++ _
    rw [hjudge.offers, hrun.offers]
    rfl
  · show s₂.nSeed = s.nSeed
    rw [hjudge.nSeed, hrun.nSeed]
    rfl
  · show s₂.nFindings = s.nFindings + (s₂.reports.drop s.reports.length).length
    rw [hraised, hjudge.nFindings, hrun.nFindings, List.length_append, Nat.add_assoc]
    rfl
  · exact runTarget_accepts B t w.bytes true s₁
  · intro hacc hquiet
    rw [← differsWithin_eq_false_iff]
    by_contra hdiff
    -- otherwise the judgement has reported a forgery
    have hmem := hforged hacc (Bool.not_eq_false _ ▸ hdiff)
    have hin : ⟨texts.forged, cstr "forged"⟩ ∈ o.raised := by
      show _ ∈ s₂.reports.drop s.reports.length
      rw [hraised]
      exact List.mem_append_right _ hmem
    exact hquiet _ hin rfl
  · intro ht
    cases (show t = .revoke from ht)
    refine ⟨?_, rfl⟩
    show s₂.rig.pRevMutant = _
    rw [hrig, hrun.pRevMutant]
    rfl
  · intro ht
    show s₂.rig.pRevMutant = _
    rw [hrig, hrun.pRevMutant, if_neg (fun h => ht h.1)]
    rfl

/-! ## Section 4: The run -/

/-- The state behind the controls: nothing has been offered, the mutants' receiver
    is as it was set up, and every seed has been accepted. -/
structure Controlled (B : Build H) (aSeed : Target → Block) (nSeed : BitVec 32) (rig : Rig H)
    (s : Proc H) : Prop where
  offers : s.offers = []
  nSeed : s.nSeed = nSeed
  pRevMutant : s.rig.pRevMutant = rig.pRevMutant
  accepted : ∀ t, Accepts B t (aSeed t).bytes

/-- What the control loop has established after some of the targets. -/
structure ControlLoop (B : Build H) (aSeed : Target → Block) (rig : Rig H) (nSeed : BitVec 32)
    (done : List Target) (acc : Option Bool × Proc H) : Prop where
  offers : acc.2.offers = []
  nSeed : acc.2.nSeed = nSeed
  pRevMutant : acc.2.rig.pRevMutant = rig.pRevMutant
  accepted : acc.1 = some true → ∀ t ∈ done, Accepts B t (aSeed t).bytes

theorem control_loop {rig : Rig H} {nSeed : BitVec 32} {done : List Target}
    {acc : Option Bool × Proc H} (t : Target) (h : ControlLoop B aSeed rig nSeed done acc) :
    ControlLoop B aSeed rig nSeed (done ++ [t]) (control B aSeed acc t) := by
  obtain ⟨bControls, s⟩ := acc
  cases bControls with
  | none => exact ⟨h.offers, h.nSeed, h.pRevMutant, fun hno => by cases hno⟩
  | some bControls =>
    let s₁ := setCursor (some t) (-1) (cstr "(seed)") (aSeed t) s
    obtain ⟨rs, hcall⟩ := runTarget_called B t (aSeed t).bytes false s₁
    have hoffers : (runTarget B t (aSeed t).bytes false s₁).2.offers = [] := by
      rw [hcall.offers]
      exact h.offers
    have hseed : (runTarget B t (aSeed t).bytes false s₁).2.nSeed = nSeed := by
      rw [hcall.nSeed]
      exact h.nSeed
    have hrig : (runTarget B t (aSeed t).bytes false s₁).2.rig.pRevMutant = rig.pRevMutant := by
      -- a control is no mutant
      rw [hcall.pRevMutant, if_neg (by simp)]
      exact h.pRevMutant
    have hacc := runTarget_accepts B t (aSeed t).bytes false s₁
    unfold control
    dsimp only
    split
    · next bOk hOk =>
      refine ⟨hoffers, hseed, hrig, ?_⟩
      intro hall t' ht'
      rw [Option.some.injEq, Bool.and_eq_true] at hall
      rcases List.mem_append.mp ht' with ht' | ht'
      · exact h.accepted (by rw [hall.1]) t' ht'
      · rw [List.mem_singleton.mp ht']
        exact hacc (by rw [hOk, hall.2])
    · exact ⟨hoffers, hseed, hrig, fun hno => by cases hno⟩

theorem controls_loop {rig : Rig H} {nSeed : BitVec 32} (ts done : List Target)
    (acc : Option Bool × Proc H) (h : ControlLoop B aSeed rig nSeed done acc) :
    ControlLoop B aSeed rig nSeed (done ++ ts) (ts.foldl (control B aSeed) acc) := by
  induction ts generalizing done acc with
  | nil => simpa using h
  | cons t ts ih =>
    have hrest := ih (done ++ [t]) (control B aSeed acc t) (control_loop t h)
    rwa [List.append_assoc, List.singleton_append] at hrest

section rule
variable {I : Proc H → Prop}
  (hmutant : ∀ s t nIter, I s → I (runMutant B aSeed t nIter s))
  (hsaved : ∀ s t pszPath p, I s → I (offer B aSeed corpusTexts t (-1) pszPath (savedBlock p) s))
  (hcursor : ∀ s t nIter pszSrc w, I s → I (setCursor t nIter pszSrc w s))

section
include hsaved

theorem corpusOne_inv (pszPath : CStr) (p : List UInt8) {s : Proc H} (hs : I s) :
    I (corpusOne B aSeed pszPath p s) := by
  unfold corpusOne
  exact List.foldlRecOn targets _ hs fun s hs t _ => hsaved s t pszPath p hs

theorem corpusReplay_inv (args : Args) {s : Proc H} (hs : I s) :
    I (corpusReplay B aSeed args s).user := by
  unfold corpusReplay
  split
  · exact fuzzCorpusRun_inv B.plat Proc.fs (corpusOne B aSeed)
      (fun s pszPath p hs _ _ => corpusOne_inv hsaved pszPath p hs) _ s hs
  · exact hs

end

section
include hmutant

theorem runRound_inv (nIters : Int) (nRound : Nat) {s : Proc H} (hs : I s) :
    I (runRound B aSeed nIters s nRound) := by
  unfold runRound
  refine List.foldlRecOn targets _ hs fun s hs t _ => ?_
  exact List.foldlRecOn (List.range nIters.toNat) _ hs fun s hs i _ => hmutant s t _ hs

theorem mainMutants_inv (args : Args) (extra : Nat) {s u : Proc H} (hs : I s)
    (hu : mainMutants B aSeed args extra s = some u) : I u := by
  unfold mainMutants at hu
  split at hu
  · obtain ⟨t, -, rfl⟩ := Option.map_eq_some_iff.mp hu
    exact hmutant s t _ hs
  · cases hu
    exact List.foldlRecOn (List.range (rounds args extra)) _ hs fun s hs nRound _ =>
      runRound_inv hmutant args.nIters nRound hs

end

include hmutant hsaved hcursor

/-- **Run rule**: what holds behind the controls and is kept by every mutant and every
    saved file holds at the end, unless nothing was offered at all. -/
theorem mainRun_rule (args : Args) (extra : Nat) (fs : FileSys) (rig : Rig H)
    (hstart : ∀ s, Controlled B aSeed args.nSeed rig s → I s) :
    (mainRun B aSeed args extra fs rig).final.offers = [] ∨
      I (mainRun B aSeed args extra fs rig).final := by
  let s₀ : Proc H := .start fs rig args.szReproDir args.nSeed
  have hnone : ControlLoop B aSeed rig args.nSeed [] (some true, s₀) :=
    ⟨rfl, rfl, rfl, fun _ t ht => by cases ht⟩
  have hloop := controls_loop targets [] (some true, s₀) hnone
  unfold mainRun
  dsimp only
  split
  · exact Or.inl hloop.offers
  · exact Or.inl hloop.offers
  · next hpass =>
    right
    -- the corpus first, then the mutants
    have hwalk := corpusReplay_inv hsaved args
      (hstart _ ⟨hloop.offers, hloop.nSeed, hloop.pRevMutant,
        fun t => hloop.accepted hpass t (mem_targets t)⟩)
    unfold mainInputs
    dsimp only
    split
    · exact hwalk
    · next u hu => exact hcursor _ _ _ _ _ (mainMutants_inv hmutant args extra hwalk hu)

end rule

section steps
variable {I : Proc H → Prop}
  (hoffer : ∀ s o u, I s → OfferStep B aSeed s o u → I u)
  (hcursor : ∀ s t nIter pszSrc w, I s → I (setCursor t nIter pszSrc w s))
include hoffer

theorem offer_inv (texts : OfferTexts) (t : Target) (nIter : Int) (pszSrc : CStr) (w : Block)
    {s : Proc H} (hs : I s) : I (offer B aSeed texts t nIter pszSrc w s) := by
  obtain ⟨o, ho, -⟩ := offer_step B aSeed texts t nIter pszSrc w s
  exact hoffer s o _ hs ho

include hcursor

/-- The rule for what is kept by every offer, of whatever input. -/
theorem mainRun_inv (args : Args) (extra : Nat) (fs : FileSys) (rig : Rig H)
    (hstart : ∀ s, Controlled B aSeed args.nSeed rig s → I s) :
    (mainRun B aSeed args extra fs rig).final.offers = [] ∨
      I (mainRun B aSeed args extra fs rig).final := by
  refine mainRun_rule ?_ ?_ hcursor args extra fs rig hstart
  · intro s t nIter hs
    exact offer_inv hoffer _ t _ _ _ hs
  · intro s t pszPath p hs
    exact offer_inv hoffer _ t _ _ _ hs

end steps

end FuzzBlock
