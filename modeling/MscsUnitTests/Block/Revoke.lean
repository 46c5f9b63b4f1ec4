import MscsUnitTests.Block.Oracle

/-! # The Block Harness: The Epoch of the Mutants' Receiver

    Revocation mutants have a receiver of their own, so that a refusal speaks of
    the signature and not of the epoch. The mutator can leave a block as it is. A
    mutant of the revocation list that is the list itself is applied, raises no
    finding, and moves the epoch on for every mutant behind it.
-/

open ByteMem FuzzRng CFiles History

namespace FuzzBlock

variable {H : Type} {B : Build H} {aSeed : Target → Block} {nEpoch : Nat}

/-! ## Section 1: What is relied on -/

/-- What the header of the harness says of `ApplyRevocationList`: the issued list is
    applied by a receiver that is not that far, only what is applied moves the
    epoch, and the epoch is a high-water mark. -/
structure AdvancesEpoch (B : Build H) (oSeed : Block) (nEpoch : Nat) : Prop where
  applies : ∀ h, B.parsers.epoch h < nEpoch →
    (B.parsers.applyRevocationList h oSeed.bytes).1 = .returned .revOk ∧
      B.parsers.epoch (B.parsers.applyRevocationList h oSeed.bytes).2 = nEpoch
  refusal : ∀ h p, (B.parsers.applyRevocationList h p).1 ≠ .returned .revOk →
    B.parsers.epoch (B.parsers.applyRevocationList h p).2 = B.parsers.epoch h
  highWater : ∀ h p,
    B.parsers.epoch h ≤ B.parsers.epoch (B.parsers.applyRevocationList h p).2

/-- The input of a revocation mutant is the issued list. -/
def Offer.isSeedList (aSeed : Target → Block) (o : Offer) : Prop :=
  o.tgt = .revoke ∧ o.bytes = (aSeed .revoke).bytes

instance (aSeed : Target → Block) (o : Offer) : Decidable (o.isSeedList aSeed) :=
  inferInstanceAs (Decidable (_ ∧ _))

/-- The receiver has applied nothing, or the run has said that something is wrong. -/
def Offer.fresh (o : Offer) : Prop :=
  o.epoch = 0 ∨ 0 < o.nFindings

instance (o : Offer) : Decidable o.fresh :=
  inferInstanceAs (Decidable (_ ∨ _))

/-- At every revocation mutant the receiver is fresh, or a finding has been raised. -/
def MutantsFresh (os : List Offer) : Prop :=
  ∀ o ∈ os, o.tgt = .revoke → o.fresh

instance (os : List Offer) : Decidable (MutantsFresh os) :=
  inferInstanceAs (Decidable (∀ _ ∈ _, _))

/-- No revocation mutant comes after the issued list itself, unless a finding has
    been raised before it. -/
def NoneBehindSeedList (aSeed : Target → Block) (os : List Offer) : Prop :=
  ∀ pre o post, os = pre ++ o :: post → o.tgt = .revoke →
    (∀ o' ∈ pre, ¬ o'.isSeedList aSeed) ∨ 0 < o.nFindings

/-! ## Section 2: Step by step -/

/-- The issued list takes the receiver to its epoch. -/
theorem epoch_after_seedList (hB : AdvancesEpoch B (aSeed .revoke) nEpoch) {s u : Proc H}
    {o : Offer} (ho : OfferStep B aSeed s o u) (hseed : o.isSeedList aSeed) :
    nEpoch ≤ B.parsers.epoch u.rig.pRevMutant := by
  obtain ⟨ht, hbytes⟩ := hseed
  rw [(ho.revoked ht).1, hbytes]
  -- applied now, or the receiver was that far already
  by_cases hlow : B.parsers.epoch s.rig.pRevMutant < nEpoch
  · rw [(hB.applies _ hlow).2]
  · have hmark := hB.highWater s.rig.pRevMutant (aSeed .revoke).bytes
    omega

/-- No offer takes the receiver back. -/
theorem epoch_mono (hB : AdvancesEpoch B (aSeed .revoke) nEpoch) {s u : Proc H} {o : Offer}
    (ho : OfferStep B aSeed s o u) :
    B.parsers.epoch s.rig.pRevMutant ≤ B.parsers.epoch u.rig.pRevMutant := by
  by_cases ht : o.tgt = .revoke
  · rw [(ho.revoked ht).1]
    exact hB.highWater _ _
  · rw [ho.others ht]

/-- The receiver moves on when it was given the issued list, or a forgery has been
    reported. -/
theorem epoch_moved (hexact : ExactLength B) (hB : AdvancesEpoch B (aSeed .revoke) nEpoch)
    (hseeds : ∀ t, Accepts B t (aSeed t).bytes) {s u : Proc H} {o : Offer}
    (ho : OfferStep B aSeed s o u)
    (hmoved : B.parsers.epoch u.rig.pRevMutant ≠ B.parsers.epoch s.rig.pRevMutant) :
    o.isSeedList aSeed ∨ 0 < u.nFindings := by
  by_cases ht : o.tgt = .revoke
  · obtain ⟨hrig, hanswer⟩ := ho.revoked ht
    -- only an accepted list moves the epoch
    have hok : (B.parsers.applyRevocationList s.rig.pRevMutant o.bytes).1 = .returned .revOk := by
      by_contra hno
      apply hmoved
      rw [hrig]
      exact hB.refusal _ _ hno
    have hacc : o.answer = .returned true := by
      rw [hanswer, hok]
      rfl
    by_cases hquiet : ∀ r ∈ o.raised, r.pszWhy ≠ cstr "forged"
    · left
      have haccepts := ho.accepted hacc
      have hsig := ho.forged hacc hquiet
      rw [ht] at haccepts hsig
      exact ⟨ht, seedList_of_prefix hexact haccepts (hseeds .revoke) hsig⟩
    · right
      push Not at hquiet
      obtain ⟨r, hr, -⟩ := hquiet
      have hpos := List.length_pos_of_mem hr
      rw [ho.raised]
      omega
  · exact absurd (by rw [ho.others ht]) hmoved

/-! ## Section 3: The run -/

/-- What holds at any point of a run: the receiver has moved exactly when it should
    have, now and at every offer so far. -/
structure EpochInv (B : Build H) (aSeed : Target → Block) (nEpoch : Nat) (s : Proc H) : Prop where
  seeds : ∀ t, Accepts B t (aSeed t).bytes
  moved : B.parsers.epoch s.rig.pRevMutant ≠ 0 →
    (∃ o ∈ s.offers, o.isSeedList aSeed) ∨ 0 < s.nFindings
  applied : (∃ o ∈ s.offers, o.isSeedList aSeed) → nEpoch ≤ B.parsers.epoch s.rig.pRevMutant
  offers : ∀ pre o post, s.offers = pre ++ o :: post →
    (o.epoch ≠ 0 → (∃ o' ∈ pre, o'.isSeedList aSeed) ∨ 0 < o.nFindings) ∧
      ((∃ o' ∈ pre, o'.isSeedList aSeed) → nEpoch ≤ o.epoch)

theorem epochInv_step (hexact : ExactLength B) (hB : AdvancesEpoch B (aSeed .revoke) nEpoch)
    (s : Proc H) (o : Offer) (u : Proc H) (hs : EpochInv B aSeed nEpoch s)
    (ho : OfferStep B aSeed s o u) : EpochInv B aSeed nEpoch u := by
  have hlast : o ∈ u.offers := by
    rw [ho.offers]
    exact List.mem_append_right _ (List.mem_singleton_self o)
  have hearlier : ∀ o' ∈ s.offers, o' ∈ u.offers := by
    intro o' ho'
    rw [ho.offers]
    exact List.mem_append_left _ ho'
  refine ⟨hs.seeds, ?_, ?_, ?_⟩
  · intro hpos
    -- the receiver was there before, or this offer moved it
    by_cases hsame : B.parsers.epoch u.rig.pRevMutant = B.parsers.epoch s.rig.pRevMutant
    · rcases hs.moved (hsame ▸ hpos) with ⟨o', ho', hseed⟩ | hfind
      · exact Or.inl ⟨o', hearlier o' ho', hseed⟩
      · right
        rw [ho.raised]
        omega
    · rcases epoch_moved hexact hB hs.seeds ho hsame with hseed | hfind
      · exact Or.inl ⟨o, hlast, hseed⟩
      · exact Or.inr hfind
  · rintro ⟨o', ho', hseed⟩
    rw [ho.offers] at ho'
    rcases List.mem_append.mp ho' with ho' | ho'
    · exact Nat.le_trans (hs.applied ⟨o', ho', hseed⟩) (epoch_mono hB ho)
    · rw [List.mem_singleton.mp ho'] at hseed
      exact epoch_after_seedList hB ho hseed
  · intro pre o' post hsplit
    rw [ho.offers] at hsplit
    -- the offer is the one just made, or an earlier one
    rcases split_snoc hsplit with ⟨rfl, rfl⟩ | ⟨mid, hmid⟩
    · rw [ho.epoch, ho.nFindings]
      exact ⟨hs.moved, hs.applied⟩
    · exact hs.offers pre o' mid hmid

/-- **When revocation mutants are fresh**: in every run, exactly when none of them
    comes after the issued list itself without a finding before it. -/
theorem revoke_mutants_fresh_iff (hexact : ExactLength B)
    (hB : AdvancesEpoch B (aSeed .revoke) nEpoch) (hE : 0 < nEpoch) (args : Args) (extra : Nat)
    (fs : FileSys) (rig : Rig H) (hfresh : B.parsers.epoch rig.pRevMutant = 0) :
    MutantsFresh (mainRun B aSeed args extra fs rig).final.offers ↔
      NoneBehindSeedList aSeed (mainRun B aSeed args extra fs rig).final.offers := by
  have hstart : ∀ s, Controlled B aSeed args.nSeed rig s → EpochInv B aSeed nEpoch s := by
    intro s hs
    refine ⟨hs.accepted, ?_, ?_, ?_⟩
    · rw [hs.pRevMutant]
      intro hpos
      exact absurd hfresh hpos
    · rintro ⟨o, ho, -⟩
      rw [hs.offers] at ho
      cases ho
    · intro pre o post hsplit
      rw [hs.offers] at hsplit
      simp at hsplit
  have hoffers : ∀ pre o post,
      (mainRun B aSeed args extra fs rig).final.offers = pre ++ o :: post →
      (o.epoch ≠ 0 → (∃ o' ∈ pre, o'.isSeedList aSeed) ∨ 0 < o.nFindings) ∧
        ((∃ o' ∈ pre, o'.isSeedList aSeed) → nEpoch ≤ o.epoch) := by
    rcases mainRun_inv (epochInv_step hexact hB)
      (fun s _ _ _ _ hs => ⟨hs.seeds, hs.moved, hs.applied, hs.offers⟩)
      args extra fs rig hstart with hnone | hinv
    · intro pre o post hsplit
      rw [hnone] at hsplit
      simp at hsplit
    · exact hinv.offers
  constructor
  · intro h pre o post hsplit ht
    -- behind the issued list the epoch is not 0
    rcases h o (by rw [hsplit]; simp) ht with h0 | hfind
    · left
      intro o' ho' hseed
      have hle := (hoffers pre o post hsplit).2 ⟨o', ho', hseed⟩
      omega
    · exact Or.inr hfind
  · intro h o ho ht
    obtain ⟨pre, post, hsplit⟩ := List.append_of_mem ho
    unfold Offer.fresh
    by_cases h0 : o.epoch = 0
    · exact Or.inl h0
    · right
      rcases h pre o post hsplit ht with hnone | hfind
      · rcases (hoffers pre o post hsplit).1 h0 with ⟨o', ho', hseed⟩ | hfind
        · exact absurd hseed (hnone o' ho')
        · exact hfind
      · exact hfind

/-! ## Section 4: A splice that changes nothing -/

theorem ideal_advancesEpoch (K : AuthLayout) (aSeed : Target → Block) (nEpoch : Nat)
    (hlen : (aSeed .revoke).bytes.length =
      K.kRevFixedLen + 72 * rdBE16 (ofBytes (aSeed .revoke).bytes) 11) :
    AdvancesEpoch (idealBuild K aSeed nEpoch) (aSeed .revoke) nEpoch := by
  refine ⟨?_, ?_, ?_⟩
  · intro h hlow
    have happly : (idealBuild K aSeed nEpoch).parsers.applyRevocationList h
        (aSeed .revoke).bytes = (.returned .revOk, nEpoch) := by
      have hlow' : h < nEpoch := hlow
      simp only [idealBuild]
      rw [if_pos ⟨hlen, trivial⟩, if_pos hlow']
    rw [happly]
    exact ⟨rfl, rfl⟩
  · intro h p hno
    simp only [idealBuild] at hno ⊢
    split_ifs at hno ⊢
    · exact absurd rfl hno
    · rfl
    · rfl
  · intro h p
    simp only [idealBuild, id]
    split_ifs
    · omega
    · exact Nat.le_refl _
    · exact Nat.le_refl _

theorem sample_advancesEpoch :
    AdvancesEpoch (idealBuild sampleLayout sampleSeeds 7) (sampleSeeds .revoke) 7 :=
  ideal_advancesEpoch sampleLayout sampleSeeds 7 (by decide +kernel)

/-- One mutant of each target: the first of the revocation list is fresh. -/
theorem revoke_mutants_fresh_iff_first :
    MutantsFresh (splicedRun 1).final.offers ∧
      NoneBehindSeedList sampleSeeds (splicedRun 1).final.offers := by
  have hfresh : MutantsFresh (splicedRun 1).final.offers := by
    decide +kernel
  refine ⟨hfresh, ?_⟩
  unfold splicedRun at hfresh ⊢
  exact (revoke_mutants_fresh_iff (ideal_rangeChecked sampleLayout sampleSeeds 7).revoke
    sample_advancesEpoch (by decide) _ _ _ _ rfl).mp hfresh

/-- **Revocation mutants can run against a receiver that has applied the list.** -/
theorem revoke_mutant_can_be_stale :
    ¬ ∀ (B : Build Nat) (aSeed : Target → Block) (nEpoch : Nat) (args : Args) (extra : Nat)
      (fs : FileSys) (rig : Rig Nat), ExactLength B → AdvancesEpoch B (aSeed .revoke) nEpoch →
      0 < nEpoch → B.parsers.epoch rig.pRevMutant = 0 →
      MutantsFresh (mainRun B aSeed args extra fs rig).final.offers := by
  intro hclaim
  have hstale : ¬ MutantsFresh (splicedRun 2).final.offers := by
    decide +kernel
  unfold splicedRun at hstale
  apply hstale
  exact hclaim _ _ 7 _ _ _ _ (ideal_rangeChecked sampleLayout sampleSeeds 7).revoke
    sample_advancesEpoch (by decide) rfl

end FuzzBlock
