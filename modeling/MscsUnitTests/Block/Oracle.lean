import MscsUnitTests.Block.Runs

/-! # The Block Harness: What the Forgery Oracle Sees

    The oracle compares an accepted input with the seed up to the significant
    length, which it takes from the seed. What a parser reads of an input is given
    by the input's own header. The two agree on every input that is accepted and
    not reported.
-/

open ByteMem CFiles

namespace FuzzBlock

variable {H : Type} {B : Build H} {aSeed : Target → Block}

/-! ## Section 1: What a parser reads -/

/-- What the parser of a target reads of an input. Login, ack and relay ignore what
    is behind the block; the relay block says itself how long it is. -/
def reads (K : AuthLayout) : Target → List UInt8 → List UInt8
  | .login, p => p.take K.kAuthLoginLen
  | .ack, p => p.take K.kAuthAckLen
  | .relay, p => p.take (K.kRelayFixedLen + rdBE16 (ofBytes p) 3)
  | .revoke, p => p

/-- A revocation list is only accepted when it is exactly as long as its count
    says. -/
def ExactLength (B : Build H) : Prop :=
  ∀ p, Accepts B .revoke p → p.length = B.layout.kRevFixedLen + 72 * rdBE16 (ofBytes p) 11

/-- The range checks the parsers make before they accept: a relay block is not
    shorter than it says, a revocation list exactly as long. -/
structure RangeChecked (B : Build H) : Prop where
  relay : ∀ p, Accepts B .relay p →
    B.layout.kRelayFixedLen + rdBE16 (ofBytes p) 3 ≤ p.length
  revoke : ExactLength B

/-- An input and the seed agree up to the significant length, and in everything
    that the parser reads. -/
structure Agrees (K : AuthLayout) (t : Target) (p : List UInt8) (oSeed : Block) : Prop where
  significant : p.take (significantLen K t oSeed) = oSeed.bytes.take (significantLen K t oSeed)
  read : reads K t p = reads K t oSeed.bytes

/-! ## Section 2: The significant length of an accepted seed -/

/-- Of a relay block that is not shorter than it says, all it says is significant. -/
theorem significantLen_relay (K : AuthLayout) (oSeed : Block)
    (hlen : K.kRelayFixedLen + rdBE16 (ofBytes oSeed.bytes) 3 ≤ oSeed.n) :
    significantLen K .relay oSeed = K.kRelayFixedLen + rdBE16 (ofBytes oSeed.bytes) 3 := by
  have hheader := K.relayHeader
  have haddr : rdBE16 (ofBytes oSeed.bytes) 3 = rdBE16 oSeed.b 3 :=
    rdBE16_firstBytes oSeed.b (by omega)
  rw [haddr] at hlen ⊢
  unfold significantLen
  dsimp only
  split
  · omega
  · split <;> omega

/-- An input that has the beginning of the seed has its address length too. -/
theorem reads_relay (K : AuthLayout) (p : List UInt8) (oSeed : Block)
    (hlen : K.kRelayFixedLen + rdBE16 (ofBytes oSeed.bytes) 3 ≤ oSeed.n)
    (hsig : p.take (significantLen K .relay oSeed) =
      oSeed.bytes.take (significantLen K .relay oSeed)) :
    reads K .relay p = reads K .relay oSeed.bytes := by
  have hheader := K.relayHeader
  rw [significantLen_relay K oSeed hlen] at hsig
  -- the address length is inside the significant part
  have haddr : rdBE16 (ofBytes p) 3 = rdBE16 (ofBytes oSeed.bytes) 3 :=
    rdBE16_ofBytes_congr hsig (by omega)
  unfold reads
  dsimp only
  rw [haddr]
  exact hsig

/-- An accepted list that begins with the seed is the seed. -/
theorem seedList_of_prefix (hB : ExactLength B) {p : List UInt8} {oSeed : Block}
    (hp : Accepts B .revoke p) (hseed : Accepts B .revoke oSeed.bytes)
    (hsig : p.take oSeed.n = oSeed.bytes.take oSeed.n) : p = oSeed.bytes := by
  have hheader := B.layout.revHeader
  have hplen := hB p hp
  have hslen := hB oSeed.bytes hseed
  rw [Block.bytes_length] at hslen
  -- the count is in the beginning, so that the exact lengths are the same
  have hcount : rdBE16 (ofBytes p) 11 = rdBE16 (ofBytes oSeed.bytes) 11 :=
    rdBE16_ofBytes_congr hsig (by omega)
  have hlen : p.length = oSeed.n := by
    rw [hplen, hcount, ← hslen]
  calc p = p.take oSeed.n := (List.take_of_length_le (by omega)).symm
    _ = oSeed.bytes.take oSeed.n := hsig
    _ = oSeed.bytes := List.take_of_length_le (by simp)

/-- **Agreement** up to the significant length, with an accepted seed, is agreement
    in everything that is read. -/
theorem agrees_of_significant (hB : RangeChecked B) (hseed : ∀ t, Accepts B t (aSeed t).bytes)
    (t : Target) (p : List UInt8) (hp : Accepts B t p)
    (hsig : p.take (significantLen B.layout t (aSeed t)) =
      (aSeed t).bytes.take (significantLen B.layout t (aSeed t))) :
    Agrees B.layout t p (aSeed t) := by
  refine ⟨hsig, ?_⟩
  cases t with
  -- of login and ack the parser reads a fixed length
  | login => exact hsig
  | ack => exact hsig
  | relay =>
    have hlen := hB.relay _ (hseed .relay)
    rw [Block.bytes_length] at hlen
    exact reads_relay B.layout p (aSeed .relay) hlen hsig
  | revoke => exact seedList_of_prefix hB.revoke hp (hseed .revoke) hsig

/-! ## Section 3: The run -/

/-- Behind the controls, everything accepted quietly agrees with its seed. -/
structure OracleInv (B : Build H) (aSeed : Target → Block) (s : Proc H) : Prop where
  seeds : ∀ t, Accepts B t (aSeed t).bytes
  offers : ∀ o ∈ s.offers, o.answer = .returned true →
    (∀ r ∈ o.raised, r.pszWhy ≠ cstr "forged") → Agrees B.layout o.tgt o.bytes (aSeed o.tgt)

theorem oracleInv_step (hB : RangeChecked B) (s : Proc H) (o : Offer) (u : Proc H)
    (hs : OracleInv B aSeed s) (ho : OfferStep B aSeed s o u) : OracleInv B aSeed u := by
  refine ⟨hs.seeds, ?_⟩
  intro o' ho' hacc hquiet
  rw [ho.offers] at ho'
  rcases List.mem_append.mp ho' with ho' | ho'
  · exact hs.offers o' ho' hacc hquiet
  · rw [List.mem_singleton.mp ho'] at hacc hquiet ⊢
    exact agrees_of_significant hB hs.seeds o.tgt o.bytes (ho.accepted hacc)
      (ho.forged hacc hquiet)

/-- **The forgery oracle misses nothing the parser reads**: in every run, an input
    that is accepted and not reported as forged agrees with the seed in all the
    parser reads. -/
theorem forgery_oracle_complete (hB : RangeChecked B) (args : Args) (extra : Nat) (fs : FileSys)
    (rig : Rig H) (o : Offer) (ho : o ∈ (mainRun B aSeed args extra fs rig).final.offers)
    (hacc : o.answer = .returned true) (hquiet : ∀ r ∈ o.raised, r.pszWhy ≠ cstr "forged") :
    Agrees B.layout o.tgt o.bytes (aSeed o.tgt) := by
  have hstart : ∀ s, Controlled B aSeed args.nSeed rig s → OracleInv B aSeed s := by
    intro s hs
    refine ⟨hs.accepted, ?_⟩
    intro o' ho'
    rw [hs.offers] at ho'
    cases ho'
  rcases mainRun_inv (oracleInv_step hB) (fun s _ _ _ _ hs => ⟨hs.seeds, hs.offers⟩)
    args extra fs rig hstart with hnone | hinv
  · rw [hnone] at ho
    cases ho
  · exact hinv.offers o ho hacc hquiet

/-! ## Section 4: A verifier of what was issued -/

/-- The harness over parsers that check the range and accept what agrees with the
    seed in all they read. A hub is the epoch it has got to. -/
def idealBuild (K : AuthLayout) (aSeed : Target → Block) (nEpoch : Nat) : Build Nat where
  plat := .posix
  layout := K
  parsers := {
    authVerifyLogin := fun h p =>
      (.returned (if reads K .login p = reads K .login (aSeed .login).bytes then .authOk
        else .refused 1), h)
    authVerifyAck := fun h p =>
      (.returned (if reads K .ack p = reads K .ack (aSeed .ack).bytes then .authOk
        else .refused 1), h)
    verifyRelay := fun h p _ =>
      if K.kRelayFixedLen + rdBE16 (ofBytes p) 3 ≤ p.length ∧
          reads K .relay p = reads K .relay (aSeed .relay).bytes then
        (.returned .authOk, [70, 0], h)
      else (.returned (.refused 1), [0], h)
    applyRevocationList := fun h p =>
      if p.length = K.kRevFixedLen + 72 * rdBE16 (ofBytes p) 11 ∧ p = (aSeed .revoke).bytes then
        if h < nEpoch then (.returned .revOk, nEpoch) else (.returned (.refused 2), h)
      else (.returned (.refused 1), h)
    epoch := id }

theorem ideal_rangeChecked (K : AuthLayout) (aSeed : Target → Block) (nEpoch : Nat) :
    RangeChecked (idealBuild K aSeed nEpoch) := by
  constructor
  · rintro p ⟨h, wszAtt, hok⟩
    simp only [idealBuild] at hok
    split_ifs at hok with hrange
    · exact hrange.1
    · cases hok
  · rintro p ⟨h, hok⟩
    simp only [idealBuild] at hok
    split_ifs at hok with hrange
    · exact hrange.1
    · exact hrange.1
    · cases hok

def sampleLayout : AuthLayout where
  kAuthLoginLen := 24
  kAuthAckLen := 24
  kRelayFixedLen := 24
  kRelayAttesterMax := 8
  kRevFixedLen := 141
  relayHeader := by decide
  revHeader := by decide

/-- Blocks with the headers of the four formats: an address of nine bytes, and a
    list of epoch 7 with one entry. -/
def sampleSeeds : Target → Block
  | .login => ⟨ofBytes [0x50, 0x41, 1], 24⟩
  | .ack => ⟨ofBytes [0x50, 0x41, 2], 24⟩
  | .relay => ⟨ofBytes [0x50, 0x52, 1, 0, 9], 33⟩
  | .revoke => ⟨ofBytes [0x50, 0x56, 1, 0, 0, 0, 0, 0, 0, 0, 7, 0, 1], 213⟩

/-- A campaign whose first revocation mutant is made by one splice, of a run of
    bytes onto itself. -/
def splicedRun (nIters : Int) : RunResult Nat :=
  mainRun (idealBuild sampleLayout sampleSeeds 7) sampleSeeds { nSeed := 66, nIters := nIters } 0
    .empty ⟨0, 0, 0, 0⟩

/-- That mutant is accepted and not reported: it is the list. -/
theorem forgery_oracle_complete_splice :
    ∃ o ∈ (splicedRun 1).final.offers, o.tgt = .revoke ∧ o.answer = .returned true ∧
      Agrees sampleLayout o.tgt o.bytes (sampleSeeds o.tgt) := by
  have hmutant : ∃ o ∈ (splicedRun 1).final.offers, o.tgt = .revoke ∧
      o.answer = .returned true ∧ ∀ r ∈ o.raised, r.pszWhy ≠ cstr "forged" := by
    decide +kernel
  unfold splicedRun at hmutant ⊢
  obtain ⟨o, ho, ht, hacc, hquiet⟩ := hmutant
  have hagree := forgery_oracle_complete (ideal_rangeChecked sampleLayout sampleSeeds 7)
    _ _ _ _ o ho hacc hquiet
  exact ⟨o, ho, ht, hacc, hagree⟩

end FuzzBlock
