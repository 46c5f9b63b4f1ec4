import MscsUnitTests.Lib.Files
import MscsUnitTests.Lib.Search

/-! # The Carrier Scan: Plaintext in What a Relay Holds

    `p2p_sealbcast.cpp` sends a body of its own in each phase, and the carrier in the
    middle looks for it in everything it holds. The bodies begin with their tag, so that
    a truncated one still says which it is; the scan looks for the whole body.
-/

open CFiles ByteSearch

namespace SealBcast

/-! ## Section 1: Bodies -/

/-- `Contains`. `none` is a null pointer. -/
def contains (pv : Option (List UInt8)) (sNeedle : List UInt8) : Bool :=
  match pv with
  | none => false
  | some data =>
    if sNeedle = [] ∨ data.length < sNeedle.length then false else occursIn sNeedle data

/-- `MakeBody`. -/
def makeBody (pszTag : CStr) (cbTotal : Nat) : List UInt8 :=
  if pszTag.length < cbTotal then pszTag ++ List.replicate (cbTotal - pszTag.length) 46 else pszTag

/-- What is sent: a unicast, a broadcast, the short broadcast and an upcast. -/
inductive Phase where
  | uni | bcast | short | ucast
  deriving DecidableEq

/-- `kUniTag`, `kBcastTag`, `kShortTag` and `kUcastTag`. -/
def Phase.tag : Phase → CStr
  | .uni => cstr "UNICAST-secret-tarragon-5150"
  | .bcast => cstr "BROADCAST-secret-juniper-8802"
  | .short => cstr "SHORT-secret-marjoram-3310"
  | .ucast => cstr "UPCAST-secret-fenugreek-6041"

/-- `kLongBody` and `kShortBody`. -/
def Phase.cbBody : Phase → Nat
  | .short => 28
  | _ => 400

/-- `g_sUniBody`, `g_sBcastBody`, `g_sShortBody` and `g_sUcastBody`. -/
def sBody (phase : Phase) : List UInt8 := makeBody phase.tag phase.cbBody

/-! ## Section 2: The carrier -/

inductive Role where
  | top | mid | leaf
  deriving DecidableEq

/-- `kMidAddr`. -/
def kMidAddr : List Char := "Bc.Mid".toList

/-- `kLeafAddr`. -/
def kLeafAddr : List Char := "Bc.Mid.Leaf".toList

/-- What `PeekP2PeerMsg` asks of a message. -/
structure Message where
  /-- `Data` and `DataSize`. -/
  data : Option (List UInt8)
  isSealed : Bool
  destin : Option (List Char)
  /-- `Map_MatchName(P2Pmsg_UCast)`. -/
  isUcast : Bool

/-- The flags `g_bMid..` and the count `g_nMidBodies`. -/
structure MidFlags where
  nMidBodies : Nat
  carriedUni : Bool
  sawUniPlain : Bool
  uniMarked : Bool
  carriedBcast : Bool
  sawBcastPlain : Bool
  bcastMarked : Bool
  sawShortPlain : Bool
  carriedUcast : Bool
  sawUcastPlain : Bool

/-- `bUni`, `bBcast`, `bShort` and `bUcast`: the bodies may be any. -/
def visible (body : Phase → List UInt8) (pv : Option (List UInt8)) (phase : Phase) : Bool :=
  contains pv (body phase)

/-- What the carrier notes of a message, by the way it is routed. -/
def noteRouting (body : Phase → List UInt8) (msg : Message) (g : MidFlags) : MidFlags :=
  -- an upcast copy is addressed as a broadcast copy is, so its name is asked first
  if msg.isUcast then
    { g with
      carriedUcast := true
      sawUcastPlain := g.sawUcastPlain || visible body msg.data .ucast }
  else if msg.destin.getD [] = kLeafAddr then
    { g with
      carriedUni := true
      uniMarked := msg.isSealed
      sawUniPlain := g.sawUniPlain || visible body msg.data .uni }
  else if msg.destin.getD [] = kMidAddr then
    { g with
      carriedBcast := true
      bcastMarked := msg.isSealed
      sawBcastPlain := g.sawBcastPlain || visible body msg.data .bcast }
  else g

/-- `BcastHub::PeekP2PeerMsg`, as far as its flags go. -/
def peekP2PeerMsg (body : Phase → List UInt8) (eRole : Role) (pMsg : Option Message)
    (g : MidFlags) : MidFlags :=
  match pMsg with
  | none => g
  | some msg =>
    if 0 < (msg.data.map List.length).getD 0 ∧ eRole = .mid then
      noteRouting body msg
        { g with
          nMidBodies := g.nMidBodies + 1
          sawShortPlain := g.sawShortPlain || visible body msg.data .short }
    else g

/-! ## Section 3: What the scan sees -/

theorem contains_iff (data sNeedle : List UInt8) :
    contains (some data) sNeedle = true ↔ sNeedle ≠ [] ∧ sNeedle <:+: data := by
  unfold contains
  dsimp only
  split
  · next hskip =>
    constructor
    · intro h
      exact absurd h (by decide)
    · intro h
      obtain ⟨hne, hinfix⟩ := h
      rcases hskip with hempty | hshort
      · exact absurd hempty hne
      · have hle := hinfix.length_le
        omega
  · next hsearch =>
    rw [occursIn_iff]
    exact ⟨fun h => ⟨fun hempty => hsearch (Or.inl hempty), h⟩, fun h => h.2⟩

/-- What is left of a body that is cut off behind its tag. -/
structure Truncated (pszTag : CStr) (cbTotal : Nat) (piece : List UInt8) : Prop where
  fits : pszTag.length ≤ cbTotal
  isPiece : piece <+: makeBody pszTag cbTotal
  hasTag : pszTag.length ≤ piece.length

/-- When a piece of a body is recognised. -/
structure Recognised (body : Phase → List UInt8) (phase : Phase) (piece : List UInt8) : Prop where
  /-- In what a carrier holds: when it holds the whole body. -/
  onData : ∀ data, piece <:+: data →
    (visible body (some data) phase = true ↔ body phase ≠ [] ∧ body phase <:+: data)
  /-- In everything that it may hold: when it is the whole body. -/
  onAll : (∀ data, piece <:+: data → visible body (some data) phase = true) ↔
    piece = body phase ∧ piece ≠ []

/-- **Truncated bodies**: a piece of a body is recognised just when the carrier holds all
    of the body. -/
theorem truncated_recognised_iff {body : Phase → List UInt8} {phase : Phase} {pszTag : CStr}
    {cbTotal : Nat} (hbody : body phase = makeBody pszTag cbTotal) {piece : List UInt8}
    (hpiece : Truncated pszTag cbTotal piece) : Recognised body phase piece where
  onData := fun data _ => contains_iff data (body phase)
  onAll := by
    have hprefix : piece <+: body phase := by
      rw [hbody]
      exact hpiece.isPiece
    constructor
    · intro h
      -- the piece alone is one of the things that the carrier may hold
      obtain ⟨hne, hinfix⟩ := (contains_iff _ _).mp (h piece (List.infix_refl piece))
      have hwhole : piece = body phase :=
        hprefix.eq_of_length (Nat.le_antisymm hprefix.length_le hinfix.length_le)
      refine ⟨hwhole, ?_⟩
      rw [hwhole]
      exact hne
    · intro h data hdata
      obtain ⟨hwhole, hne⟩ := h
      rw [hwhole] at hne hdata
      exact (contains_iff _ _).mpr ⟨hne, hdata⟩

/-- The unicast body, cut off behind its tag. -/
theorem tag_recognised_iff : Recognised sBody .uni Phase.uni.tag :=
  truncated_recognised_iff rfl
    { fits := by decide
      isPiece := List.prefix_append _ _
      hasTag := Nat.le_refl _ }

/-- **The tag alone is not recognised**, though it names the phase. -/
theorem truncated_body_is_missed :
    ¬ ∀ (body : Phase → List UInt8) (phase : Phase) (pszTag : CStr) (cbTotal : Nat)
      (piece data : List UInt8), body phase = makeBody pszTag cbTotal →
      Truncated pszTag cbTotal piece → piece <:+: data →
      visible body (some data) phase = true := by
  intro hclaim
  have hpiece : Truncated Phase.uni.tag 400 Phase.uni.tag :=
    { fits := by decide
      isPiece := List.prefix_append _ _
      hasTag := Nat.le_refl _ }
  have hseen := hclaim sBody .uni _ _ _ _ rfl hpiece (List.infix_refl _)
  -- the scan looks for 400 bytes in 28
  have hle := ((contains_iff _ _).mp hseen).2.length_le
  revert hle
  decide +kernel

end SealBcast
