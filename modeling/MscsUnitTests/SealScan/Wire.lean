import MscsUnitTests.Lib.Files
import MscsUnitTests.Lib.Search

/-! # The Wire Scan: No Plaintext in a Forwarded Frame

    `p2p_sealwire.cpp` sends a body that is one pattern repeated, and the hub in the
    middle looks for the pattern in the whole frame, free blocks included. What it finds
    is the verdict on the seal.

    A fragment of the body may begin at any place of the pattern. From 51 bytes on it
    has the whole pattern in it (`infix_of_repeated`), and the search misses no place
    (`occursIn_iff`).
-/

open CFiles ByteSearch

namespace SealWire

/-! ## Section 1: The scan -/

/-- `kNeedle`. -/
def kNeedle : CStr := cstr "PLAINTEXT-artichoke-90210-"

/-- `kCarolAddr`, as the wire carries it: units of 16 bits. -/
def carolUnits : List UInt8 := (cstr "Seal.Carol").flatMap fun c => [c, 0]

/-- `Contains`. `none` is a null pointer. -/
def contains (pv : Option (List UInt8)) (needle : List UInt8) : Bool :=
  match pv with
  | none => false
  | some data =>
    if data.length < needle.length ∨ needle.length = 0 then false else occursIn needle data

/-- `MakeBody`. -/
def makeBody (cb : Nat) : List UInt8 := repeated kNeedle cb

inductive Role where
  | alice | middle | carol
  deriving DecidableEq

/-- What `PeekP2PeerMsg` asks of a message. -/
structure Message where
  dataSize : Nat
  isSealed : Bool
  /-- `PrepareP2Piomage(~0)` and `P2PiomageSize`: the frame. -/
  image : Option (List UInt8)

/-- What the middle hub has seen. -/
structure Sightings where
  /-- `g_bMidSawSealed`. -/
  sealedBody : Bool
  /-- `g_bMidSawPlain`. -/
  plain : Bool
  /-- `g_bMidSawAddress`. -/
  address : Bool
  cbMidFrame : Nat
  cbMidBody : Nat

/-- `WireHub::PeekP2PeerMsg`. -/
def peekP2PeerMsg (eRole : Role) (pMsg : Option Message) (g : Sightings) : Sightings :=
  match pMsg with
  | none => g
  | some msg =>
    if eRole = .middle ∧ msg.dataSize > 0 then
      { sealedBody := g.sealedBody || msg.isSealed
        plain := g.plain || contains msg.image kNeedle
        address := g.address || contains msg.image carolUnits
        cbMidFrame := (msg.image.map List.length).getD 0
        cbMidBody := msg.dataSize }
    else g

/-! ## Section 2: What it finds -/

theorem contains_iff {data needle : List UInt8} (hneedle : needle ≠ []) :
    contains (some data) needle = true ↔ needle <:+: data := by
  have hpos : 0 < needle.length := List.length_pos_iff.mpr hneedle
  unfold contains
  dsimp only
  split
  · next hshort =>
    constructor
    · intro h
      exact absurd h (by decide)
    · intro h
      have hle := h.length_le
      omega
  · exact occursIn_iff needle data

theorem kNeedle_ne_nil : kNeedle ≠ [] := by decide

/-- A frame with a fragment of the body that is long enough has the needle. -/
theorem contains_of_fragment {cb : Nat} {frame fragment : List UInt8}
    (hbody : fragment <:+: makeBody cb) (hlen : 51 ≤ fragment.length)
    (hframe : fragment <:+: frame) : contains (some frame) kNeedle = true := by
  have hwhole : kNeedle <:+: fragment := infix_of_repeated kNeedle_ne_nil hbody hlen
  exact (contains_iff kNeedle_ne_nil).mpr (hwhole.trans hframe)

/-- The middle hub then says so. -/
theorem peek_sees_fragment {cb : Nat} {frame fragment : List UInt8} {msg : Message} (g : Sightings)
    (himage : msg.image = some frame) (hsize : 0 < msg.dataSize)
    (hbody : fragment <:+: makeBody cb) (hlen : 51 ≤ fragment.length)
    (hframe : fragment <:+: frame) :
    (peekP2PeerMsg .middle (some msg) g).plain = true := by
  have hcond : Role.middle = .middle ∧ msg.dataSize > 0 := ⟨rfl, hsize⟩
  unfold peekP2PeerMsg
  dsimp only
  rw [if_pos hcond, himage, contains_of_fragment hbody hlen hframe]
  exact Bool.or_true _

/-- What the scan is for. -/
structure ScanFinds : Prop where
  /-- It finds the needle where it is, and only there. -/
  exact : ∀ frame : List UInt8, contains (some frame) kNeedle = true ↔ kNeedle <:+: frame
  /-- And with it every fragment of a body that is not shorter than 51 bytes. -/
  fragments : ∀ (cb : Nat) (frame fragment : List UInt8), fragment <:+: makeBody cb →
    51 ≤ fragment.length → fragment <:+: frame → contains (some frame) kNeedle = true

/-- **The wire scan** finds every plaintext fragment that is long enough to hold the
    needle. -/
theorem wire_scan_finds : ScanFinds where
  exact := fun _ => contains_iff kNeedle_ne_nil
  fragments := fun _ _ _ hbody hlen hframe => contains_of_fragment hbody hlen hframe

/-- With one byte less it need not: the 50 bytes behind the first one. -/
example : contains (some (((makeBody 51).drop 1).take 50)) kNeedle = false := by decide

end SealWire
