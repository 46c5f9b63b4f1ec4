import Mathlib.Algebra.BigOperators.Group.List.Basic
import Mathlib.Data.UInt
import MscsUnitTests.Seal.Scheme

/-! # The Seal Vectors: A Scheme of Sums

    A scheme, and a library for either build that keeps to it, so that what is assumed of a
    library can be met. A private blob is `X`, `Y` and `d`, a byte each, and the point of `d`
    is `(d, d)`. The bytes of a body behind its header add up to the addresses and the sender.
-/

open ByteMem CFiles Unicode

namespace Seal

/-! ## Section 1: The scheme -/

/-- The point of a blob. -/
def sumPoint (blob : List UInt8) : Option (List UInt8) :=
  if blob = List.replicate 3 (blob.getD 2 0) then some (blob.take 2) else none

/-- What binds the sender and the addresses. -/
def sumBind (senderPub : List UInt8) (src dst : List Char) : UInt8 :=
  senderPub.sum + UInt8.ofNat (src.map scalar).sum + UInt8.ofNat (2 * (dst.map scalar).sum + dst.length)

def sumBody (senderPub recipPub : List UInt8) (src dst : List Char) (plain : List UInt8) :
    List UInt8 :=
  recipPub ++ 0 :: (plain ++ [sumBind senderPub src dst - plain.sum])

theorem sumBody_sum (senderPub recipPub : List UInt8) (src dst : List Char)
    (plain : List UInt8) :
    (sumBody senderPub recipPub src dst plain).sum =
      recipPub.sum + sumBind senderPub src dst := by
  simp [sumBody]

theorem sumBody_length (senderPub recipPub : List UInt8) (src dst : List Char)
    (plain : List UInt8) :
    (sumBody senderPub recipPub src dst plain).length = recipPub.length + plain.length + 2 := by
  simp [sumBody]
  omega

/-- One character more changes the sum by an odd number. -/
theorem sumBind_moved (senderPub : List UInt8) (src dst : List Char) (c : Char) :
    sumBind senderPub src (dst ++ [c]) ≠ sumBind senderPub src dst := by
  unfold sumBind
  intro h
  have hsum := add_left_cancel h
  have hnat := congrArg UInt8.toNat hsum
  simp only [UInt8.toNat_ofNat', List.map_append, List.sum_append, List.map_singleton,
    List.sum_singleton, List.length_append, List.length_singleton] at hnat
  omega

def sumScheme : SealScheme where
  identityPub := sumPoint
  agreementPub := sumPoint
  Sealed senderPub recipPub src dst plain body :=
    recipPub.length = 2 ∧ body = sumBody senderPub recipPub src dst plain
  Container container blob := container = blob ∧ (sumPoint blob).isSome
  header := 3
  long := by
    intro senderPub recipPub src dst plain body ⟨hlen, hbody⟩
    rw [hbody, sumBody_length]
    omega
  tamper := by
    intro senderPub recipPub src dst plain plain' body i b ⟨_, hbody⟩ hi hb ⟨_, hbody'⟩
    -- both bodies add up to the same, and only one byte is another
    have hsum := congrArg List.sum hbody'
    rw [sumBody_sum, List.sum_set', dif_pos hi, ← sumBody_sum _ _ _ _ plain, ← hbody] at hsum
    have hbyte : body[i] = b := neg_add_eq_zero.mp (add_eq_left.mp hsum)
    exact hb (by rw [← hbyte, List.getElem?_eq_getElem hi])
  moved := by
    intro senderPub recipPub src dst plain plain' body c ⟨_, hbody⟩ ⟨_, hbody'⟩
    have hsum := congrArg List.sum hbody
    rw [hbody', sumBody_sum, sumBody_sum] at hsum
    exact sumBind_moved senderPub src dst c (add_left_cancel hsum)
  container_ne := by
    intro container blob ⟨hcontainer, hpoint⟩ hnil
    rw [← hcontainer, hnil] at hpoint
    cases hpoint

/-! ## Section 2: The library -/

/-- A blob is imported when it has a point. -/
def importPoint (key blob : List UInt8) : Bool × List UInt8 :=
  if (sumPoint blob).isSome then (true, blob) else (false, key)

/-- A body is opened when it is the one of what is in it. -/
def sumOpen (key pub : List UInt8) (src dst : List Char) (body : List UInt8) (cap : Nat) :
    Written :=
  let plain := (body.drop 3).dropLast
  if body ≠ sumBody pub (key.take 2) src dst plain then
    ⟨.error (cstr "does not verify"), ofBytes [], 0⟩
  else if cap < plain.length then ⟨.error (cstr "no room"), ofBytes [], 0⟩
  else ⟨.SealOk, ofBytes plain, plain.length⟩

def sumSeal (key pub : List UInt8) (src dst : List Char) (plain : List UInt8) (cap : Nat) :
    Written :=
  let body := sumBody (key.take 2) pub src dst plain
  if cap < body.length then ⟨.error (cstr "no room"), ofBytes [], 0⟩
  else ⟨.SealOk, ofBytes body, body.length⟩

/-- The addresses that two wide strings denote, handed on. -/
def withAddresses (w : WcharBuild) (wSrc wDst : List Nat) (f : List Char → List Char → Written) :
    Written :=
  match w.denotes wSrc, w.denotes wDst with
  | some src, some dst => f src dst
  | _, _ => ⟨.error (cstr "no address"), ofBytes [], 0⟩

theorem withAddresses_encode (w : WcharBuild) (src dst : List Char)
    (f : List Char → List Char → Written) :
    withAddresses w (w.encode src) (w.encode dst) f = f src dst := by
  unfold withAddresses
  rw [denotes_encode, denotes_encode]

/-- The library of a build, over keys that are their own blobs. -/
def schemeLib (w : WcharBuild) : SealLib (List UInt8) (List UInt8) where
  kSealEphLen := 2
  kSealNonceLen := 1
  openedSize cb := cb - 4
  sealedSize cb := cb + 4
  ecdhNew := []
  ecdhImportPrivate := importPoint
  ecdhExportPublic := exportBlob 2
  ecdsaNew := []
  ecdsaImportPrivate := importPoint
  ecdsaExportPublic := exportBlob 2
  ecdsaExportPrivate := exportBlob 3
  openBody key pub wSrc wDst body cap :=
    withAddresses w wSrc wDst fun src dst => sumOpen key pub src dst body cap
  sealBody key pub wSrc wDst plain cap :=
    withAddresses w wSrc wDst fun src dst => sumSeal key pub src dst plain cap
  loadIdentity bytes :=
    ((if (importPoint [] bytes).1 = true then .IdOk else .error (cstr "no identity")),
      (importPoint [] bytes).2)

/-! ## Section 3: It keeps to the scheme -/

/-- What stands in a body behind its header and ahead of the sum. -/
theorem sumBody_plain (senderPub : List UInt8) {recipPub : List UInt8} (src dst : List Char)
    (plain : List UInt8) (hlen : recipPub.length = 2) :
    ((sumBody senderPub recipPub src dst plain).drop 3).dropLast = plain := by
  unfold sumBody
  rw [List.drop_append, List.drop_of_length_le (by omega), hlen]
  simp

/-- A blob with a point has three bytes, the first two of which are the point. -/
theorem sumPoint_eq_some {blob pub : List UInt8} (h : sumPoint blob = some pub) :
    blob.length = 3 ∧ pub = blob.take 2 := by
  unfold sumPoint at h
  split at h
  · next hblob =>
    cases h
    refine ⟨?_, rfl⟩
    rw [hblob]
    simp
  · cases h

theorem exportBlob_eq {cb : Nat} (blob : List UInt8) (h : blob.length = 3) (hcb : cb ≤ 3) :
    ∃ m, exportBlob cb blob = some m ∧ firstBytes m cb = blob.take cb := by
  have hne : blob ≠ [] := by
    intro hnil
    rw [hnil] at h
    cases h
  have hlen : (blob.take cb).length = cb := by
    rw [List.length_take, h, Nat.min_eq_left hcb]
  have hbytes := firstBytes_ofBytes (blob.take cb)
  rw [hlen] at hbytes
  exact ⟨_, if_neg hne, hbytes⟩

/-- The key that is held is the blob, which has a point. -/
def HoldsBlob (o blob : List UInt8) : Prop := o = blob ∧ (sumPoint blob).isSome

theorem importPoint_fst (key blob : List UInt8) :
    (importPoint key blob).1 = (sumPoint blob).isSome := by
  unfold importPoint
  split
  · next hpoint => exact hpoint.symm
  · next hpoint => exact (Bool.eq_false_iff.mpr hpoint).symm

theorem importPoint_holds {key blob : List UInt8} (h : (importPoint key blob).1 = true) :
    HoldsBlob (importPoint key blob).2 blob := by
  rw [importPoint_fst] at h
  refine ⟨?_, h⟩
  unfold importPoint
  rw [if_pos h]

/-- Such a key exports its point. -/
theorem HoldsBlob.export_point {o blob : List UInt8} (h : HoldsBlob o blob) :
    ∃ m, exportBlob 2 o = some m ∧ sumPoint blob = some (firstBytes m 2) := by
  obtain ⟨rfl, hpoint⟩ := h
  obtain ⟨pub, hpub⟩ := Option.isSome_iff_exists.mp hpoint
  obtain ⟨hlen, rfl⟩ := sumPoint_eq_some hpub
  obtain ⟨m, hm, hbytes⟩ := exportBlob_eq o hlen (by omega : 2 ≤ 3)
  exact ⟨m, hm, by rw [hpub, hbytes]⟩

theorem HoldsBlob.length {o blob : List UInt8} (h : HoldsBlob o blob) : blob.length = 3 := by
  obtain ⟨pub, hpub⟩ := Option.isSome_iff_exists.mp h.2
  exact (sumPoint_eq_some hpub).1

/-- What is sealed with two bytes for the recipient is as long as it is. -/
theorem sumScheme_length {senderPub recipPub : List UInt8} {src dst : List Char}
    {plain body : List UInt8} (h : sumScheme.Sealed senderPub recipPub src dst plain body) :
    body.length = plain.length + 4 := by
  rw [h.2, sumBody_length, h.1]
  omega

def schemeImpl (w : WcharBuild) : Implementation sumScheme w ⟨3, 2, 3, 2⟩ (schemeLib w) where
  AgreementKey := HoldsBlob
  IdentityKey := HoldsBlob
  header := rfl
  importAgreement := importPoint_fst []
  agreement := importPoint_holds
  importIdentity := importPoint_fst []
  identity := importPoint_holds
  agreementPoint := HoldsBlob.export_point
  identityPoint := HoldsBlob.export_point
  identityBlob := by
    intro o blob h
    obtain ⟨m, hm, hbytes⟩ := exportBlob_eq blob h.length (Nat.le_refl 3)
    rw [h.1]
    refine ⟨m, hm, ?_⟩
    show firstBytes m 3 = blob
    rw [hbytes, List.take_of_length_le (Nat.le_of_eq h.length)]
  opens := by
    intro o blob senderPub recipPub src dst plain body cap ⟨ho, _⟩ hpub hsealed hcap
    obtain ⟨_, hpoint⟩ := sumPoint_eq_some hpub
    have hplain := sumBody_plain senderPub src dst plain hsealed.1
    refine ⟨ofBytes plain, ?_, firstBytes_ofBytes plain⟩
    unfold schemeLib sumOpen
    dsimp only
    rw [withAddresses_encode, hsealed.2, hplain, ho, ← hpoint, if_neg (fun h => h rfl),
      if_neg (by omega)]
  opened := by
    intro o blob senderPub recipPub src dst body cap buf cbOut ⟨ho, _⟩ hpub hopen
    obtain ⟨hlen, hpoint⟩ := sumPoint_eq_some hpub
    unfold schemeLib sumOpen at hopen
    dsimp only at hopen
    rw [withAddresses_encode, ho, ← hpoint] at hopen
    split at hopen
    · cases hopen
    · next hbody =>
      split at hopen
      · cases hopen
      · next hcap =>
        cases hopen
        rw [firstBytes_ofBytes]
        refine ⟨by omega, ?_, not_not.mp hbody⟩
        rw [hpoint, List.length_take, hlen]
        rfl
  openedSize := by
    intro senderPub recipPub src dst plain body hsealed
    show plain.length ≤ body.length - 4
    rw [sumScheme_length hsealed]
    omega
  seals := by
    intro o blob senderPub recipBlob recipPub cap src dst plain ⟨ho, _⟩ hid hpub hcap
    obtain ⟨hlen, hpoint⟩ := sumPoint_eq_some hid
    obtain ⟨hlen', hpoint'⟩ := sumPoint_eq_some hpub
    have hrecip : recipPub.length = 2 := by
      rw [hpoint', List.length_take, hlen']
      rfl
    have hcap' : plain.length + 4 ≤ cap := hcap
    have hbody := sumBody_length senderPub recipPub src dst plain
    refine ⟨ofBytes (sumBody senderPub recipPub src dst plain), _, ?_, ?_, hrecip,
      firstBytes_ofBytes _⟩
    · unfold schemeLib sumSeal
      dsimp only
      rw [withAddresses_encode, ho, ← hpoint, if_neg (by omega)]
    · omega
  loads := by
    intro container blob ⟨hcontainer, hpoint⟩
    have himport : (importPoint [] container).1 = true := by
      rw [importPoint_fst, hcontainer, hpoint]
    have hkey := importPoint_holds himport
    rw [← hcontainer]
    exact ⟨if_pos himport, hkey⟩
  loaded := by
    intro container hok
    have himport : (importPoint [] container).1 = true := by
      by_contra hno
      have hno' : (schemeLib w).loadIdentity container = (.error (cstr "no identity"), _) :=
        Prod.ext (if_neg hno) rfl
      rw [hno'] at hok
      cases hok
    have hkey := importPoint_holds himport
    exact ⟨container, ⟨rfl, hkey.2⟩, hkey⟩

end Seal
