import MscsUnitTests.Seal.Verify

/-! # The Seal Vectors: What a Vector Promises

    A sealed body, a private blob and an identity container mean something apart from the
    library that made them, and `seal_interop.cpp` makes sure that the library of either
    backend means the same.

    * `SealScheme`: the meaning, and what sealing is good for.
    * `Implementation`: a library that keeps to it, on a build.
    * `Genuine`: a vector that is what it says.
    * `verifyFields_clean_iff`: the checks of `Verify` decide whether it is.
-/

open ByteMem CFiles CheckedVectors Unicode

namespace Seal

/-! ## Section 1: The scheme -/

/-- What the two backends have to agree on. -/
structure SealScheme where
  /-- The point of an identity blob `X || Y || d`, if it is one. -/
  identityPub : List UInt8 → Option (List UInt8)
  /-- The same for an agreement blob. -/
  agreementPub : List UInt8 → Option (List UInt8)
  /-- A body that a sender sealed for a recipient, from an address to another. -/
  Sealed : (senderPub recipPub : List UInt8) → (src dst : List Char) →
    (plain body : List UInt8) → Prop
  /-- A container of an identity blob. -/
  Container : (container blob : List UInt8) → Prop
  /-- What stands in a body ahead of the ciphertext. -/
  header : Nat
  long {senderPub recipPub src dst plain body} :
    Sealed senderPub recipPub src dst plain body → header < body.length
  /-- No other body that differs in one byte is sealed as well. -/
  tamper {senderPub recipPub src dst plain plain' body} {i : Nat} {b : UInt8} :
    Sealed senderPub recipPub src dst plain body → i < body.length → body[i]? ≠ some b →
    ¬ Sealed senderPub recipPub src dst plain' (body.set i b)
  /-- The addresses are bound in: one more character is another destination. -/
  moved {senderPub recipPub src dst plain plain' body} {c : Char} :
    Sealed senderPub recipPub src dst plain body →
    ¬ Sealed senderPub recipPub src (dst ++ [c]) plain' body
  container_ne {container blob} : Container container blob → container ≠ []

/-- A library that means what the scheme says, on a build with this `wchar_t`. -/
structure Implementation (S : SealScheme) (w : WcharBuild) (K : KeyLens) {κ ε : Type}
    (L : SealLib κ ε) where
  /-- The key that is held is the one of the blob. -/
  AgreementKey : κ → List UInt8 → Prop
  IdentityKey : ε → List UInt8 → Prop
  header : L.kSealEphLen + L.kSealNonceLen = S.header
  /-- A blob is imported when it has a point. -/
  importAgreement (blob) :
    (L.ecdhImportPrivate L.ecdhNew blob).1 = (S.agreementPub blob).isSome
  agreement {blob} : (L.ecdhImportPrivate L.ecdhNew blob).1 = true →
    AgreementKey (L.ecdhImportPrivate L.ecdhNew blob).2 blob
  importIdentity (blob) :
    (L.ecdsaImportPrivate L.ecdsaNew blob).1 = (S.identityPub blob).isSome
  identity {blob} : (L.ecdsaImportPrivate L.ecdsaNew blob).1 = true →
    IdentityKey (L.ecdsaImportPrivate L.ecdsaNew blob).2 blob
  agreementPoint {o blob} : AgreementKey o blob →
    ∃ m, L.ecdhExportPublic o = some m ∧ S.agreementPub blob = some (firstBytes m K.ecdhPub)
  identityPoint {o blob} : IdentityKey o blob →
    ∃ m, L.ecdsaExportPublic o = some m ∧ S.identityPub blob = some (firstBytes m K.ecdsaPub)
  identityBlob {o blob} : IdentityKey o blob →
    ∃ m, L.ecdsaExportPrivate o = some m ∧ firstBytes m K.ecdsaPriv = blob
  /-- A body that is sealed is opened, when there is room for what is in it. -/
  opens {o blob senderPub recipPub src dst plain body cap} : AgreementKey o blob →
    S.agreementPub blob = some recipPub → S.Sealed senderPub recipPub src dst plain body →
    plain.length ≤ cap →
    ∃ buf, L.openBody o senderPub (w.encode src) (w.encode dst) body cap =
      ⟨.SealOk, buf, plain.length⟩ ∧ firstBytes buf plain.length = plain
  /-- And no other is. -/
  opened {o blob senderPub recipPub src dst body cap buf cbOut} : AgreementKey o blob →
    S.agreementPub blob = some recipPub →
    L.openBody o senderPub (w.encode src) (w.encode dst) body cap = ⟨.SealOk, buf, cbOut⟩ →
    cbOut ≤ cap ∧ S.Sealed senderPub recipPub src dst (firstBytes buf cbOut) body
  openedSize {senderPub recipPub src dst plain body} :
    S.Sealed senderPub recipPub src dst plain body → plain.length ≤ L.openedSize body.length
  seals {o blob senderPub recipBlob recipPub cap} (src dst plain) : IdentityKey o blob →
    S.identityPub blob = some senderPub → S.agreementPub recipBlob = some recipPub →
    L.sealedSize plain.length ≤ cap →
    ∃ buf cbOut, L.sealBody o recipPub (w.encode src) (w.encode dst) plain cap =
      ⟨.SealOk, buf, cbOut⟩ ∧ cbOut ≤ cap ∧
      S.Sealed senderPub recipPub src dst plain (firstBytes buf cbOut)
  loads {container blob} : S.Container container blob →
    (L.loadIdentity container).1 = .IdOk ∧ IdentityKey (L.loadIdentity container).2 blob
  loaded (container) : (L.loadIdentity container).1 = .IdOk →
    ∃ blob, S.Container container blob ∧ IdentityKey (L.loadIdentity container).2 blob

/-- A vector that is what it says. -/
structure Genuine (S : SealScheme) (f : Fields) (src dst : List Char) : Prop where
  body : S.Sealed f.senderPub f.recipPub src dst f.plain f.sealed
  agreement : S.agreementPub f.recipPriv = some f.recipPub
  identity : S.identityPub f.senderPriv = some f.senderPub
  container : S.Container f.container f.senderPriv

/-! ## Section 2: Addresses as they are passed -/

/-- `c_str()` keeps the address: nothing in it ends it. -/
def NoNul (cs : List Char) : Prop := ∀ c ∈ cs, scalar c ≠ 0

theorem noNul_of_all {cs : List Char} (h : (cs.all fun c => scalar c != 0) = true) : NoNul cs := by
  simpa [NoNul] using h

theorem wideCStr_encode (w : WcharBuild) {cs : List Char} (h : NoNul cs) :
    wideCStr (w.encode cs) = w.encode cs := by
  unfold wideCStr
  rw [List.takeWhile_eq_self_iff]
  induction cs with
  | nil =>
    intro u hu
    cases w <;> cases hu
  | cons c cs ih =>
    have hc : scalar c ≠ 0 := h c List.mem_cons_self
    have hpush : ∀ u ∈ w.push (scalar c), u ≠ 0 := by
      intro u hu
      cases w with
      | four =>
        rw [List.mem_singleton.mp hu]
        exact hc
      | two =>
        unfold WcharBuild.push at hu
        dsimp only at hu
        split at hu
        · rcases List.mem_cons.mp hu with rfl | hu
          · omega
          · rw [List.mem_singleton.mp hu]
            omega
        · rw [List.mem_singleton.mp hu]
          exact hc
    intro u hu
    rw [encode_cons, List.mem_append] at hu
    rcases hu with hu | hu
    · simpa using hpush u hu
    · exact ih (fun c' hc' => h c' (List.mem_cons_of_mem _ hc')) u hu

/-- `wDst + L"X"` is another address. -/
theorem encode_moved (w : WcharBuild) (dst : List Char) :
    w.encode dst ++ [88] = w.encode (dst ++ ['X']) := by
  cases w with
  | four => simp [WcharBuild.encode, utf32, scalar]
  | two =>
    have hX : utf16Char 'X' = [88] := by decide
    simp [WcharBuild.encode, utf16, hX]

theorem NoNul.moved {dst : List Char} (h : NoNul dst) : NoNul (dst ++ ['X']) := by
  intro c hc
  rcases List.mem_append.mp hc with hc | hc
  · exact h c hc
  · rw [List.mem_singleton.mp hc]
    decide

/-! ## Section 3: When each check passes -/

/-- A check passes when what it tests is true. -/
theorem clean_check {x : Checked Vect Bool} {g : Bool → Report} {n : Nat} (pszName : CStr)
    (hg : ∀ b, (g b).g_fail = n) :
    Clean (x >>= fun bOk => pure (check bOk pszName (g bOk))) Report.g_fail n ↔ x = .ok true := by
  refine clean_test (hg true) ?_
  rw [check_false, hg false]

theorem Written.ext {r : Written} {e : SealResult} {buf : Mem} {cbOut : Nat} (he : r.e = e)
    (hbuf : r.buf = buf) (hout : r.cbOut = cbOut) : r = ⟨e, buf, cbOut⟩ := by
  subst he hbuf hout
  rfl

theorem opensTo_true_iff (r : Written) (cap : Nat) (plain : List UInt8) :
    opensTo r cap plain = .ok true ↔
      r.e = .SealOk ∧ r.cbOut = plain.length ∧ r.cbOut ≤ cap ∧ firstBytes r.buf r.cbOut = plain := by
  unfold opensTo
  by_cases hopened : r.e = .SealOk ∧ r.cbOut = plain.length
  · rw [if_pos hopened, sameFirst_true_iff, firstBytes_length]
    have hplain : plain.take r.cbOut = plain := by
      rw [hopened.2, List.take_length]
    rw [hplain]
    constructor
    · intro ⟨hcap, _, hsame⟩
      rw [firstBytes_take, Nat.min_eq_left hcap] at hsame
      exact ⟨hopened.1, hopened.2, hcap, hsame⟩
    · intro ⟨_, hlen, hcap, hsame⟩
      rw [firstBytes_take, Nat.min_eq_left hcap]
      exact ⟨hcap, Nat.le_of_eq hlen, hsame⟩
  · rw [if_neg hopened]
    constructor
    · intro h
      cases h
    · intro h
      exact absurd ⟨h.1, h.2.1⟩ hopened

theorem sameExport_true_iff {exported : Option Mem} {arr vec : Vect} {v : List UInt8} {cb : Nat}
    (hv : v.length = cb) :
    sameExport exported arr vec v cb = .ok true ↔
      ∃ p, exported = some p ∧ firstBytes p cb = v := by
  cases exported with
  | none =>
    constructor
    · intro h
      cases h
    · intro ⟨_, h, _⟩
      cases h
  | some p =>
    show sameFirst arr vec (firstBytes p cb) v cb = .ok true ↔ _
    have hlen : (firstBytes p cb).length = cb := firstBytes_length p cb
    rw [sameFirst_true_iff, List.take_of_length_le (Nat.le_of_eq hlen),
      List.take_of_length_le (Nat.le_of_eq hv)]
    constructor
    · intro h
      exact ⟨p, rfl, h.2.2⟩
    · intro ⟨p', hp, hsame⟩
      cases hp
      exact ⟨Nat.le_of_eq hlen.symm, Nat.le_of_eq hv.symm, hsame⟩

section checks
variable {S : SealScheme} {w : WcharBuild} {K : KeyLens} {κ ε : Type} {L : SealLib κ ε}
  (I : Implementation S w K L) {f : Fields} {src dst : List Char} {o : κ}
  {recipPub : List UInt8}

include I

theorem openForeign_clean (hsrc : NoNul src) (hdst : NoNul dst)
    (hkey : I.AgreementKey o f.recipPriv) (hpub : S.agreementPub f.recipPriv = some recipPub)
    (s : Report) :
    Clean (openForeign L f (w.encode src) (w.encode dst) o s) Report.g_fail s.g_fail ↔
      S.Sealed f.senderPub recipPub src dst f.plain f.sealed := by
  unfold openForeign
  dsimp only
  rw [clean_check, opensTo_true_iff, wideCStr_encode w hsrc, wideCStr_encode w hdst]
  · constructor
    · intro ⟨he, hlen, _, hplain⟩
      have hsealed := (I.opened hkey hpub (Written.ext he rfl rfl)).2
      rwa [hplain] at hsealed
    · intro hsealed
      obtain ⟨buf, hopen, hplain⟩ :=
        I.opens hkey hpub hsealed (Nat.le_succ_of_le (I.openedSize hsealed))
      rw [hopen]
      exact ⟨rfl, rfl, Nat.le_succ_of_le (I.openedSize hsealed), hplain⟩
  · intro bOk
    split <;> rfl

/-- A body that is not sealed is refused. -/
theorem refused_of_not_sealed (hkey : I.AgreementKey o f.recipPriv)
    (hpub : S.agreementPub f.recipPriv = some recipPub) {senderPub body : List UInt8} {cap : Nat}
    (hnot : ∀ plain, ¬ S.Sealed senderPub recipPub src dst plain body) :
    (L.openBody o senderPub (w.encode src) (w.encode dst) body cap).e ≠ .SealOk := by
  intro he
  exact hnot _ (I.opened hkey hpub (Written.ext he rfl rfl)).2

theorem rejectFlipped_clean (hsrc : NoNul src) (hdst : NoNul dst)
    (hkey : I.AgreementKey o f.recipPriv) (hpub : S.agreementPub f.recipPriv = some recipPub)
    (hsealed : S.Sealed f.senderPub recipPub src dst f.plain f.sealed) (s : Report) :
    Clean (rejectFlipped L f (w.encode src) (w.encode dst) o s) Report.g_fail s.g_fail := by
  have hlong := S.long hsealed
  rw [← I.header] at hlong
  unfold rejectFlipped modifyAt touch
  rw [if_pos (Nat.succ_le_of_lt hlong), wideCStr_encode w hsrc, wideCStr_encode w hdst]
  refine ⟨_, rfl, ?_⟩
  rw [decide_eq_true]
  · rfl
  · apply refused_of_not_sealed I hkey hpub
    intro plain
    rw [List.modify_eq_set]
    apply S.tamper hsealed hlong
    -- a flipped bit is another byte
    have hflip : ∀ n < 256, UInt8.ofNat n ≠ UInt8.ofNat n ^^^ 0x01 := by decide +kernel
    rw [List.getElem?_eq_getElem hlong, Option.getD_some]
    intro heq
    have hbyte := hflip _ (f.sealed[L.kSealEphLen + L.kSealNonceLen]).toNat_lt
    rw [UInt8.ofNat_toNat] at hbyte
    exact hbyte (Option.some.inj heq)

theorem rejectMoved_clean (hsrc : NoNul src) (hdst : NoNul dst)
    (hkey : I.AgreementKey o f.recipPriv) (hpub : S.agreementPub f.recipPriv = some recipPub)
    (hsealed : S.Sealed f.senderPub recipPub src dst f.plain f.sealed) (s : Report) :
    (rejectMoved L f (w.encode src) (w.encode dst) o s).g_fail = s.g_fail := by
  unfold rejectMoved
  dsimp only
  rw [encode_moved, wideCStr_encode w hsrc, wideCStr_encode w hdst.moved, decide_eq_true]
  · rfl
  · apply refused_of_not_sealed I hkey hpub
    exact fun plain => S.moved hsealed

theorem samePoint_clean (hkey : I.AgreementKey o f.recipPriv)
    (hpub : S.agreementPub f.recipPriv = some recipPub) (hlen : f.recipPub.length = K.ecdhPub)
    (s : Report) :
    Clean (samePoint L K f o s) Report.g_fail s.g_fail ↔ recipPub = f.recipPub := by
  obtain ⟨m, hexport, hpoint⟩ := I.agreementPoint hkey
  unfold samePoint
  rw [clean_check _ fun _ => rfl, sameExport_true_iff hlen, hexport]
  rw [hpub] at hpoint
  cases hpoint
  constructor
  · intro ⟨p, hp, hsame⟩
    cases hp
    exact hsame
  · intro hsame
    exact ⟨m, rfl, hsame⟩

theorem sameIdentity_clean (hlen : f.senderPub.length = K.ecdsaPub) (s : Report) :
    Clean (sameIdentity L K f s) (fun q => q.2.g_fail) s.g_fail ↔
      S.identityPub f.senderPriv = some f.senderPub := by
  unfold sameIdentity
  refine (clean_test rfl (check_false _ s)).trans ?_
  rw [sameExport_true_iff hlen]
  by_cases himport : (L.ecdsaImportPrivate L.ecdsaNew f.senderPriv).1 = true
  · obtain ⟨m, hexport, hpoint⟩ := I.identityPoint (I.identity himport)
    rw [if_pos himport, hexport, hpoint, Option.some.injEq]
    constructor
    · intro ⟨p, hp, hsame⟩
      cases hp
      exact hsame
    · intro hsame
      exact ⟨m, rfl, hsame⟩
  · rw [if_neg himport]
    have hnone : S.identityPub f.senderPriv = none := by
      rw [I.importIdentity] at himport
      simpa using himport
    rw [hnone]
    simp

omit I in
/-- The key that is sealed with is the one that was imported. -/
theorem sameIdentity_key {s : Report} {q : ε × Report} (h : sameIdentity L K f s = .ok q) :
    q.1 = (L.ecdsaImportPrivate L.ecdsaNew f.senderPriv).2 := by
  have hends : Ends (sameIdentity L K f s) fun q =>
      q.1 = (L.ecdsaImportPrivate L.ecdsaNew f.senderPriv).2 :=
    ends_bind_of_forall fun _ => ends_pure rfl
  exact hends q h

/-- What the fifth check needs is what the fourth has made sure of. -/
theorem reseal_clean (hsrc : NoNul src) (hdst : NoNul dst) {oSender : ε}
    (hkey : I.AgreementKey o f.recipPriv) (hpub : S.agreementPub f.recipPriv = some f.recipPub)
    (hsender : I.IdentityKey oSender f.senderPriv)
    (hid : S.identityPub f.senderPriv = some f.senderPub) (s : Report) :
    Clean (reseal L f (w.encode src) (w.encode dst) o oSender s) Report.g_fail s.g_fail := by
  obtain ⟨buf, cbOut, hseal, hfits, hsealed⟩ :=
    I.seals src dst f.plain hsender hid hpub (Nat.le_refl _)
  obtain ⟨buf', hopen, hplain⟩ := I.opens hkey hpub hsealed (Nat.le_succ f.plain.length)
  unfold reseal
  rw [clean_check _ fun _ => rfl]
  unfold reopened
  dsimp only
  rw [wideCStr_encode w hsrc, wideCStr_encode w hdst, hseal, if_pos rfl, firstBytes_take,
    Nat.min_eq_left hfits, hopen, opensTo_true_iff]
  exact ⟨rfl, rfl, Nat.le_succ _, hplain⟩

theorem loadContainer_clean (hlen : f.senderPriv.length = K.ecdsaPriv) (bWrote : Bool)
    (s : Report) :
    Clean (loadContainer L K f bWrote s) Report.g_fail s.g_fail ↔
      bWrote = true ∧ S.Container f.container f.senderPriv := by
  have hname : ∀ (pszName : CStr) (s' : Report), s'.g_fail = s.g_fail →
      ¬ Clean (pure (check false pszName s') : Checked Vect Report) Report.g_fail s.g_fail := by
    intro pszName s' hs'
    rw [clean_pure, check_false, hs']
    omega
  unfold loadContainer
  dsimp only
  cases bWrote with
  | false =>
    rw [if_neg Bool.false_ne_true]
    constructor
    · intro h
      exact absurd h (hname _ s rfl)
    · intro h
      cases h.1
  | true =>
    rw [if_pos rfl]
    split
    · next pszText o herror =>
      constructor
      · intro h
        exact absurd h (hname _ _ rfl)
      · intro h
        have hok := (I.loads h.2).1
        rw [herror] at hok
        cases hok
    · next oLoaded hloaded =>
      rw [clean_check _ fun _ => rfl, sameExport_true_iff hlen]
      constructor
      · -- the blob of the key that was loaded is the one of the container
        intro ⟨p, hp, hsame⟩
        obtain ⟨blob, hcontainer, hkey⟩ := I.loaded f.container (by rw [hloaded])
        rw [hloaded] at hkey
        obtain ⟨m, hexport, hblob⟩ := I.identityBlob hkey
        rw [hexport] at hp
        cases hp
        rw [← hsame, hblob]
        exact ⟨rfl, hcontainer⟩
      · intro h
        have hkey := (I.loads h.2).2
        rw [hloaded] at hkey
        obtain ⟨m, hexport, hblob⟩ := I.identityBlob hkey
        exact ⟨m, hexport, hblob⟩

end checks

/-! ## Section 4: When a vector passes -/

/-- The failures behind a vector, where one that could not be set up counts as well. -/
def failures (q : Nat × Report) : Nat := q.2.g_fail + if q.1 = 2 then 1 else 0

/-- The lengths that the field checks make sure of. -/
structure Fields.Exact (K : KeyLens) (f : Fields) : Prop where
  senderPriv : f.senderPriv.length = K.ecdsaPriv
  senderPub : f.senderPub.length = K.ecdsaPub
  recipPub : f.recipPub.length = K.ecdhPub

section vectors
variable {S : SealScheme} {w : WcharBuild} {K : KeyLens} {κ ε : Type} {L : SealLib κ ε}
  (I : Implementation S w K L) {f : Fields} {src dst : List Char}

include I

/-- **The checks decide whether a vector is genuine.** -/
theorem verifyFields_clean_iff (hf : f.Exact K) (hsrc : NoNul src) (hdst : NoNul dst)
    (bWrote : Bool) (s : Report) :
    Clean (verifyFields L K f (w.encode src) (w.encode dst) bWrote s) failures s.g_fail ↔
      bWrote = true ∧ Genuine S f src dst := by
  by_cases himport : (L.ecdhImportPrivate L.ecdhNew f.recipPriv).1 = true
  · have hkey := I.agreement himport
    have hpoint := himport
    rw [I.importAgreement] at hpoint
    obtain ⟨recipPub, hpub⟩ := Option.isSome_iff_exists.mp hpoint
    -- no check takes back what was reported before it, from the last one to the first
    have hlast : ∀ s', Ends (loadContainer L K f bWrote s' >>= fun s'' => pure (0, s''))
        fun q => s'.g_fail ≤ failures q :=
      fun s' => ends_bind_le (loadContainer_keeps L K f bWrote s')
        fun s'' => ends_pure (Nat.le_add_right _ _)
    have hreseal := fun oSender s' => ends_bind_le
      (check_ends (reopened L f (w.encode src) (w.encode dst)
        (L.ecdhImportPrivate L.ecdhNew f.recipPriv).2 oSender)
        (cstr "re-seal here with the foreign keys and open it") s') hlast
    have hidentity := fun s' => ends_bind_le (sameIdentity_keeps L K f s') fun q => hreseal q.1 q.2
    have hsame := fun s' => ends_bind_le (check_ends (sameExport
      (L.ecdhExportPublic (L.ecdhImportPrivate L.ecdhNew f.recipPriv).2) .pub .vRecipPub f.recipPub
      K.ecdhPub) (cstr "foreign agreement blob yields the same public point") s') hidentity
    have hmoved := fun s' => ends_bind_le (ends_pure (rejectMoved_keeps L f (w.encode src)
      (w.encode dst) (L.ecdhImportPrivate L.ecdhNew f.recipPriv).2 s')) hsame
    have hflipped := fun s' => ends_bind_le (rejectFlipped_keeps L f (w.encode src)
      (w.encode dst) (L.ecdhImportPrivate L.ecdhNew f.recipPriv).2 s') hmoved
    unfold verifyFields
    dsimp only
    rw [if_neg (by simp [himport])]
    refine (clean_bind_iff (openForeign_keeps L f _ _ _ s) hflipped
      (openForeign_clean I hsrc hdst hkey hpub s) (Q := recipPub = f.recipPub ∧
        S.identityPub f.senderPriv = some f.senderPub ∧ bWrote = true ∧
        S.Container f.container f.senderPriv) ?_).trans ?_
    · intro hsealed s₁ _ hs₁
      rw [← hs₁]
      -- the second and the third check pass when the first has
      obtain ⟨s₂, hrun₂, hs₂⟩ := rejectFlipped_clean I hsrc hdst hkey hpub hsealed s₁
      have hs₃ := rejectMoved_clean I hsrc hdst hkey hpub hsealed s₂
      rw [hrun₂, ← hs₂, ← hs₃]
      show Clean (samePoint L K f _ (rejectMoved L f _ _ _ s₂) >>= _) failures _ ↔ _
      refine clean_bind_iff (check_ends _ _ _) hidentity
        (samePoint_clean I hkey hpub hf.recipPub _) fun hpoint s₄ _ hs₄ => ?_
      rw [← hs₄]
      refine clean_bind_iff (sameIdentity_keeps L K f s₄) (fun q => hreseal q.1 q.2)
        (sameIdentity_clean I hf.senderPub s₄) fun hid q hq hs₅ => ?_
      have hsender : I.IdentityKey q.1 f.senderPriv := by
        rw [sameIdentity_key hq]
        apply I.identity
        rw [I.importIdentity, hid]
        rfl
      rw [hpoint] at hpub
      obtain ⟨s₆, hrun₆, hs₆⟩ := reseal_clean I hsrc hdst hkey hpub hsender hid q.2
      rw [← hs₅, ← hs₆]
      show Clean (reseal L f _ _ _ q.1 q.2 >>= _) failures _ ↔ _
      rw [hrun₆]
      show Clean (loadContainer L K f bWrote s₆ >>= _) failures _ ↔ _
      have hload : Clean (loadContainer L K f bWrote s₆ >>= fun s => pure (0, s)) failures
          s₆.g_fail ↔ (bWrote = true ∧ S.Container f.container f.senderPriv) ∧ True := by
        refine clean_bind_iff (loadContainer_keeps L K f bWrote s₆)
          (fun s => ends_pure (Nat.le_add_right _ _))
          (loadContainer_clean I hf.senderPriv bWrote s₆) fun _ s₇ _ hs₇ => ?_
        rw [clean_pure]
        exact ⟨fun _ => trivial, fun _ => hs₇⟩
      rwa [and_true] at hload
    · constructor
      · intro ⟨hsealed, hpoint, hid, hwrote, hcontainer⟩
        rw [hpoint] at hsealed hpub
        exact ⟨hwrote, hsealed, hpub, hid, hcontainer⟩
      · intro ⟨hwrote, hgenuine⟩
        rw [hgenuine.agreement] at hpub
        cases hpub
        exact ⟨hgenuine.body, rfl, hgenuine.identity, hwrote, hgenuine.container⟩
  · rw [verifyFields_no_key L _ _ bWrote s himport, clean_pure]
    constructor
    · intro h
      unfold failures at h
      rw [check_false] at h
      dsimp only at h
      omega
    · intro h
      rw [I.importAgreement, h.2.agreement] at himport
      exact absurd rfl himport

end vectors

end Seal
