import MscsUnitTests.Lib.Bytes
import MscsUnitTests.Lib.Vectors
import MscsUnitTests.Seal.Vector
import MscsUnitTests.Seal.Wide

/-! # The Seal Vectors: Verifying a File

    `Verify` of `seal_interop.cpp` opens what a vector holds, and then makes sure that it
    does not open everything. Some of its six checks index what was read.

    * `SealLib`: what the crypto library does.
    * `verify`: the function, ended by the first range outside of a vector.
    * `verify_within_iff`: there is one just when the sealed body ends before the byte
      that is to be flipped.
-/

open ByteMem CFiles CheckedVectors

namespace Seal

/-! ## Section 1: The library -/

/-- `SealResult`, an error with its `SealResultText`. -/
inductive SealResult where
  | SealOk
  | error (pszText : CStr)
  deriving DecidableEq

/-- `IdResult`, likewise. -/
inductive IdResult where
  | IdOk
  | error (pszText : CStr)
  deriving DecidableEq

/-- What `Open` and `Seal` return, and what they leave in the buffer and in `*pcbOut`. -/
structure Written where
  e : SealResult
  buf : Mem
  cbOut : Nat

/-- `p2pcng` and `p2pseal`, over the states of an `EcdhP256` and an `EcdsaP256`. An export
    that fails is `none`. -/
structure SealLib (κ ε : Type) where
  kSealEphLen : Nat
  kSealNonceLen : Nat
  openedSize : Nat → Nat
  sealedSize : Nat → Nat
  ecdhNew : κ
  ecdhImportPrivate : κ → List UInt8 → Bool × κ
  ecdhExportPublic : κ → Option Mem
  ecdsaNew : ε
  ecdsaImportPrivate : ε → List UInt8 → Bool × ε
  ecdsaExportPublic : ε → Option Mem
  ecdsaExportPrivate : ε → Option Mem
  /-- `Open`: keys, addresses, the body, and the size of the buffer. -/
  openBody : κ → List UInt8 → List Nat → List Nat → List UInt8 → Nat → Written
  sealBody : ε → List UInt8 → List Nat → List Nat → List UInt8 → Nat → Written
  /-- `LoadIdentity` of a file with these bytes. -/
  loadIdentity : List UInt8 → IdResult × ε

/-- `Open` reports no more bytes than the buffer has room for. -/
def SealLib.OpenFits {κ ε : Type} (L : SealLib κ ε) : Prop :=
  ∀ oRecip pub wSrc wDst body cap, (L.openBody oRecip pub wSrc wDst body cap).e = .SealOk →
    (L.openBody oRecip pub wSrc wDst body cap).cbOut ≤ cap

/-! ## Section 2: The report -/

/-- What is printed, line by line, and the failures. -/
structure Report where
  out : List CStr
  g_fail : Nat
  deriving DecidableEq

def Report.print (s : Report) (line : CStr) : Report :=
  { s with out := s.out ++ [line] }

/-- `CHECK`. -/
def check (bCond : Bool) (pszName : CStr) (s : Report) : Report :=
  let tag := if bCond then cstr "PASS" else cstr "FAIL"
  let s' := s.print (cstr "    [" ++ tag ++ cstr "] " ++ pszName)
  if bCond then s' else { s' with g_fail := s'.g_fail + 1 }

/-! ## Section 3: The checks -/

/-- The vectors and arrays that are indexed or compared. -/
inductive Vect where
  | vBad | vOut | vPlain | vRecipPub | vSenderPriv | vSenderPub | pub | priv
  deriving DecidableEq

/-- `c_str()`, as far as it is read. -/
def wideCStr (w : List Nat) : List Nat := w.takeWhile fun c => c ≠ 0

/-- What `%s` prints of a string. -/
def printed (s : CStr) : CStr := s.takeWhile fun c => c ≠ 0

section checks
variable {κ ε : Type} (L : SealLib κ ε) (K : KeyLens) (f : Fields) (wSrc wDst : List Nat)

/-- Whether a body was opened, and to the plain text. -/
def opensTo (r : Written) (cap : Nat) (plain : List UInt8) : Checked Vect Bool :=
  -- the lengths are the same before the bytes are looked at
  if r.e = .SealOk ∧ r.cbOut = plain.length then
    sameFirst .vOut .vPlain (firstBytes r.buf cap) plain r.cbOut
  else pure false

/-- The first check: a body sealed elsewhere is opened. -/
def openForeign (oRecip : κ) (s : Report) : Checked Vect Report := do
  let cap := L.openedSize f.sealed.length + 1
  let r := L.openBody oRecip f.senderPub (wideCStr wSrc) (wideCStr wDst) f.sealed cap
  let bOk ← opensTo r cap f.plain
  let s' := match bOk, r.e with
    | false, .error pszText => s.print (cstr "      Open() said: " ++ pszText)
    | _, _ => s
  return check bOk (cstr "open a body sealed by the other backend") s'

/-- The second: not with a bit of it flipped. -/
def rejectFlipped (oRecip : κ) (s : Report) : Checked Vect Report := do
  -- the size of the body has not been looked at so far
  let vBad ← modifyAt .vBad f.sealed (L.kSealEphLen + L.kSealNonceLen) (· ^^^ 0x01)
  let r := L.openBody oRecip f.senderPub (wideCStr wSrc) (wideCStr wDst) vBad
    (L.openedSize vBad.length + 1)
  return check (r.e ≠ .SealOk) (cstr "reject the same body with one bit flipped") s

/-- The third: nor for another destination. -/
def rejectMoved (oRecip : κ) (s : Report) : Report :=
  -- L"X"
  let wOther := wDst ++ [88]
  let r := L.openBody oRecip f.senderPub (wideCStr wSrc) (wideCStr wOther) f.sealed
    (L.openedSize f.sealed.length + 1)
  check (r.e ≠ .SealOk) (cstr "reject the body re-addressed to another destination") s

/-- An export, compared with the `cb` bytes of a vector that was read. -/
def sameExport (exported : Option Mem) (arr vec : Vect) (v : List UInt8) (cb : Nat) :
    Checked Vect Bool :=
  match exported with
  | none => pure false
  | some p => sameFirst arr vec (firstBytes p cb) v cb

/-- The fourth, of the agreement key. -/
def samePoint (oRecip : κ) (s : Report) : Checked Vect Report := do
  let bOk ← sameExport (L.ecdhExportPublic oRecip) .pub .vRecipPub f.recipPub K.ecdhPub
  return check bOk (cstr "foreign agreement blob yields the same public point") s

/-- The fourth, of the identity key, with what the import makes of it. -/
def sameIdentity (s : Report) : Checked Vect (ε × Report) := do
  let imported := L.ecdsaImportPrivate L.ecdsaNew f.senderPriv
  let exported := if imported.1 = true then L.ecdsaExportPublic imported.2 else none
  let bOk ← sameExport exported .pub .vSenderPub f.senderPub K.ecdsaPub
  return (imported.2, check bOk (cstr "foreign identity blob yields the same public point") s)

/-- What is sealed here with the keys that were read, opened again. -/
def reopened (oRecip : κ) (oSender : ε) : Checked Vect Bool :=
  let cap := L.sealedSize f.plain.length
  let r := L.sealBody oSender f.recipPub (wideCStr wSrc) (wideCStr wDst) f.plain cap
  if r.e = .SealOk then
    let vNew := (firstBytes r.buf cap).take r.cbOut
    -- this buffer is sized by the plain text, not by what was sealed
    let cap' := f.plain.length + 1
    opensTo (L.openBody oRecip f.senderPub (wideCStr wSrc) (wideCStr wDst) vNew cap') cap' f.plain
  else pure false

/-- The fifth, with what comes of that. -/
def reseal (oRecip : κ) (oSender : ε) (s : Report) : Checked Vect Report := do
  let bOk ← reopened L f wSrc wDst oRecip oSender
  return check bOk (cstr "re-seal here with the foreign keys and open it") s

/-- The sixth: the container, when the temporary file could be written. -/
def loadContainer (bWrote : Bool) (s : Report) : Checked Vect Report := do
  let name := cstr "load the identity container written by the other backend"
  if bWrote = true then
    match L.loadIdentity f.container with
    | (.error pszText, _) =>
      return check false name (s.print (cstr "      LoadIdentity said: " ++ pszText))
    | (.IdOk, oLoaded) =>
      let bOk ← sameExport (L.ecdsaExportPrivate oLoaded) .priv .vSenderPriv f.senderPriv
        K.ecdsaPriv
      return check bOk name s
  else return check false name s

/-- `Verify`, behind the field checks and the transcoding: what it returns, and the report. -/
def verifyFields (bWrote : Bool) (s : Report) : Checked Vect (Nat × Report) :=
  let imported := L.ecdhImportPrivate L.ecdhNew f.recipPriv
  if imported.1 = false then
    -- nothing below can mean anything without it
    pure (1, check false (cstr "import the foreign agreement private blob") s)
  else do
    let s ← openForeign L f wSrc wDst imported.2 s
    let s ← rejectFlipped L f wSrc wDst imported.2 s
    let s := rejectMoved L f wSrc wDst imported.2 s
    let s ← samePoint L K f imported.2 s
    let (oSender, s) ← sameIdentity L K f s
    let s ← reseal L f wSrc wDst imported.2 oSender s
    let s ← loadContainer L K f bWrote s
    return (0, s)

end checks

/-! ## Section 4: The function -/

/-- The `wchar_t` of a backend. -/
def Backend.wchar : Backend → WcharBuild
  | .windowsCng => .two
  | .linuxOpenssl => .four

/-- A file that is verified: its name, its bytes if it can be read, and whether the
    temporary file for its container can be written. -/
structure VectorFile where
  pszPath : CStr
  bytes : Option (List UInt8)
  bWrote : Bool

section function
variable {κ ε : Type} (L : SealLib κ ε) (K : KeyLens) (build : Backend)

/-- `Verify`: 2 is a vector that is not one. -/
def verify (file : VectorFile) (s : Report) : Checked Vect (Nat × Report) :=
  match file.bytes with
  | none => pure (2, s.print (cstr "  ! cannot read " ++ file.pszPath))
  | some text =>
    let oVec := readVector text
    let sProducer := (field oVec (cstr "producer")).getD (cstr "(unknown)")
    let s := s.print (cstr "  " ++ file.pszPath ++ cstr "  [sealed by " ++
      printed sProducer ++ cstr ", opening on " ++ backendTag build ++ cstr "]")
    match readFields K oVec with
    | none => pure (2, s.print (cstr "  ! malformed vector"))
    | some f =>
      match wideFromUtf8 build.wchar f.src, wideFromUtf8 build.wchar f.dst with
      | some wSrc, some wDst => verifyFields L K f wSrc wDst file.bWrote s
      | _, _ => pure (2, s.print (cstr "  ! address transcode failed"))

/-- The loop of `main` over the files of `verify`: `nSetup`, and the report. -/
def verifyFiles : List VectorFile → Nat × Report → Checked Vect (Nat × Report)
  | [], q => pure q
  | file :: files, (nSetup, s) => do
    let (r, s) ← verify L K build file s
    verifyFiles files (if r = 2 then 2 else nSetup, s)

/-- `main verify`: its exit code. -/
def mainVerify (files : List VectorFile) : Checked Vect (Nat × Report) := do
  let start := cstr "=== seal_interop verify (this build: " ++ backendTag build ++ cstr ") ==="
  let (nSetup, s) ← verifyFiles L K build files (0, ⟨[start], 0⟩)
  if nSetup ≠ 0 then return (2, s.print (cstr "=== seal_interop: SETUP FAILURE ==="))
  else
    let verdict := if s.g_fail = 0 then cstr "ALL PASS" else cstr "FAILED"
    let plural := if s.g_fail = 1 then cstr "" else cstr "s"
    return (if s.g_fail = 0 then 0 else 1, s.print (cstr "=== seal_interop: " ++ verdict ++
      cstr " (" ++ cstr (toString s.g_fail) ++ cstr " failure" ++ plural ++ cstr ") ==="))

end function

/-! ## Section 5: What the field checks are good for -/

/-- A field that is read has been found, is hex, and has the expected size. -/
theorem fieldBytes_eq_some {oVec : Vec} {pszKey : CStr} {cbExpect : Nat} {p : List UInt8}
    (h : fieldBytes oVec pszKey cbExpect = some p) :
    ∃ s, field oVec pszKey = some s ∧ unHex s = some p ∧ cbExpect ≤ p.length := by
  unfold fieldBytes at h
  split at h
  · cases h
  · next s hs =>
    split at h
    · cases h
    · next vOut hvOut =>
      obtain ⟨hlen, hp⟩ := Option.ite_none_left_eq_some.mp h
      cases hp
      exact ⟨s, hs, hvOut, by omega⟩

/-- Nothing is left of an empty value: the space in front of it is taken off the line. -/
theorem readLine_value_ne {m : Vec} (hm : ∀ k v, m k = some v → v ≠ []) (l : CStr) (k v : CStr)
    (h : readLine m l k = some v) : v ≠ [] := by
  unfold readLine at h
  split at h
  · exact hm k v h
  · next hkept =>
    split at h
    · next hspace =>
      generalize hs : l.rdropWhile isTrail = s at h hkept hspace
      by_cases hk : k = s.takeWhile (· != 32)
      · rw [hk, Function.update_self] at h
        intro hv
        rw [hv] at h
        have hne : s.dropWhile (· != 32) ≠ [] := by
          intro hnil
          exact absurd (List.dropWhile_eq_nil_iff.mp hnil 32 hspace) (by simp)
        have hhead := List.head_dropWhile_not (· != 32) hne
        have hdrop : s.dropWhile (· != 32) = [32] := by
          rw [← List.cons_head_tail hne, Option.some.inj h]
          simpa using hhead
        -- so the line would end in the space
        have hline : s.getLast? = some 32 := by
          rw [← List.takeWhile_append_dropWhile (p := (· != 32)) (l := s), hdrop]
          exact List.getLast?_concat
        have hlast := List.rdropWhile_last_not isTrail l
        rw [hs] at hlast
        have hne' : s ≠ [] := fun hnil => hkept (Or.inl hnil)
        apply hlast hne'
        rw [List.getLast?_eq_some_getLast hne'] at hline
        rw [Option.some.inj hline]
        rfl
      · rw [Function.update_of_ne hk] at h
        exact hm k v h
    · exact hm k v h

/-- So no field of a file is empty. -/
theorem field_ne_nil (text : List UInt8) {pszKey v : CStr}
    (h : field (readVector text) pszKey = some v) : v ≠ [] := by
  have hfold : ∀ (ls : List CStr) (m : Vec), (∀ k v, m k = some v → v ≠ []) →
      ∀ k v, ls.foldl readLine m k = some v → v ≠ [] := by
    intro ls
    induction ls with
    | nil => exact fun m hm => hm
    | cons l ls ih => exact fun m hm => ih _ (readLine_value_ne hm l)
  exact hfold _ _ (fun k v hnone => by cases hnone) pszKey v h

theorem unHex_ne_nil {s : CStr} {p : List UInt8} (hs : s ≠ []) (h : unHex s = some p) :
    p ≠ [] := by
  unfold unHex at h
  split at h
  · cases h
  · unfold unHexPairs at h
    split at h
    · exact absurd rfl hs
    · cases h
    · split at h
      · obtain ⟨rest, _, hp⟩ := Option.map_eq_some_iff.mp h
        rw [← hp]
        exact List.cons_ne_nil _ _
      · cases h

/-- Where the fields come from that are indexed or compared. -/
theorem readFields_eq_some {K : KeyLens} {oVec : Vec} {f : Fields}
    (h : readFields K oVec = some f) :
    fieldBytes oVec (cstr "sealed") 0 = some f.sealed ∧
    fieldBytes oVec (cstr "sender_priv") K.ecdsaPriv = some f.senderPriv ∧
    fieldBytes oVec (cstr "sender_pub") K.ecdsaPub = some f.senderPub ∧
    fieldBytes oVec (cstr "recip_pub") K.ecdhPub = some f.recipPub := by
  unfold readFields at h
  simp only [Option.bind_eq_bind, Option.bind_eq_some_iff] at h
  obtain ⟨_, _, _, _, _, _, _, hsealed, _, _, _, hspriv, _, hspub, _, _, _, hrpub, hf⟩ := h
  cases hf
  exact ⟨hsealed, hspriv, hspub, hrpub⟩

/-- The keys are as long as what they are compared with. -/
structure Fields.Sized (K : KeyLens) (f : Fields) : Prop where
  senderPriv : K.ecdsaPriv ≤ f.senderPriv.length
  senderPub : K.ecdsaPub ≤ f.senderPub.length
  recipPub : K.ecdhPub ≤ f.recipPub.length

theorem readFields_sized {K : KeyLens} {oVec : Vec} {f : Fields}
    (h : readFields K oVec = some f) : f.Sized K := by
  obtain ⟨_, hspriv, hspub, hrpub⟩ := readFields_eq_some h
  obtain ⟨_, _, _, hlen₁⟩ := fieldBytes_eq_some hspriv
  obtain ⟨_, _, _, hlen₂⟩ := fieldBytes_eq_some hspub
  obtain ⟨_, _, _, hlen₃⟩ := fieldBytes_eq_some hrpub
  exact ⟨hlen₁, hlen₂, hlen₃⟩

/-- A vector whose body is empty is malformed: there is at least a byte of it. -/
theorem readFields_sealed_pos {K : KeyLens} {text : List UInt8} {f : Fields}
    (h : readFields K (readVector text) = some f) : 0 < f.sealed.length := by
  obtain ⟨hsealed, _⟩ := readFields_eq_some h
  obtain ⟨s, hs, hp, _⟩ := fieldBytes_eq_some hsealed
  exact List.length_pos_of_ne_nil (unHex_ne_nil (field_ne_nil text hs) hp)

/-! ## Section 6: Where each check stays inside -/

section stays
variable {κ ε : Type} (L : SealLib κ ε) (K : KeyLens) (f : Fields) (wSrc wDst : List Nat)

/-- A buffer that has room for what was reported is compared no further than that, and the
    plain text no further than it goes. -/
theorem opensTo_stays {r : Written} {cap : Nat} {plain : List UInt8}
    (hcap : r.e = .SealOk → r.cbOut = plain.length → r.cbOut ≤ cap) :
    Stays (opensTo r cap plain) := by
  unfold opensTo
  split
  · next hopened =>
    rw [sameFirst_stays_iff, firstBytes_length]
    exact ⟨hcap hopened.1 hopened.2, Nat.le_of_eq hopened.2⟩
  · exact stays_pure _

theorem openForeign_stays (hopen : L.OpenFits) (oRecip : κ) (s : Report) :
    Stays (openForeign L f wSrc wDst oRecip s) := by
  refine (opensTo_stays fun hok _ => ?_).bind fun _ => stays_pure _
  exact hopen _ _ _ _ _ _ hok

/-- The flipped bit is looked for behind the ephemeral key and the nonce, wherever the body
    ends. -/
theorem rejectFlipped_stays_iff (oRecip : κ) (s : Report) :
    Stays (rejectFlipped L f wSrc wDst oRecip s) ↔
      L.kSealEphLen + L.kSealNonceLen < f.sealed.length := by
  unfold rejectFlipped
  rw [stays_bind_of_forall fun _ => stays_pure _]
  exact modifyAt_stays_iff _ _ _ _

theorem sameExport_stays (exported : Option Mem) (arr vec : Vect) {v : List UInt8} {cb : Nat}
    (h : cb ≤ v.length) : Stays (sameExport exported arr vec v cb) := by
  unfold sameExport
  split
  · exact stays_pure _
  · rw [sameFirst_stays_iff, firstBytes_length]
    exact ⟨Nat.le_refl cb, h⟩

variable {K f}

theorem samePoint_stays (hf : f.Sized K) (oRecip : κ) (s : Report) :
    Stays (samePoint L K f oRecip s) :=
  (sameExport_stays _ _ _ hf.recipPub).bind fun _ => stays_pure _

theorem sameIdentity_stays (hf : f.Sized K) (s : Report) : Stays (sameIdentity L K f s) :=
  (sameExport_stays _ _ _ hf.senderPub).bind fun _ => stays_pure _

/-- Here the buffer has room for one byte more than is compared. -/
theorem reseal_stays (oRecip : κ) (oSender : ε) (s : Report) :
    Stays (reseal L f wSrc wDst oRecip oSender s) := by
  refine Stays.bind ?_ fun _ => stays_pure _
  unfold reopened
  dsimp only
  split
  · exact opensTo_stays fun _ hlen => by omega
  · exact stays_pure _

theorem loadContainer_stays (hf : f.Sized K) (bWrote : Bool) (s : Report) :
    Stays (loadContainer L K f bWrote s) := by
  unfold loadContainer
  dsimp only
  split
  · split
    · exact stays_pure _
    · exact (sameExport_stays _ _ _ hf.senderPriv).bind fun _ => stays_pure _
  · exact stays_pure _

/-- Without the agreement key there are no checks. -/
theorem verifyFields_no_key (bWrote : Bool) (s : Report)
    (himport : ¬ (L.ecdhImportPrivate L.ecdhNew f.recipPriv).1 = true) :
    verifyFields L K f wSrc wDst bWrote s =
      pure (1, check false (cstr "import the foreign agreement private blob") s) := by
  unfold verifyFields
  exact if_pos (Bool.eq_false_iff.mpr himport)

/-- Of the checks, only the second can go outside. -/
theorem verifyFields_stays_iff (hopen : L.OpenFits) (hf : f.Sized K) (bWrote : Bool) (s : Report)
    (himport : (L.ecdhImportPrivate L.ecdhNew f.recipPriv).1 = true) :
    Stays (verifyFields L K f wSrc wDst bWrote s) ↔
      L.kSealEphLen + L.kSealNonceLen < f.sealed.length := by
  unfold verifyFields
  dsimp only
  rw [if_neg (by simp [himport])]
  refine stays_bind_iff (openForeign_stays L f wSrc wDst hopen _ s) fun s => ?_
  rw [← rejectFlipped_stays_iff L f wSrc wDst (L.ecdhImportPrivate L.ecdhNew f.recipPriv).2 s]
  -- behind the flipped bit nothing can go outside any more
  apply stays_bind_of_forall
  intro s
  refine (samePoint_stays L hf _ _).bind fun s => ?_
  refine (sameIdentity_stays L hf s).bind fun q => ?_
  refine (reseal_stays L wSrc wDst _ q.1 q.2).bind fun s => ?_
  exact (loadContainer_stays L hf bWrote s).bind fun _ => stays_pure _

end stays

/-! ## Section 7: What is reported -/

/-- No failure is taken back. -/
def Keeps (s s' : Report) : Prop := s.g_fail ≤ s'.g_fail

theorem check_keeps (bCond : Bool) (pszName : CStr) (s : Report) :
    Keeps s (check bCond pszName s) := by
  unfold Keeps check
  cases bCond
  · exact Nat.le_succ _
  · exact Nat.le_refl _

theorem check_false (pszName : CStr) (s : Report) :
    (check false pszName s).g_fail = s.g_fail + 1 := rfl

/-- A check keeps what was reported, whatever it comes to. -/
theorem check_ends (x : Checked Vect Bool) (pszName : CStr) (s : Report) :
    Ends (x >>= fun bOk => pure (check bOk pszName s)) (Keeps s) :=
  ends_bind_of_forall fun bOk => ends_pure (check_keeps bOk pszName s)

section reports
variable {κ ε : Type} (L : SealLib κ ε) (K : KeyLens) (f : Fields) (wSrc wDst : List Nat)

/-- The body is refused as it was read. -/
def Refused (oRecip : κ) : Prop :=
  (L.openBody oRecip f.senderPub (wideCStr wSrc) (wideCStr wDst) f.sealed
    (L.openedSize f.sealed.length + 1)).e ≠ .SealOk

/-- The first check reports a body that is refused. -/
theorem openForeign_refused {oRecip : κ} (hrefused : Refused L f wSrc wDst oRecip) (s : Report) :
    Ends (openForeign L f wSrc wDst oRecip s) fun s' => s.g_fail < s'.g_fail := by
  unfold openForeign
  have hfalse : ∀ cap plain, opensTo (L.openBody oRecip f.senderPub (wideCStr wSrc)
      (wideCStr wDst) f.sealed (L.openedSize f.sealed.length + 1)) cap plain = pure false :=
    fun cap plain => if_neg fun hopened => hrefused hopened.1
  dsimp only
  rw [hfalse]
  refine ends_pure ?_
  rw [check_false]
  split
  · exact Nat.lt_succ_self _
  · exact Nat.lt_succ_self _

theorem openForeign_keeps (oRecip : κ) (s : Report) :
    Ends (openForeign L f wSrc wDst oRecip s) (Keeps s) := by
  refine ends_bind_of_forall fun bOk => ends_pure ?_
  split
  · exact check_keeps _ _ (s.print _)
  · exact check_keeps _ _ s

theorem rejectFlipped_keeps (oRecip : κ) (s : Report) :
    Ends (rejectFlipped L f wSrc wDst oRecip s) (Keeps s) :=
  ends_bind_of_forall fun _ => ends_pure (check_keeps _ _ s)

theorem rejectMoved_keeps (oRecip : κ) (s : Report) :
    Keeps s (rejectMoved L f wSrc wDst oRecip s) := by
  unfold rejectMoved
  exact check_keeps _ _ s

theorem sameIdentity_keeps (s : Report) :
    Ends (sameIdentity L K f s) fun q => Keeps s q.2 :=
  ends_bind_of_forall fun _ => ends_pure (check_keeps _ _ s)

theorem loadContainer_keeps (bWrote : Bool) (s : Report) :
    Ends (loadContainer L K f bWrote s) (Keeps s) := by
  unfold loadContainer
  dsimp only
  split
  · split
    · next pszText _ _ =>
      exact ends_pure (check_keeps false _ (s.print (cstr "      LoadIdentity said: " ++ pszText)))
    · exact check_ends _ _ _
  · exact ends_pure (check_keeps _ _ _)

/-- Whatever holds of the report behind the first check, and is kept, holds in the end. -/
theorem verifyFields_ends {P : Report → Prop} (hkept : ∀ s s', P s → Keeps s s' → P s')
    (bWrote : Bool) (s : Report) (himport : (L.ecdhImportPrivate L.ecdhNew f.recipPriv).1 = true)
    (hfirst : Ends (openForeign L f wSrc wDst (L.ecdhImportPrivate L.ecdhNew f.recipPriv).2 s) P) :
    Ends (verifyFields L K f wSrc wDst bWrote s) fun q => P q.2 := by
  unfold verifyFields
  dsimp only
  rw [if_neg (by simp [himport])]
  refine hfirst.bind fun s₁ h₁ => ?_
  -- the checks behind the first, each on the report of the one before
  refine (rejectFlipped_keeps L f wSrc wDst _ s₁).bind fun s₂ h₂ => ?_
  have h₃ := rejectMoved_keeps L f wSrc wDst (L.ecdhImportPrivate L.ecdhNew f.recipPriv).2 s₂
  refine (check_ends _ _ _).bind fun s₄ h₄ => ?_
  refine (sameIdentity_keeps L K f s₄).bind fun q h₅ => ?_
  refine (check_ends _ _ _).bind fun s₆ h₆ => ?_
  refine (loadContainer_keeps L K f bWrote s₆).bind fun s₇ h₇ => ends_pure ?_
  exact hkept s₁ s₇ h₁ (h₂.trans (h₃.trans (h₄.trans (h₅.trans (h₆.trans h₇)))))

/-- A body that is refused stays reported. -/
theorem verifyFields_refused (bWrote : Bool) (s : Report)
    (himport : (L.ecdhImportPrivate L.ecdhNew f.recipPriv).1 = true)
    (hrefused : Refused L f wSrc wDst (L.ecdhImportPrivate L.ecdhNew f.recipPriv).2) :
    Ends (verifyFields L K f wSrc wDst bWrote s) fun q => s.g_fail < q.2.g_fail :=
  verifyFields_ends L K f wSrc wDst (fun _ _ h hkeeps => h.trans_le hkeeps) bWrote s himport
    (openForeign_refused L f wSrc wDst hrefused s)

theorem verifyFields_keeps (bWrote : Bool) (s : Report) :
    Ends (verifyFields L K f wSrc wDst bWrote s) fun q => Keeps s q.2 := by
  by_cases himport : (L.ecdhImportPrivate L.ecdhNew f.recipPriv).1 = true
  · exact verifyFields_ends L K f wSrc wDst (fun _ _ h hkeeps => h.trans hkeeps) bWrote s himport
      (openForeign_keeps L f wSrc wDst _ s)
  · rw [verifyFields_no_key L wSrc wDst bWrote s himport]
    exact ends_pure (check_keeps _ _ s)

end reports

/-! ## Section 8: A library that adds up

    What is sealed here is bound to its keys and addresses by a sum instead of a cipher.
    A private blob is `X`, `Y` and `d`, a byte each, and the point of `d` is `(d, d)`. -/

/-- The byte that binds a plain text to its sender and to its addresses. -/
def bindingSum (pub : List UInt8) (wSrc wDst : List Nat) (plain : List UInt8) : UInt8 :=
  UInt8.ofNat (((pub ++ plain).map UInt8.toNat).sum + wSrc.sum + 2 * wDst.sum)

/-- A blob is imported when its point is the one of its secret. -/
def importBlob (key blob : List UInt8) : Bool × List UInt8 :=
  if blob = List.replicate 3 (blob.getD 2 0) then (true, blob) else (false, key)

/-- What a key exports, if there is one. -/
def exportBlob (cb : Nat) (key : List UInt8) : Option Mem :=
  if key = [] then none else some (ofBytes (key.take cb))

/-- Two bytes for the ephemeral key, one for the nonce, the plain text, and the sum. -/
def sumLib : SealLib (List UInt8) (List UInt8) where
  kSealEphLen := 2
  kSealNonceLen := 1
  openedSize cb := cb - 4
  sealedSize cb := cb + 4
  ecdhNew := []
  ecdhImportPrivate := importBlob
  ecdhExportPublic := exportBlob 2
  ecdsaNew := []
  ecdsaImportPrivate := importBlob
  ecdsaExportPublic := exportBlob 2
  ecdsaExportPrivate := exportBlob 3
  openBody oRecip pub wSrc wDst body cap :=
    let plain := (body.drop 3).dropLast
    if body.length < 4 then ⟨.error (cstr "too short"), ofBytes [], 0⟩
    else if body.take 2 ≠ oRecip.take 2 then ⟨.error (cstr "not for this key"), ofBytes [], 0⟩
    else if body.getLast? ≠ some (bindingSum pub wSrc wDst plain) then
      ⟨.error (cstr "does not verify"), ofBytes [], 0⟩
    else if cap < plain.length then ⟨.error (cstr "no room"), ofBytes [], 0⟩
    else ⟨.SealOk, ofBytes plain, plain.length⟩
  sealBody oSender pub wSrc wDst plain cap :=
    let body := pub.take 2 ++ 0 :: (plain ++ [bindingSum (oSender.take 2) wSrc wDst plain])
    if cap < body.length then ⟨.error (cstr "no room"), ofBytes [], 0⟩
    else ⟨.SealOk, ofBytes body, body.length⟩
  loadIdentity bytes :=
    if (importBlob [] bytes).1 = true then (.IdOk, bytes) else (.error (cstr "no identity"), [])

theorem sumLib_openFits : sumLib.OpenFits := by
  intro oRecip pub wSrc wDst body cap hok
  unfold sumLib at hok ⊢
  dsimp only at hok ⊢
  split_ifs at hok ⊢ with hshort hkey hsum hcap
  exact Nat.le_of_not_lt hcap

/-! ## Section 9: The files -/

section files
variable {κ ε : Type} (L : SealLib κ ε) (K : KeyLens) (build : Backend)

/-- A text that gets to the checks: its fields are as they should be, its addresses are
    transcoded, and its key is imported. -/
structure Reaches (text : List UInt8) (f : Fields) (wSrc wDst : List Nat) (oRecip : κ) : Prop where
  fields : readFields K (readVector text) = some f
  src : wideFromUtf8 build.wchar f.src = some wSrc
  dst : wideFromUtf8 build.wchar f.dst = some wDst
  key : L.ecdhImportPrivate L.ecdhNew f.recipPriv = (true, oRecip)

/-- `Verify` uses no range outside of what it read, and a body that is short or refused
    is reported. -/
structure ReadsWithin (x : Checked Vect (Nat × Report)) (s : Report) (short refused : Prop) :
    Prop where
  within : Stays x
  reported : short ∨ refused → Ends x fun q => s.g_fail < q.2.g_fail

variable {L K build} {text : List UInt8} {f : Fields} {wSrc wDst : List Nat} {oRecip : κ}

/-- A text that gets there is checked. -/
theorem Reaches.verify_eq (h : Reaches L K build text f wSrc wDst oRecip) (pszPath : CStr)
    (bWrote : Bool) (s : Report) : ∃ s₀ : Report, s₀.g_fail = s.g_fail ∧
      verify L K build ⟨pszPath, some text, bWrote⟩ s =
        verifyFields L K f wSrc wDst bWrote s₀ := by
  have hverify : verify L K build ⟨pszPath, some text, bWrote⟩ s =
      verifyFields L K f wSrc wDst bWrote (s.print (cstr "  " ++ pszPath ++ cstr "  [sealed by " ++
        printed ((field (readVector text) (cstr "producer")).getD (cstr "(unknown)")) ++
        cstr ", opening on " ++ backendTag build ++ cstr "]")) := by
    unfold verify
    dsimp only
    rw [h.fields]
    dsimp only
    rw [h.src, h.dst]
  refine ⟨_, ?_, hverify⟩
  rfl

/-- **When `Verify` stays inside what it read**: when the sealed body has the byte of which
    a bit is flipped. -/
theorem verify_within_iff (hopen : L.OpenFits) (h : Reaches L K build text f wSrc wDst oRecip)
    (pszPath : CStr) (bWrote : Bool) (s : Report) :
    ReadsWithin (verify L K build ⟨pszPath, some text, bWrote⟩ s) s
        (f.sealed.length ≤ L.kSealEphLen + L.kSealNonceLen) (Refused L f wSrc wDst oRecip) ↔
      L.kSealEphLen + L.kSealNonceLen < f.sealed.length := by
  obtain ⟨s₀, hs₀, hverify⟩ := h.verify_eq pszPath bWrote s
  have himport : (L.ecdhImportPrivate L.ecdhNew f.recipPriv).1 = true := by rw [h.key]
  have hstays := verifyFields_stays_iff L wSrc wDst hopen (readFields_sized h.fields) bWrote s₀
    himport
  rw [hverify]
  constructor
  · intro hwithin
    exact hstays.mp hwithin.within
  · intro hlong
    refine ⟨hstays.mpr hlong, fun hreported => ?_⟩
    rcases hreported with hshort | hrefused
    · -- a short body is not a long one
      omega
    · rw [← hs₀]
      refine verifyFields_refused L K f wSrc wDst bWrote s₀ himport ?_
      rw [h.key]
      exact hrefused

end files

/-- A vector for `sumLib`, with this body. -/
def sumFields (sealed : List UInt8) : Fields :=
  ⟨cstr "alice", cstr "bob", cstr "hello", [7, 7, 7], [7, 7], [9, 9, 9], [9, 9], sealed, [7, 7, 7]⟩

/-- Its file. -/
def sumText (sealed : List UInt8) : List UInt8 := emit [] .windowsCng (sumFields sealed)

deriving instance DecidableEq for Fields

theorem sumText_reaches {sealed : List UInt8}
    (hread : readFields ⟨3, 2, 3, 2⟩ (readVector (sumText sealed)) = some (sumFields sealed)) :
    Reaches sumLib ⟨3, 2, 3, 2⟩ .linuxOpenssl (sumText sealed) (sumFields sealed)
      [97, 108, 105, 99, 101] [98, 111, 98] [9, 9, 9] where
  fields := hread
  src := by
    show wideFromUtf8 .four (cstr "alice") = _
    decide +kernel
  dst := by
    show wideFromUtf8 .four (cstr "bob") = _
    decide +kernel
  key := by
    show importBlob [] [9, 9, 9] = _
    decide +kernel

/-- What `sumLib` sealed. -/
def sumSealed : List UInt8 := [9, 9, 0, 104, 101, 108, 108, 111, 134]

theorem verify_within_iff_sums :
    ReadsWithin (verify sumLib ⟨3, 2, 3, 2⟩ .linuxOpenssl
          ⟨cstr "sums.vec", some (sumText sumSealed), true⟩ ⟨[], 0⟩) ⟨[], 0⟩
        (sumSealed.length ≤ sumLib.kSealEphLen + sumLib.kSealNonceLen)
        (Refused sumLib (sumFields sumSealed) [97, 108, 105, 99, 101] [98, 111, 98] [9, 9, 9]) ↔
      sumLib.kSealEphLen + sumLib.kSealNonceLen < sumSealed.length :=
  verify_within_iff sumLib_openFits (sumText_reaches (by decide +kernel)) (cstr "sums.vec") true
    ⟨[], 0⟩

/-- A body of one byte: the vector gets to the checks, and the fourth byte of the body is
    looked for. -/
theorem short_body_is_indexed :
    sumLib.OpenFits ∧ 0 < sumLib.kSealEphLen ∧ 0 < sumLib.kSealNonceLen ∧
    Reaches sumLib ⟨3, 2, 3, 2⟩ .linuxOpenssl (sumText [0]) (sumFields [0])
      [97, 108, 105, 99, 101] [98, 111, 98] [9, 9, 9] ∧
    verify sumLib ⟨3, 2, 3, 2⟩ .linuxOpenssl ⟨cstr "short.vec", some (sumText [0]), true⟩ ⟨[], 0⟩ =
      .error ⟨.vBad, 3, 1, 1⟩ ∧
    ¬ ReadsWithin (verify sumLib ⟨3, 2, 3, 2⟩ .linuxOpenssl
          ⟨cstr "short.vec", some (sumText [0]), true⟩ ⟨[], 0⟩) ⟨[], 0⟩
        ([(0 : UInt8)].length ≤ sumLib.kSealEphLen + sumLib.kSealNonceLen)
        (Refused sumLib (sumFields [0]) [97, 108, 105, 99, 101] [98, 111, 98] [9, 9, 9]) := by
  have hindex : verify sumLib ⟨3, 2, 3, 2⟩ .linuxOpenssl
      ⟨cstr "short.vec", some (sumText [0]), true⟩ ⟨[], 0⟩ = .error ⟨.vBad, 3, 1, 1⟩ := by
    decide +kernel
  refine ⟨sumLib_openFits, by decide, by decide, sumText_reaches (by decide +kernel), hindex, ?_⟩
  intro h
  have hstays := h.within
  rw [hindex] at hstays
  exact not_stays_error _ hstays

/-! ## Section 10: The run -/

section run
variable {κ ε : Type} (L : SealLib κ ε) (K : KeyLens) (build : Backend)

/-- The body of a file, if there is one, has the byte of which a bit is flipped. -/
def LongBody (file : VectorFile) : Prop :=
  ∀ text f, file.bytes = some text → readFields K (readVector text) = some f →
    L.kSealEphLen + L.kSealNonceLen < f.sealed.length

/-- The body of a file is refused as it was read. -/
def FileRefused (file : VectorFile) : Prop :=
  ∃ text f wSrc wDst oRecip, file.bytes = some text ∧
    Reaches L K build text f wSrc wDst oRecip ∧ Refused L f wSrc wDst oRecip

variable {L K}

theorem verify_stays (hopen : L.OpenFits) {file : VectorFile} (hlong : LongBody L K file)
    (s : Report) : Stays (verify L K build file s) := by
  unfold verify
  split
  · exact stays_pure _
  · next text hbytes =>
    dsimp only
    split
    · exact stays_pure _
    · next f hf =>
      split
      · next wSrc wDst _ _ =>
        by_cases himport : (L.ecdhImportPrivate L.ecdhNew f.recipPriv).1 = true
        · rw [verifyFields_stays_iff L wSrc wDst hopen (readFields_sized hf) _ _ himport]
          exact hlong text f hbytes hf
        · rw [verifyFields_no_key L wSrc wDst _ _ himport]
          exact stays_pure _
      · exact stays_pure _

/-- By induction on the files, each of which is verified behind the others. -/
theorem verifyFiles_stays (hopen : L.OpenFits) {files : List VectorFile}
    (hlong : ∀ file ∈ files, LongBody L K file) (q : Nat × Report) :
    Stays (verifyFiles L K build files q) := by
  induction files generalizing q with
  | nil => exact stays_pure _
  | cons file files ih =>
    unfold verifyFiles
    refine (verify_stays build hopen (hlong file List.mem_cons_self) q.2).bind fun r => ?_
    exact ih (fun file hfile => hlong file (List.mem_cons_of_mem _ hfile)) _

/-- A run over files with such bodies comes to its end. -/
theorem mainVerify_stays (hopen : L.OpenFits) {files : List VectorFile}
    (hlong : ∀ file ∈ files, LongBody L K file) : Stays (mainVerify L K build files) := by
  unfold mainVerify
  refine (verifyFiles_stays build hopen hlong _).bind fun q => ?_
  dsimp only
  split
  · exact stays_pure _
  · exact stays_pure _

variable (L K)

theorem verify_keeps (file : VectorFile) (s : Report) :
    Ends (verify L K build file s) fun q => Keeps s q.2 := by
  unfold verify
  split
  · exact ends_pure (Nat.le_refl _)
  · dsimp only
    split
    · exact ends_pure (Nat.le_refl _)
    · split
      · exact verifyFields_keeps L K _ _ _ _ _
      · exact ends_pure (Nat.le_refl _)

theorem verify_refused {file : VectorFile} (h : FileRefused L K build file) (s : Report) :
    Ends (verify L K build file s) fun q => s.g_fail < q.2.g_fail := by
  obtain ⟨text, f, wSrc, wDst, oRecip, hbytes, hreaches, hrefused⟩ := h
  obtain ⟨pszPath, bytes, bWrote⟩ := file
  obtain ⟨s₀, hs₀, hverify⟩ := hreaches.verify_eq pszPath bWrote s
  cases hbytes
  rw [hverify, ← hs₀]
  refine verifyFields_refused L K f wSrc wDst bWrote s₀ (by rw [hreaches.key]) ?_
  rw [hreaches.key]
  exact hrefused

/-- The failures of a run: none is taken back, and there is one for a body that was
    refused. -/
theorem verifyFiles_reports (files : List VectorFile) (q : Nat × Report) :
    Ends (verifyFiles L K build files q) fun q' => Keeps q.2 q'.2 ∧
      ((∃ file ∈ files, FileRefused L K build file) → q.2.g_fail < q'.2.g_fail) := by
  induction files generalizing q with
  | nil =>
    refine ends_pure ⟨Nat.le_refl _, ?_⟩
    intro ⟨_, hfile, _⟩
    cases hfile
  | cons file files ih =>
    have hfirst : Ends (verify L K build file q.2) fun r => Keeps q.2 r.2 ∧
        (FileRefused L K build file → q.2.g_fail < r.2.g_fail) :=
      fun r hr => ⟨verify_keeps L K build file q.2 r hr,
        fun hrefused => verify_refused L K build hrefused q.2 r hr⟩
    unfold verifyFiles
    -- a file may raise `nSetup`, but that is not read before the end
    refine hfirst.bind fun r hr q' hq' => ?_
    obtain ⟨hkeeps, hrest⟩ := ih _ q' hq'
    refine ⟨hr.1.trans hkeeps, ?_⟩
    intro ⟨file', hmem, hrefused⟩
    rcases List.mem_cons.mp hmem with rfl | hmem
    · exact (hr.2 hrefused).trans_le hkeeps
    · exact Nat.lt_of_le_of_lt hr.1 (hrest ⟨file', hmem, hrefused⟩)

/-- **The exit code 0 is earned**: a run that ends with it has opened every body that it
    got to. -/
theorem mainVerify_zero (files : List VectorFile) :
    Ends (mainVerify L K build files) fun q =>
      q.1 = 0 → ∀ file ∈ files, ¬ FileRefused L K build file := by
  unfold mainVerify
  refine (verifyFiles_reports L K build files _).bind fun q hq => ?_
  dsimp only
  split
  · refine ends_pure fun h => ?_
    cases h
  · refine ends_pure fun hzero file hfile hrefused => ?_
    -- the run began without a failure
    have hfail := hq.2 ⟨file, hfile, hrefused⟩
    dsimp only at hzero hfail
    rw [if_neg (by omega)] at hzero
    cases hzero

end run

end Seal
