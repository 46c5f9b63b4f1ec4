import MscsUnitTests.Seal.Genuine

/-! # The Seal Vectors: From One Backend to the Other

    `Emit` of `seal_interop.cpp` makes keys, seals a text and writes the vector. The file is
    checked in, checked out elsewhere, and verified by the library of another build.

    * `emitFile`: the function, with what it prints and the file it leaves.
    * `every_build_opens`: whatever one build wrote, every build verifies.
-/

open ByteMem CFiles CheckedVectors TextLines Unicode

namespace Seal

/-! ## Section 1: The function -/

/-- What `Emit` uses of the library and of the store, beside `SealLib`. -/
structure EmitLib (κ ε : Type) where
  /-- `Generate`: whether it succeeded, and the key. -/
  ecdsaGenerate : Bool × ε
  ecdhGenerate : Bool × κ
  ecdhExportPrivate : κ → Option Mem
  /-- `SaveIdentity` to the temporary file, and the bytes of that file, if it can be opened
      afterwards. -/
  saveIdentity : ε → IdResult × Option (List UInt8)

/-- The addresses and the text, as explicit UTF-8. -/
def kSrcUtf8 : CStr := cstr "Seal." ++ [0xD0, 0x90, 0xD0, 0xBB, 0xD0, 0xB8, 0xD1, 0x81, 0xD0, 0xB0]

def kDstUtf8 : CStr := cstr "Seal.Carol." ++ [0xF0, 0x9D, 0x84, 0x9E]

def kPlain : CStr :=
  cstr "sealed on one backend, opened on the other " ++ [0xE2, 0x80, 0x94] ++ cstr " " ++
    [0xD0, 0xBF, 0xD1, 0x80, 0xD0, 0xB8, 0xD0, 0xB2, 0xD0, 0xB5, 0xD1, 0x82]

/-- `std::vector::resize`: what is added is zero. -/
def resize (v : List UInt8) (cb : Nat) : List UInt8 :=
  v.take cb ++ List.replicate (cb - v.length) 0

/-- What a step gives, or the message that it failed. -/
def given {α : Type} (o : Option α) (msg : CStr) : Except CStr α :=
  match o with
  | some a => .ok a
  | none => .error msg

theorem given_some_bind {α β : Type} (a : α) (msg : CStr) (f : α → Except CStr β) :
    (given (some a) msg >>= f) = f a := rfl

section function
variable {κ ε : Type} (L : SealLib κ ε) (E : EmitLib κ ε) (K : KeyLens) (build : Backend)

/-- The keys as they are exported: the sender, its point, the recipient, its point. -/
def exportKeys (oSender : ε) (oRecip : κ) :
    Option (List UInt8 × List UInt8 × List UInt8 × List UInt8) := do
  let senderPriv ← L.ecdsaExportPrivate oSender
  let senderPub ← L.ecdsaExportPublic oSender
  let recipPriv ← E.ecdhExportPrivate oRecip
  let recipPub ← L.ecdhExportPublic oRecip
  return (firstBytes senderPriv K.ecdsaPriv, firstBytes senderPub K.ecdsaPub,
    firstBytes recipPriv K.ecdhPriv, firstBytes recipPub K.ecdhPub)

/-- The body, cut to what was sealed. -/
def sealPlain (oSender : ε) (recipPub : List UInt8) (wSrc wDst : List Nat) :
    Except CStr (List UInt8) :=
  let cap := L.sealedSize kPlain.length
  let r := L.sealBody oSender recipPub (wideCStr wSrc) (wideCStr wDst) kPlain cap
  match r.e with
  | .error pszText => .error (cstr "  ! Seal failed: " ++ pszText)
  | .SealOk => .ok (resize (firstBytes r.buf cap) r.cbOut)

/-- The container, saved and read back. -/
def saveContainer (oSender : ε) : Except CStr (List UInt8) :=
  match E.saveIdentity oSender with
  | (.error pszText, _) => .error (cstr "  ! SaveIdentity failed: " ++ pszText)
  | (.IdOk, read) => given read (cstr "  ! container read-back failed")

/-- `Emit` up to the file: the fields of the vector. -/
def emitFields : Except CStr Fields := do
  let oSender ← given (if E.ecdsaGenerate.1 = true then some E.ecdsaGenerate.2 else none)
    (cstr "  ! sender keygen failed")
  let oRecip ← given (if E.ecdhGenerate.1 = true then some E.ecdhGenerate.2 else none)
    (cstr "  ! recipient keygen failed")
  let keys ← given (exportKeys L E K oSender oRecip) (cstr "  ! key export failed")
  let wSrc ← given (wideFromUtf8 build.wchar kSrcUtf8) (cstr "  ! address transcode failed")
  let wDst ← given (wideFromUtf8 build.wchar kDstUtf8) (cstr "  ! address transcode failed")
  let vSealed ← sealPlain L oSender keys.2.2.2 wSrc wDst
  let vContainer ← saveContainer E oSender
  return ⟨kSrcUtf8, kDstUtf8, kPlain, keys.1, keys.2.1, keys.2.2.1, keys.2.2.2, vSealed, vContainer⟩

/-- What the comments of a vector say, behind the notice. -/
def formatNotice : List CStr :=
  [ cstr "# p2pseal cross-backend interop vector, format v1",
    cstr "# Sealed by the " ++ backendTag build ++ cstr " backend. Every other backend must open it.",
    cstr "# Keys are throwaway and deliberately in the clear - a vector",
    cstr "# nobody can open proves nothing." ]

/-- `(unsigned)`, printed. -/
def asUnsigned (n : Nat) : CStr := cstr (toString (n % 2 ^ 32))

/-- `Emit`: what it returns, the report, and the file, if one was written. `opened` is
    whether the file could be opened for writing. -/
def emitFile (notice : List CStr) (opened : Bool) (pszPath : CStr) (s : Report) :
    Nat × Report × Option (List UInt8) :=
  match emitFields L E K build with
  | .error msg => (2, s.print msg, none)
  | .ok f =>
    if opened = false then (2, s.print (cstr "  ! cannot write " ++ pszPath), none)
    else
      (0, s.print (cstr "  wrote " ++ pszPath ++ cstr " (" ++ backendTag build ++ cstr ", " ++
          asUnsigned f.sealed.length ++ cstr " byte body, " ++ asUnsigned f.container.length ++
          cstr " byte container)"),
        some (emit (notice ++ formatNotice build) build f))

end function

/-! ## Section 2: What is written is genuine -/

/-- The writing side of a library keeps to the scheme as well. -/
structure Emits {S : SealScheme} {w : WcharBuild} {K : KeyLens} {κ ε : Type} {L : SealLib κ ε}
    (I : Implementation S w K L) (E : EmitLib κ ε) : Prop where
  sender : E.ecdsaGenerate.1 = true ∧ ∃ blob, I.IdentityKey E.ecdsaGenerate.2 blob
  recipient : E.ecdhGenerate.1 = true ∧ ∃ m, E.ecdhExportPrivate E.ecdhGenerate.2 = some m ∧
    I.AgreementKey E.ecdhGenerate.2 (firstBytes m K.ecdhPriv)
  saves {o blob} : I.IdentityKey o blob →
    ∃ container, E.saveIdentity o = (.IdOk, some container) ∧ S.Container container blob

/-- The addresses, as text. -/
def srcText : List Char := ['S', 'e', 'a', 'l', '.', 'А', 'л', 'и', 'с', 'а']

def dstText : List Char := ['S', 'e', 'a', 'l', '.', 'C', 'a', 'r', 'o', 'l', '.', '𝄞']

theorem kSrcUtf8_eq : kSrcUtf8 = utf8 srcText := by decide +kernel

theorem kDstUtf8_eq : kDstUtf8 = utf8 dstText := by decide +kernel

theorem srcText_noNul : NoNul srcText :=
  noNul_of_all (by decide +kernel)

theorem dstText_noNul : NoNul dstText :=
  noNul_of_all (by decide +kernel)

theorem resize_firstBytes (m : Mem) {cap cb : Nat} (h : cb ≤ cap) :
    resize (firstBytes m cap) cb = firstBytes m cb := by
  unfold resize
  rw [firstBytes_take, firstBytes_length, Nat.min_eq_left h, Nat.sub_eq_zero_of_le h]
  exact List.append_nil _

section written
variable {S : SealScheme} {K : KeyLens} {κ ε : Type} {L : SealLib κ ε} {E : EmitLib κ ε}
  (build : Backend) {I : Implementation S build.wchar K L}

/-- Where the scheme is kept to, nothing fails, and the fields are those of a genuine
    vector. -/
theorem emitFields_genuine (hE : Emits I E) (hK : K.Positive) :
    ∃ f, emitFields L E K build = .ok f ∧ f.src = utf8 srcText ∧ f.dst = utf8 dstText ∧
      f.WellFormed K ∧ Genuine S f srcText dstText := by
  obtain ⟨hgen, blob, hsender⟩ := hE.sender
  obtain ⟨hgen', m, hrpriv, hrecip⟩ := hE.recipient
  obtain ⟨mSenderPub, hspub, hid⟩ := I.identityPoint hsender
  obtain ⟨mSenderPriv, hspriv, rfl⟩ := I.identityBlob hsender
  obtain ⟨mRecipPub, hrpub, hagree⟩ := I.agreementPoint hrecip
  obtain ⟨container, hsave, hcontainer⟩ := hE.saves hsender
  obtain ⟨buf, cbOut, hseal, hfits, hsealed⟩ :=
    I.seals srcText dstText kPlain hsender hid hagree (Nat.le_refl _)
  have hkeys : exportKeys L E K E.ecdsaGenerate.2 E.ecdhGenerate.2 =
      some (firstBytes mSenderPriv K.ecdsaPriv, firstBytes mSenderPub K.ecdsaPub,
        firstBytes m K.ecdhPriv, firstBytes mRecipPub K.ecdhPub) := by
    unfold exportKeys
    rw [hspriv, hspub, hrpriv, hrpub]
    rfl
  have hbody : sealPlain L E.ecdsaGenerate.2 (firstBytes mRecipPub K.ecdhPub)
      (build.wchar.encode srcText) (build.wchar.encode dstText) = .ok (firstBytes buf cbOut) := by
    unfold sealPlain
    dsimp only
    rw [wideCStr_encode _ srcText_noNul, wideCStr_encode _ dstText_noNul, hseal]
    dsimp only
    rw [resize_firstBytes buf hfits]
  refine ⟨⟨kSrcUtf8, kDstUtf8, kPlain, firstBytes mSenderPriv K.ecdsaPriv,
    firstBytes mSenderPub K.ecdsaPub, firstBytes m K.ecdhPriv, firstBytes mRecipPub K.ecdhPub,
    firstBytes buf cbOut, container⟩, ?_, kSrcUtf8_eq, kDstUtf8_eq, ?_, ?_⟩
  · unfold emitFields saveContainer
    rw [if_pos hgen, if_pos hgen', given_some_bind, given_some_bind, hkeys, given_some_bind,
      kSrcUtf8_eq, kDstUtf8_eq, wideFromUtf8_utf8, given_some_bind, wideFromUtf8_utf8,
      given_some_bind, hbody, hsave]
    rfl
  · have hne : ∀ (m : Mem) {n : Nat}, n ≠ 0 → firstBytes m n ≠ [] := by
      intro m n hn hnil
      have hlen := firstBytes_length m n
      rw [hnil] at hlen
      exact hn hlen.symm
    have hlong : cbOut ≠ 0 := by
      have hlen := S.long hsealed
      rw [firstBytes_length] at hlen
      omega
    refine ⟨?_, firstBytes_length _ _, firstBytes_length _ _, firstBytes_length _ _,
      firstBytes_length _ _⟩
    simp only [List.forall_mem_cons]
    exact ⟨by decide +kernel, by decide +kernel, by decide +kernel, hne _ hK.ecdsaPriv,
      hne _ hK.ecdsaPub, hne _ hK.ecdhPriv, hne _ hK.ecdhPub, hne _ hlong,
      S.container_ne hcontainer, by simp⟩
  · exact ⟨hsealed, hagree, hid, hcontainer⟩

/-- Where the scheme is kept to and the file can be written, `Emit` returns 0, and the file
    is the one of a genuine vector. -/
theorem emitFile_genuine (hE : Emits I E) (hK : K.Positive) (notice : List CStr) (pszPath : CStr)
    (s : Report) :
    ∃ s' f, emitFile L E K build notice true pszPath s =
        (0, s', some (emit (notice ++ formatNotice build) build f)) ∧
      f.src = utf8 srcText ∧ f.dst = utf8 dstText ∧ f.WellFormed K ∧
      Genuine S f srcText dstText := by
  obtain ⟨f, hfields, hf⟩ := emitFields_genuine build hE hK
  unfold emitFile
  rw [hfields]
  exact ⟨_, f, rfl, hf⟩

end written

/-! ## Section 3: From one build to the other -/

/-- A copy of a file, as it is checked out somewhere: blanks at line ends, other line ends,
    blank lines and comments. -/
def CopyOf (written text : List UInt8) : Prop :=
  ∃ out, Edited (fun c => isTrail c = true) Skipped (splitLines lf written) out ∧
    SpelledAs lf out text

/-- The text is a copy of what `Emit` wrote on some build. -/
def Emitted (S : SealScheme) (K : KeyLens) (text : List UInt8) : Prop :=
  ∃ (κ ε : Type) (L : SealLib κ ε) (E : EmitLib κ ε) (build : Backend)
    (I : Implementation S build.wchar K L) (notice : List CStr) (pszPath : CStr) (s : Report)
    (written : List UInt8), Emits I E ∧ (∀ l ∈ notice, IsComment l) ∧
    (emitFile L E K build notice true pszPath s).2.2 = some written ∧ CopyOf written text

theorem formatNotice_comment (build : Backend) : ∀ l ∈ formatNotice build, IsComment l := by
  unfold formatNotice IsComment
  cases build with
  | windowsCng => decide +kernel
  | linuxOpenssl => decide +kernel

/-- A copy of the file of a vector has the fields of the vector. -/
theorem readFields_copy {K : KeyLens} {notice : List CStr} (hnotice : ∀ l ∈ notice, IsComment l)
    (producer : Backend) {f : Fields} (hf : f.WellFormed K) {text : List UInt8}
    (hcopy : CopyOf (emit notice producer f) text) :
    readFields K (readVector text) = some f := by
  obtain ⟨out, hout, htext⟩ := hcopy
  have hlf : ∀ l ∈ emitLines notice producer f, lf ∉ l := by
    intro l hl
    rcases List.mem_append.mp hl with hl | hl
    · exact (hnotice l hl).2
    · obtain ⟨e, he, rfl⟩ := List.mem_map.mp hl
      exact (emitEntries_readable producer hf e he).lf_not_mem
  have hlines : splitLines lf (emit notice producer f) = emitLines notice producer f := by
    have hsplit := splitLines_joinLines lf hlf []
    rwa [List.append_nil, splitLines, List.append_nil] at hsplit
  rw [hlines] at hout
  have hnodup : ((emitEntries producer f).map Prod.fst).Nodup := by
    rw [emitEntries_keys]
    exact vectorKeys_nodup
  have hlookup : ∀ e ∈ emitEntries producer f, readVector text e.1 = some e.2 := by
    intro e he
    rw [readVector_edited hnotice producer hf hout htext]
    exact lookup_foldl_readLine _ (emitEntries_readable producer hf) hnodup he
  have hbytes : ∀ (k : CStr) (p : List UInt8) (n : Nat), (k, hex p) ∈ emitEntries producer f →
      n = 0 ∨ p.length = n → fieldBytes (readVector text) k n = some p :=
    fun k p n he hlen => fieldBytes_hex (hlookup _ he) hlen
  unfold readFields
  rw [hbytes _ f.src 0 (by simp [emitEntries]) (Or.inl rfl),
    hbytes _ f.dst 0 (by simp [emitEntries]) (Or.inl rfl),
    hbytes _ f.plain 0 (by simp [emitEntries]) (Or.inl rfl),
    hbytes _ f.sealed 0 (by simp [emitEntries]) (Or.inl rfl),
    hbytes _ f.container 0 (by simp [emitEntries]) (Or.inl rfl),
    hbytes _ f.senderPriv _ (by simp [emitEntries]) (Or.inr hf.senderPriv),
    hbytes _ f.senderPub _ (by simp [emitEntries]) (Or.inr hf.senderPub),
    hbytes _ f.recipPriv _ (by simp [emitEntries]) (Or.inr hf.recipPriv),
    hbytes _ f.recipPub _ (by simp [emitEntries]) (Or.inr hf.recipPub)]
  rfl

section across
variable {S : SealScheme} {K : KeyLens}

/-- What was written somewhere is read, and is genuine. -/
theorem Emitted.fields (hK : K.Positive) {text : List UInt8} (h : Emitted S K text) :
    ∃ f, readFields K (readVector text) = some f ∧ f.src = utf8 srcText ∧ f.dst = utf8 dstText ∧
      Genuine S f srcText dstText := by
  obtain ⟨κ, ε, L, E, build, I, notice, pszPath, s, written, hE, hnotice, hwritten, hcopy⟩ := h
  obtain ⟨s', f, hemit, hsrc, hdst, hwf, hgenuine⟩ := emitFile_genuine build hE hK notice pszPath s
  rw [hemit] at hwritten
  cases hwritten
  have hcomments : ∀ l ∈ notice ++ formatNotice build, IsComment l := by
    intro l hl
    rcases List.mem_append.mp hl with hl | hl
    · exact hnotice l hl
    · exact formatNotice_comment build l hl
  exact ⟨f, readFields_copy hcomments build hwf hcopy, hsrc, hdst, hgenuine⟩

variable {build : Backend} {κ ε : Type} {L : SealLib κ ε}

/-- **Every build opens what any build wrote**: a run over copies of emitted files, from
    whichever builds and libraries, ends with the exit code 0. -/
theorem every_build_opens (I : Implementation S build.wchar K L) (hK : K.Positive)
    (files : List VectorFile) (hfiles : ∀ file ∈ files, file.bWrote = true ∧
      ∃ text, file.bytes = some text ∧ Emitted S K text) :
    ∃ s, mainVerify L K build files = .ok (0, s) := by
  have haddr : ∀ file ∈ files, WellAddressed K file := by
    intro file hfile text f hbytes hread
    obtain ⟨_, text', htext, hemitted⟩ := hfiles file hfile
    obtain ⟨f', hread', hsrc, hdst, _⟩ := hemitted.fields hK
    rw [hbytes] at htext
    cases htext
    rw [hread] at hread'
    cases hread'
    exact ⟨srcText, dstText, hsrc, hdst, srcText_noNul, dstText_noNul⟩
  rw [mainVerify_zero_iff_clean, verifyFiles_clean_iff I hK haddr]
  intro file hfile
  obtain ⟨hwrote, text, htext, hemitted⟩ := hfiles file hfile
  obtain ⟨f, hread, hsrc, hdst, hgenuine⟩ := hemitted.fields hK
  exact ⟨hwrote, text, f, srcText, dstText, htext, hread, hsrc, hdst, hgenuine⟩

end across

/-- A library that makes the same keys every time. -/
def schemeEmit : EmitLib (List UInt8) (List UInt8) where
  ecdsaGenerate := (true, [7, 7, 7])
  ecdhGenerate := (true, [9, 9, 9])
  ecdhExportPrivate := exportBlob 3
  saveIdentity oSender := (.IdOk, some oSender)

theorem schemeEmit_emits (w : WcharBuild) : Emits (schemeImpl w) schemeEmit where
  sender := ⟨rfl, [7, 7, 7], rfl, by decide⟩
  recipient := by
    obtain ⟨m, hm, hbytes⟩ := exportBlob_eq [9, 9, 9] rfl (Nat.le_refl 3)
    refine ⟨rfl, m, hm, ?_⟩
    show HoldsBlob [9, 9, 9] (firstBytes m 3)
    rw [hbytes]
    exact ⟨rfl, by decide⟩
  saves := fun ⟨ho, hpoint⟩ => ⟨_, rfl, ho, hpoint⟩

/-- What is written on Linux, with its line ends turned to CRLF. -/
def checkedOut : List UInt8 :=
  joinLines lf ((splitLines lf ((emitFile (schemeLib .four) schemeEmit ⟨3, 2, 3, 2⟩ .linuxOpenssl []
    true (cstr "linux.vec") ⟨[], 0⟩).2.2.getD [])).map fun l => l ++ [13])

theorem every_build_opens_checkedOut :
    ∃ s, mainVerify (schemeLib .two) ⟨3, 2, 3, 2⟩ .windowsCng
      [⟨cstr "linux.vec", some checkedOut, true⟩] = .ok (0, s) := by
  have hK : KeyLens.Positive ⟨3, 2, 3, 2⟩ := ⟨by decide, by decide, by decide, by decide⟩
  refine every_build_opens (schemeImpl .two) hK _ ?_
  intro file hfile
  cases List.mem_singleton.mp hfile
  refine ⟨rfl, checkedOut, rfl, _, _, schemeLib .four, schemeEmit, .linuxOpenssl, schemeImpl .four,
    [], cstr "linux.vec", ⟨[], 0⟩, _, schemeEmit_emits .four, by simp, ?_, _,
    edited_map_append [13] (List.forall_mem_singleton.mpr (by decide)) _, Or.inl rfl⟩
  obtain ⟨s', f, hemit, _⟩ := emitFile_genuine .linuxOpenssl (schemeEmit_emits .four) hK []
    (cstr "linux.vec") ⟨[], 0⟩
  rw [hemit]
  rfl

end Seal
