import Mathlib.Data.List.DropRight
import Mathlib.Data.List.Nodup
import MscsUnitTests.Lib.Files
import MscsUnitTests.Lib.Lines

/-! # The Seal Vectors: Writing and Reading the File

    A vector is a text of lines `key value` that `Emit` of `seal_interop.cpp` writes on
    one backend and `ReadVector` reads on the other. The files are checked in, so the
    line ends are those of whoever checked them out.
-/

open CFiles TextLines

namespace Seal

/-! ## Section 1: Hex -/

/-- `Hex`. -/
def hex (p : List UInt8) : CStr :=
  let k := cstr "0123456789abcdef"
  p.flatMap fun (b : UInt8) => [k.getD (b >>> 4).toNat 0, k.getD (b &&& 0x0F).toNat 0]

/-- The value of a digit. -/
def digitValue (c : UInt8) : Option Nat :=
  if 48 ≤ c ∧ c ≤ 57 then some (c.toNat - 48)
  else if 97 ≤ c ∧ c ≤ 102 then some (c.toNat - 97 + 10)
  else if 65 ≤ c ∧ c ≤ 70 then some (c.toNat - 65 + 10)
  else none

/-- The loop of `UnHex`, two characters at a time. -/
def unHexPairs : CStr → Option (List UInt8)
  | [] => some []
  | [_] => none
  | c₁ :: c₀ :: rest =>
    match digitValue c₁, digitValue c₀ with
    | some hi, some lo => (unHexPairs rest).map (UInt8.ofNat (hi <<< 4 ||| lo) :: ·)
    | _, _ => none

/-- `UnHex`. -/
def unHex (sIn : CStr) : Option (List UInt8) :=
  if sIn.length % 2 ≠ 0 then none else unHexPairs sIn

/-- The sixteen digits are read as they are written. -/
theorem digitValue_digit : ∀ v < 16,
    digitValue ((cstr "0123456789abcdef").getD v 0) = some v := by decide

/-- A byte is its two halves. -/
theorem byte_halves (b : UInt8) :
    (b >>> 4).toNat < 16 ∧ (b &&& 0x0F).toNat < 16 ∧
      UInt8.ofNat ((b >>> 4).toNat <<< 4 ||| (b &&& 0x0F).toNat) = b := by
  have hall : ∀ n < 256, (UInt8.ofNat n >>> 4).toNat < 16 ∧ (UInt8.ofNat n &&& 0x0F).toNat < 16 ∧
      UInt8.ofNat ((UInt8.ofNat n >>> 4).toNat <<< 4 ||| (UInt8.ofNat n &&& 0x0F).toNat)
        = UInt8.ofNat n := by
    decide +kernel
  have hb := hall b.toNat b.toNat_lt
  rwa [UInt8.ofNat_toNat] at hb

theorem hex_cons (b : UInt8) (p : List UInt8) :
    hex (b :: p) = (cstr "0123456789abcdef").getD (b >>> 4).toNat 0 ::
      (cstr "0123456789abcdef").getD (b &&& 0x0F).toNat 0 :: hex p := rfl

theorem hex_length (p : List UInt8) : (hex p).length = 2 * p.length := by
  induction p with
  | nil => rfl
  | cons b p ih =>
    rw [hex_cons, List.length_cons, List.length_cons, ih, List.length_cons]
    omega

theorem unHexPairs_hex (p : List UInt8) : unHexPairs (hex p) = some p := by
  induction p with
  | nil => rfl
  | cons b p ih =>
    obtain ⟨hhi, hlo, hb⟩ := byte_halves b
    rw [hex_cons]
    unfold unHexPairs
    rw [digitValue_digit _ hhi, digitValue_digit _ hlo]
    dsimp only
    rw [ih, hb]
    rfl

/-- `UnHex` undoes `Hex`. -/
theorem unHex_hex (p : List UInt8) : unHex (hex p) = some p := by
  unfold unHex
  rw [if_neg (by rw [hex_length]; omega), unHexPairs_hex]

/-- Only digits are written. -/
theorem mem_hex {c : UInt8} {p : List UInt8} (h : c ∈ hex p) :
    c ∈ cstr "0123456789abcdef" := by
  have hdigit : ∀ v < 16, (cstr "0123456789abcdef").getD v 0 ∈ cstr "0123456789abcdef" := by decide
  induction p with
  | nil => cases h
  | cons b p ih =>
    obtain ⟨hhi, hlo, _⟩ := byte_halves b
    rw [hex_cons] at h
    rcases List.mem_cons.mp h with rfl | h
    · exact hdigit _ hhi
    · rcases List.mem_cons.mp h with rfl | h
      · exact hdigit _ hlo
      · exact ih h

/-! ## Section 2: The reader -/

/-- The line end. -/
def lf : UInt8 := 10

/-- What `ReadVector` takes off the end of a line: `'\\r'` and `' '`. -/
def isTrail (c : UInt8) : Bool := c == 13 || c == 32

/-- `Vec`: the fields by key. -/
abbrev Vec : Type := CStr → Option CStr

/-- One line of `ReadVector`. -/
def readLine (oOut : Vec) (sLine : CStr) : Vec :=
  let s := sLine.rdropWhile isTrail
  if s = [] ∨ s.head? = some 35 then oOut
  else if 32 ∈ s then
    -- the first space stands between key and value
    Function.update oOut (s.takeWhile (· != 32)) (some (s.dropWhile (· != 32)).tail)
  else oOut

/-- `ReadVector`, on the bytes of the file. -/
def readVector (sAll : List UInt8) : Vec :=
  (splitLines lf sAll).foldl readLine fun _ => none

/-- `Field`. -/
def field (oVec : Vec) (pszKey : CStr) : Option CStr := oVec pszKey

/-- `FieldBytes`; an expected size of 0 is none. -/
def fieldBytes (oVec : Vec) (pszKey : CStr) (cbExpect : Nat) : Option (List UInt8) :=
  match field oVec pszKey with
  | none => none
  | some s =>
    match unHex s with
    | none => none
    | some vOut => if cbExpect ≠ 0 ∧ vOut.length ≠ cbExpect then none else some vOut

/-! ## Section 3: The writer -/

/-- Which backend writes. -/
inductive Backend where
  | windowsCng | linuxOpenssl
  deriving DecidableEq

/-- `BackendTag`. -/
def backendTag : Backend → CStr
  | .windowsCng => cstr "windows-cng"
  | .linuxOpenssl => cstr "linux-openssl"

/-- The binary fields of a vector. -/
structure Fields where
  src : List UInt8
  dst : List UInt8
  plain : List UInt8
  senderPriv : List UInt8
  senderPub : List UInt8
  recipPriv : List UInt8
  recipPub : List UInt8
  sealed : List UInt8
  container : List UInt8

/-- `kEcdsaPrivLen` and its three siblings, of the crypto library. -/
structure KeyLens where
  ecdsaPriv : Nat
  ecdsaPub : Nat
  ecdhPriv : Nat
  ecdhPub : Nat

/-- The keys and values that `Emit` writes, in its order. -/
def emitEntries (producer : Backend) (f : Fields) : List (CStr × CStr) :=
  [ (cstr "version", cstr "1"),
    (cstr "producer", backendTag producer),
    (cstr "src_utf8", hex f.src),
    (cstr "dst_utf8", hex f.dst),
    (cstr "plain", hex f.plain),
    (cstr "sender_priv", hex f.senderPriv),
    (cstr "sender_pub", hex f.senderPub),
    (cstr "recip_priv", hex f.recipPriv),
    (cstr "recip_pub", hex f.recipPub),
    (cstr "sealed", hex f.sealed),
    (cstr "container", hex f.container) ]

/-- `"%s %s"`. -/
def entryLine (e : CStr × CStr) : CStr := e.1 ++ 32 :: e.2

/-- A line the reader passes over because it begins with `'#'`. -/
def IsComment (l : CStr) : Prop := l.head? = some 35 ∧ lf ∉ l

/-- The lines of `Emit`, behind the notice it begins with. -/
def emitLines (notice : List CStr) (producer : Backend) (f : Fields) : List CStr :=
  notice ++ (emitEntries producer f).map entryLine

/-- The file `Emit` writes. -/
def emit (notice : List CStr) (producer : Backend) (f : Fields) : List UInt8 :=
  joinLines lf (emitLines notice producer f)

/-! ## Section 4: What the reader does not notice -/

theorem readLine_congr {l l' : CStr} (h : l.rdropWhile isTrail = l'.rdropWhile isTrail) (m : Vec) :
    readLine m l = readLine m l' := by
  unfold readLine
  rw [h]

theorem rdropWhile_trail (l trail : CStr) (h : ∀ c ∈ trail, isTrail c = true) :
    (l ++ trail).rdropWhile isTrail = l.rdropWhile isTrail := by
  unfold List.rdropWhile
  rw [List.reverse_append, List.dropWhile_append_of_pos]
  intro c hc
  exact h c (List.mem_reverse.mp hc)

theorem readLine_trail (m : Vec) (l trail : CStr) (h : ∀ c ∈ trail, isTrail c = true) :
    readLine m (l ++ trail) = readLine m l :=
  readLine_congr (rdropWhile_trail l trail h) m

theorem readLine_blank (m : Vec) {l : CStr} (h : ∀ c ∈ l, isTrail c = true) : readLine m l = m := by
  have hempty := rdropWhile_trail [] l h
  unfold readLine
  rw [List.nil_append] at hempty
  rw [hempty]
  exact if_pos (Or.inl rfl)

theorem readLine_comment (m : Vec) {l : CStr} (h : l.head? = some 35) : readLine m l = m := by
  cases l with
  | nil => cases h
  | cons c l =>
    have hc : c = 35 := Option.some.inj h
    -- the sharp is not trimmed, however much of the rest is
    have hne : (c :: l).rdropWhile isTrail ≠ [] := by
      intro hnil
      have htrail := List.rdropWhile_eq_nil_iff.mp hnil c List.mem_cons_self
      rw [hc] at htrail
      cases htrail
    have hhead : ((c :: l).rdropWhile isTrail).head? = some 35 := by
      obtain ⟨rest, hrest⟩ := List.rdropWhile_prefix isTrail (c :: l)
      cases hkept : (c :: l).rdropWhile isTrail with
      | nil => exact absurd hkept hne
      | cons c' kept =>
        rw [hkept] at hrest
        rw [List.head?_cons, (List.cons.inj hrest).1, hc]
    unfold readLine
    dsimp only
    rw [if_pos (Or.inr hhead)]

/-- An entry that is read as it was written. -/
structure Readable (e : CStr × CStr) : Prop where
  key_ne : e.1 ≠ []
  key_sharp : e.1.head? ≠ some 35
  key : ∀ c ∈ e.1, c ≠ 32 ∧ c ≠ lf
  value_ne : e.2 ≠ []
  value : ∀ c ∈ e.2, isTrail c = false ∧ c ≠ lf

theorem Readable.line_keep {e : CStr × CStr} (h : Readable e) :
    (entryLine e).rdropWhile isTrail = entryLine e := by
  rw [List.rdropWhile_eq_self_iff]
  intro hne
  have hlast : (entryLine e).getLast hne = e.2.getLast h.value_ne :=
    (List.getLast_append_of_ne_nil _ (List.cons_ne_nil 32 e.2)).trans (List.getLast_cons h.value_ne)
  rw [hlast, (h.value _ (List.getLast_mem h.value_ne)).1]
  exact Bool.false_ne_true

theorem Readable.lf_not_mem {e : CStr × CStr} (h : Readable e) : lf ∉ entryLine e := by
  unfold entryLine
  rw [List.mem_append, List.mem_cons]
  intro hlf
  rcases hlf with hkey | hspace | hvalue
  · exact (h.key lf hkey).2 rfl
  · cases hspace
  · exact (h.value lf hvalue).2 rfl

/-- The line of an entry sets its key. -/
theorem readLine_entry (m : Vec) {e : CStr × CStr} (h : Readable e) :
    readLine m (entryLine e) = Function.update m e.1 (some e.2) := by
  have hkey : ∀ c ∈ e.1, (c != 32) = true := by
    intro c hc
    simpa using (h.key c hc).1
  have hhead : (entryLine e).head? ≠ some 35 := by
    unfold entryLine
    rw [List.head?_append_of_ne_nil _ h.key_ne]
    exact h.key_sharp
  have hne : entryLine e ≠ [] := by simp [entryLine]
  have hspace : 32 ∈ entryLine e := by simp [entryLine]
  unfold readLine
  rw [h.line_keep]
  dsimp only
  rw [if_neg (by simp [hne, hhead]), if_pos hspace]
  unfold entryLine
  rw [List.takeWhile_append_of_pos hkey, List.dropWhile_append_of_pos hkey]
  simp

/-- A key that no entry has keeps its value. -/
theorem foldl_readLine_other {es : List (CStr × CStr)} {k : CStr} (m : Vec)
    (hes : ∀ e ∈ es, Readable e) (hk : k ∉ es.map Prod.fst) :
    (es.map entryLine).foldl readLine m k = m k := by
  induction es generalizing m with
  | nil => rfl
  | cons e es ih =>
    rw [List.map_cons, List.mem_cons, not_or] at hk
    rw [List.map_cons, List.foldl_cons, readLine_entry m (hes e List.mem_cons_self),
      ih _ (fun e' he' => hes e' (List.mem_cons_of_mem _ he')) hk.2, Function.update_of_ne hk.1]

/-- Entries with different keys are all found. -/
theorem lookup_foldl_readLine {es : List (CStr × CStr)} (m : Vec) (hes : ∀ e ∈ es, Readable e)
    (hkeys : (es.map Prod.fst).Nodup) {e : CStr × CStr} (he : e ∈ es) :
    (es.map entryLine).foldl readLine m e.1 = some e.2 := by
  induction es generalizing m with
  | nil => cases he
  | cons e' es ih =>
    rw [List.map_cons, List.nodup_cons] at hkeys
    rw [List.map_cons, List.foldl_cons, readLine_entry m (hes e' List.mem_cons_self)]
    have hrest : ∀ e ∈ es, Readable e := fun e he => hes e (List.mem_cons_of_mem _ he)
    rcases List.mem_cons.mp he with rfl | he
    · rw [foldl_readLine_other _ hrest hkeys.1, Function.update_self]
    · exact ih _ hrest hkeys.2 he

/-! ## Section 5: Reading back what was written -/

/-- Non-empty fields, and keys of the lengths of the library. -/
structure Fields.WellFormed (K : KeyLens) (f : Fields) : Prop where
  nonempty : ∀ p ∈ [f.src, f.dst, f.plain, f.senderPriv, f.senderPub, f.recipPriv, f.recipPub,
    f.sealed, f.container], p ≠ []
  senderPriv : f.senderPriv.length = K.ecdsaPriv
  senderPub : f.senderPub.length = K.ecdsaPub
  recipPriv : f.recipPriv.length = K.ecdhPriv
  recipPub : f.recipPub.length = K.ecdhPub

/-- The nine fields as `Verify` takes them from a vector; `none` is a malformed one. -/
def readFields (K : KeyLens) (oVec : Vec) : Option Fields := do
  let src ← fieldBytes oVec (cstr "src_utf8") 0
  let dst ← fieldBytes oVec (cstr "dst_utf8") 0
  let plain ← fieldBytes oVec (cstr "plain") 0
  let sealed ← fieldBytes oVec (cstr "sealed") 0
  let container ← fieldBytes oVec (cstr "container") 0
  let senderPriv ← fieldBytes oVec (cstr "sender_priv") K.ecdsaPriv
  let senderPub ← fieldBytes oVec (cstr "sender_pub") K.ecdsaPub
  let recipPriv ← fieldBytes oVec (cstr "recip_priv") K.ecdhPriv
  let recipPub ← fieldBytes oVec (cstr "recip_pub") K.ecdhPub
  return ⟨src, dst, plain, senderPriv, senderPub, recipPriv, recipPub, sealed, container⟩

theorem fieldBytes_hex {oVec : Vec} {pszKey : CStr} {p : List UInt8} {cbExpect : Nat}
    (h : oVec pszKey = some (hex p)) (hlen : cbExpect = 0 ∨ p.length = cbExpect) :
    fieldBytes oVec pszKey cbExpect = some p := by
  unfold fieldBytes field
  rw [h]
  dsimp only
  rw [unHex_hex]
  dsimp only
  rw [if_neg (by omega)]

/-- The keys in the order in which they are written. -/
def vectorKeys : List CStr :=
  [cstr "version", cstr "producer", cstr "src_utf8", cstr "dst_utf8", cstr "plain",
    cstr "sender_priv", cstr "sender_pub", cstr "recip_priv", cstr "recip_pub", cstr "sealed",
    cstr "container"]

theorem emitEntries_keys (producer : Backend) (f : Fields) :
    (emitEntries producer f).map Prod.fst = vectorKeys := rfl

theorem vectorKeys_nodup : vectorKeys.Nodup := by
  decide +kernel

/-- Every key is one word, and none of them begins a comment. -/
theorem vectorKeys_word : ∀ k ∈ vectorKeys,
    k ≠ [] ∧ k.head? ≠ some 35 ∧ ∀ c ∈ k, c ≠ 32 ∧ c ≠ lf := by
  decide +kernel

/-- A value that is read back: it is not empty, and nothing in it is cut off. -/
def KeptValue (v : CStr) : Prop :=
  v ≠ [] ∧ ∀ c ∈ v, isTrail c = false ∧ c ≠ lf

instance (v : CStr) : Decidable (KeptValue v) :=
  inferInstanceAs (Decidable (_ ∧ _))

theorem keptValue_hex {p : List UInt8} (hp : p ≠ []) : KeptValue (hex p) := by
  have hdigits : ∀ c ∈ cstr "0123456789abcdef", isTrail c = false ∧ c ≠ lf := by decide +kernel
  constructor
  · intro hnil
    have hlen := hex_length p
    rw [hnil, List.length_nil] at hlen
    exact hp (List.eq_nil_of_length_eq_zero (by omega))
  · intro c hc
    exact hdigits c (mem_hex hc)

theorem emitEntries_kept (producer : Backend) {f : Fields} {K : KeyLens}
    (hf : f.WellFormed K) : ∀ e ∈ emitEntries producer f, KeptValue e.2 := by
  have hne := hf.nonempty
  simp only [List.forall_mem_cons] at hne
  obtain ⟨h₁, h₂, h₃, h₄, h₅, h₆, h₇, h₈, h₉, _⟩ := hne
  have hversion : KeptValue (cstr "1") := by decide +kernel
  have hproducer : ∀ producer, KeptValue (backendTag producer) := by
    intro producer
    cases producer with
    | windowsCng => decide +kernel
    | linuxOpenssl => decide +kernel
  unfold emitEntries
  simp only [List.forall_mem_cons]
  exact ⟨hversion, hproducer producer, keptValue_hex h₁, keptValue_hex h₂, keptValue_hex h₃,
    keptValue_hex h₄, keptValue_hex h₅, keptValue_hex h₆, keptValue_hex h₇, keptValue_hex h₈,
    keptValue_hex h₉, by simp⟩

theorem emitEntries_readable (producer : Backend) {f : Fields} {K : KeyLens}
    (hf : f.WellFormed K) : ∀ e ∈ emitEntries producer f, Readable e := by
  intro e he
  have hkey : e.1 ∈ vectorKeys := by
    rw [← emitEntries_keys producer f]
    exact List.mem_map_of_mem he
  obtain ⟨hne, hsharp, hword⟩ := vectorKeys_word e.1 hkey
  obtain ⟨hvalue, hkept⟩ := emitEntries_kept producer hf e he
  exact ⟨hne, hsharp, hword, hvalue, hkept⟩

/-- A blank line, or a comment. -/
def Skipped (l : CStr) : Prop :=
  (∀ c ∈ l, isTrail c = true) ∨ IsComment l

/-- What `ReadVector` makes of an edited file is what it makes of the entries. -/
theorem readVector_edited {notice : List CStr} (hnotice : ∀ l ∈ notice, IsComment l)
    (producer : Backend) {f : Fields} {K : KeyLens} (hf : f.WellFormed K) {out : List CStr}
    (hout : Edited (fun c => isTrail c = true) Skipped (emitLines notice producer f) out)
    {text : List UInt8} (htext : SpelledAs lf out text) :
    readVector text =
      ((emitEntries producer f).map entryLine).foldl readLine fun _ => none := by
  have hread := emitEntries_readable producer hf
  have hlf : ∀ l ∈ out, lf ∉ l := by
    apply hout.not_mem
    · intro l hl
      rcases List.mem_append.mp hl with hl | hl
      · exact (hnotice l hl).2
      · obtain ⟨e, he, rfl⟩ := List.mem_map.mp hl
        exact (hread e he).lf_not_mem
    · decide
    · intro l hl hmem
      rcases hl with hblank | hcomment
      · exact absurd (hblank lf hmem) (by decide)
      · exact hcomment.2 hmem
  have hskip : ∀ (m : Vec) l, Skipped l → readLine m l = m := by
    intro m l hl
    rcases hl with hblank | hcomment
    · exact readLine_blank m hblank
    · exact readLine_comment m hcomment.1
  have hcomments : ∀ (ls : List CStr) (m : Vec), (∀ l ∈ ls, IsComment l) →
      ls.foldl readLine m = m := by
    intro ls
    induction ls with
    | nil =>
      intro m _
      rfl
    | cons l ls ih =>
      intro m h
      rw [List.foldl_cons, readLine_comment m (h l List.mem_cons_self).1]
      exact ih m fun l' hl' => h l' (List.mem_cons_of_mem _ hl')
  unfold readVector
  rw [foldl_spelledAs lf (fun m => readLine_blank m (by simp)) hlf htext,
    foldl_edited readLine_trail hskip hout]
  unfold emitLines
  rw [List.foldl_append, hcomments notice _ hnotice]

/-- The file as it was written is one of them. -/
theorem emit_spelled (notice : List CStr) (producer : Backend) (f : Fields) :
    ∃ out, Edited (fun c => isTrail c = true) Skipped (emitLines notice producer f) out ∧
      SpelledAs lf out (emit notice producer f) :=
  ⟨_, .refl _, Or.inl rfl⟩

/-- **A vector is read back as it was written**, whatever became of its line ends, and
    whatever blank and comment lines were put in. -/
theorem vector_reads_back (K : KeyLens) (notice : List CStr) (hnotice : ∀ l ∈ notice, IsComment l)
    (producer : Backend) (f : Fields) (hf : f.WellFormed K) (out : List CStr)
    (hout : Edited (fun c => isTrail c = true) Skipped (emitLines notice producer f) out)
    (text : List UInt8) (htext : SpelledAs lf out text) :
    readFields K (readVector text) = some f ∧
    field (readVector text) (cstr "producer") = some (backendTag producer) ∧
    field (readVector text) (cstr "version") = some (cstr "1") ∧
    ∀ p, unHex (hex p) = some p := by
  have hnodup : ((emitEntries producer f).map Prod.fst).Nodup := by
    rw [emitEntries_keys]
    exact vectorKeys_nodup
  have hlookup : ∀ e ∈ emitEntries producer f, readVector text e.1 = some e.2 := by
    intro e he
    rw [readVector_edited hnotice producer hf hout htext]
    exact lookup_foldl_readLine _ (emitEntries_readable producer hf) hnodup he
  unfold emitEntries at hlookup
  simp only [List.forall_mem_cons] at hlookup
  obtain ⟨hversion, hproducer, hsrc, hdst, hplain, hspriv, hspub, hrpriv, hrpub, hsealed, hcont, _⟩ :=
    hlookup
  refine ⟨?_, hproducer, hversion, unHex_hex⟩
  unfold readFields
  rw [fieldBytes_hex hsrc (Or.inl rfl), fieldBytes_hex hdst (Or.inl rfl),
    fieldBytes_hex hplain (Or.inl rfl), fieldBytes_hex hsealed (Or.inl rfl),
    fieldBytes_hex hcont (Or.inl rfl), fieldBytes_hex hspriv (Or.inr hf.senderPriv),
    fieldBytes_hex hspub (Or.inr hf.senderPub), fieldBytes_hex hrpriv (Or.inr hf.recipPriv),
    fieldBytes_hex hrpub (Or.inr hf.recipPub)]
  rfl

/-- One byte in each field. -/
def tinyFields : Fields := ⟨[0x53], [0xF0], [0xE2], [1], [2], [3], [4], [0xFF], [0]⟩

/-- The tiny vector, with a comment put in front and its line ends turned to CRLF. -/
def tinyEdited : List CStr :=
  cstr "# checked out" :: (emitLines [] .linuxOpenssl tinyFields).map fun l => l ++ [13]

theorem vector_reads_back_tiny :
    readFields ⟨1, 1, 1, 1⟩ (readVector (joinLines lf tinyEdited)) = some tinyFields ∧
    field (readVector (joinLines lf tinyEdited)) (cstr "producer") =
      some (backendTag .linuxOpenssl) ∧
    field (readVector (joinLines lf tinyEdited)) (cstr "version") = some (cstr "1") ∧
    ∀ p, unHex (hex p) = some p := by
  have hcomment : IsComment (cstr "# checked out") := by
    constructor
    · decide +kernel
    · decide +kernel
  have hedited : Edited (fun c => isTrail c = true) Skipped
      (emitLines [] .linuxOpenssl tinyFields) tinyEdited :=
    .insert _ (Or.inr hcomment) (edited_map_append [13] (by decide +kernel) _)
  exact vector_reads_back ⟨1, 1, 1, 1⟩ [] (by simp) .linuxOpenssl tinyFields
    ⟨by decide, rfl, rfl, rfl, rfl⟩ tinyEdited hedited _ (Or.inl rfl)

end Seal
