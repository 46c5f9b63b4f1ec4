import MscsUnitTests.Frame.Ceiling
import MscsUnitTests.Lib.Files
import MscsUnitTests.Lib.WideText

/-! # The Text of a Message

    The programs post a literal of `wchar_t`, terminator included, and what receives it
    copies the bytes to aligned storage before it reads them: `BodyW`, `NBody` and `BodyA`,
    each of them in several of the files.

    * `posted_text_is_read`: what is posted is read back, whatever the library puts behind.
    * `readers_agree_iff`: for bytes that were not posted so, where the two narrow readers
      part. A unit can be negative where `wchar_t` is signed, and one of them does not ask.
-/

open CFiles WideText
open FuzzFrame (WCharT)

namespace Payload

/-! ## Section 1: Wide and narrow characters -/

abbrev WideChar (b : WCharT) : Type := WideUnit b.size

/-- The value of a `wchar_t`: unsigned on Windows, signed elsewhere. -/
def wcharValue : (b : WCharT) → WideChar b → Int
  | .two, u => u.toNat
  | .four, u => BitVec.toInt u

/-- The bits of an `unsigned long`. -/
def ulongBits : WCharT → Nat
  | .two => 32
  | .four => 64

/-- `(unsigned long)*w`. -/
def toUlong (b : WCharT) (u : WideChar b) : Int := wcharValue b u % 2 ^ ulongBits b

/-- `(char)c`. -/
def toChar (c : Int) : UInt8 := UInt8.ofNat (c % 256).toNat

/-- `'?'`. -/
def questionMark : UInt8 := 63

/-- A pass of the loop of `N`, in most of the files. -/
def narrowed (b : WCharT) (u : WideChar b) : UInt8 :=
  let c := toUlong b u
  if c < 0x80 then toChar c else questionMark

/-- A pass of the loop in `p2p_vnetmount.cpp` and `p2p_restartkeyx.cpp`: the comparison is of
    the `wchar_t` itself. -/
def narrowedAsIs (b : WCharT) (u : WideChar b) : UInt8 :=
  if wcharValue b u < 0x80 then toChar (wcharValue b u) else questionMark

/-! ## Section 2: Posting and reading -/

section payload
variable (b : WCharT)

/-- What is posted of a text in memory: `(wcslen(psz) + 1) * sizeof(wchar_t)` bytes. -/
def posted (psz : List (WideChar b)) : Option (List UInt8) :=
  (textOf psz).map fun text => (bytesOf psz).take ((text.length + 1) * b.size)

/-- `memcpy` to the first `n` units of `w`; nothing where it would read behind the data. -/
def copied (n : Nat) (data : List UInt8) : Option (List (WideChar b)) :=
  if n * b.size ≤ data.length then some (units b.size n data) else none

/-- `w.find(L'\0')` and `w.resize(nNul)`. -/
def resized (w : List (WideChar b)) : List (WideChar b) := w.takeWhile (· ≠ 0)

/-- `N` of a buffer. -/
def narrow (pass : WideChar b → UInt8) (w : List (WideChar b)) : Option CStr :=
  (textOf w).map (List.map pass)

/-- What a reader is given: `Data()`, which can be null as the message can. -/
abbrev PeerMsg : Type := Option (Option (List UInt8))

/-- `BodyW`. -/
def bodyW (pMsg : PeerMsg) : Option (List (WideChar b)) :=
  match pMsg.join with
  | none => some []
  | some data => (copied b (data.length / b.size) data).map (resized b)

def noDataText : CStr := cstr "<no data>"

/-- `NBody`. -/
def nBody (pMsg : PeerMsg) : Option CStr :=
  match pMsg.join with
  | none => some noDataText
  | some data =>
    if data.length ≤ 0 then some noDataText
    else do
      let w ← copied b (data.length / b.size) data
      narrow b (narrowed b) (resized b w ++ [0])

/-- `BodyA`: the buffer is a unit longer than what is copied. -/
def bodyA (pMsg : PeerMsg) : Option CStr :=
  match pMsg.join with
  | none => some []
  | some data => do
    let w ← copied b (data.length / b.size) data
    narrow b (narrowedAsIs b) (w ++ [0])

/-! ## Section 3: What the readers make of the bytes -/

/-- The units before the first zero, of those that the bytes are enough for. -/
def textIn (data : List UInt8) : List (WideChar b) :=
  (units b.size (data.length / b.size) data).takeWhile (· ≠ 0)

variable {b}

theorem copied_eq (data : List UInt8) : copied b (data.length / b.size) data =
    some (units b.size (data.length / b.size) data) := by
  unfold copied
  rw [if_pos (Nat.div_mul_le_self _ _)]

theorem ne_zero_of_mem_textIn {data : List UInt8} : ∀ u ∈ textIn b data, u ≠ 0 := by
  intro u hu
  simpa using List.mem_takeWhile_imp hu

theorem bodyW_eq (data : List UInt8) : bodyW b (some (some data)) = some (textIn b data) := by
  show (copied b (data.length / b.size) data).map (resized b) = _
  rw [copied_eq]
  rfl

theorem nBody_eq {data : List UInt8} (hne : data ≠ []) :
    nBody b (some (some data)) = some ((textIn b data).map (narrowed b)) := by
  have hlength : ¬ data.length ≤ 0 := by simpa using hne
  show (if data.length ≤ 0 then _ else (copied b _ data).bind _) = _
  rw [if_neg hlength, copied_eq]
  show (textOf (textIn b data ++ 0 :: [])).map _ = _
  rw [textOf_append ne_zero_of_mem_textIn, Option.map_some]

theorem bodyA_eq (data : List UInt8) :
    bodyA b (some (some data)) = some ((textIn b data).map (narrowedAsIs b)) := by
  show (copied b _ data).bind _ = _
  rw [copied_eq]
  show (textOf (_ ++ 0 :: [])).map _ = _
  rw [textOf_terminated, Option.map_some]
  rfl

/-- The units of a posted text come first, and with them the terminator. -/
theorem textIn_posted {text : List (WideChar b)} (hne : ∀ u ∈ text, u ≠ 0) (rest : List UInt8) :
    textIn b (bytesOf (text ++ [0]) ++ rest) = text := by
  have hsize : 0 < b.size := by cases b <;> decide
  have hcount : (bytesOf (text ++ [0]) ++ rest).length / b.size =
      (text ++ [0]).length + rest.length / b.size := by
    rw [List.length_append, length_bytesOf, Nat.add_comm, Nat.add_mul_div_right _ _ hsize,
      Nat.add_comm]
  unfold textIn
  rw [hcount, units_bytes, List.append_assoc]
  exact takeWhile_text hne _

/-- **A posted text is read back**, whatever follows it in the message. -/
theorem posted_text_is_read {psz text : List (WideChar b)} (h : textOf psz = some text)
    (rest : List UInt8) : ∃ body, posted b psz = some body ∧
      body.length = (text.length + 1) * b.size ∧
      bodyW b (some (some (body ++ rest))) = some text ∧
      nBody b (some (some (body ++ rest))) = some (text.map (narrowed b)) ∧
      bodyA b (some (some (body ++ rest))) = some (text.map (narrowedAsIs b)) := by
  obtain ⟨hne, behind, rfl⟩ := textOf_eq_some_iff.mp h
  have hlength : (bytesOf (text ++ [0])).length = (text.length + 1) * b.size := by
    rw [length_bytesOf, List.length_append, List.length_singleton]
  have hpos : 0 < (text.length + 1) * b.size := by
    have hsize : 0 < b.size := by cases b <;> decide
    exact Nat.mul_pos (Nat.succ_pos _) hsize
  have hsplit : bytesOf (text ++ 0 :: behind) = bytesOf (text ++ [0]) ++ bytesOf behind := by
    unfold bytesOf
    rw [← List.flatMap_append, List.append_assoc, List.singleton_append]
  have hread := textIn_posted hne rest
  refine ⟨bytesOf (text ++ [0]), ?_, hlength, ?_, ?_, ?_⟩
  · unfold posted
    rw [h, Option.map_some, hsplit, List.take_left' hlength]
  · rw [bodyW_eq, hread]
  · rw [nBody_eq, hread]
    intro hnil
    have hnone := (List.append_eq_nil_iff.mp hnil).1
    rw [hnone, List.length_nil] at hlength
    omega
  · rw [bodyA_eq, hread]

/-- The literal `L"Hi"`, with bytes of the library behind it. -/
theorem posted_text_is_read_hi : ∃ body, posted .four [72, 105, 0] = some body ∧
    body.length = (2 + 1) * 4 ∧
    bodyW .four (some (some (body ++ [7, 7, 7]))) = some [72, 105] ∧
    nBody .four (some (some (body ++ [7, 7, 7]))) = some (cstr "Hi") ∧
    bodyA .four (some (some (body ++ [7, 7, 7]))) = some (cstr "Hi") := by
  have htext : textOf ([72, 105, 0] : List (WideChar .four)) = some [72, 105] := by decide
  obtain ⟨body, hposted, hlength, hw, hn, ha⟩ := posted_text_is_read htext [7, 7, 7]
  exact ⟨body, hposted, hlength, hw, hn.trans (by decide), ha.trans (by decide)⟩

/-! ## Section 4: Where the readers part -/

theorem wcharValue_bounds (u : WideChar b) :
    -2 ^ 31 ≤ wcharValue b u ∧ wcharValue b u < 2 ^ 31 := by
  rcases b with _ | _
  · have h : BitVec.toNat u < 2 ^ 16 := BitVec.isLt u
    simp only [wcharValue]
    omega
  · exact ⟨BitVec.le_toInt u, BitVec.toInt_lt⟩

/-- As an `unsigned long` it is what it was, or large. -/
theorem toUlong_eq (u : WideChar b) : toUlong b u =
    if wcharValue b u < 0 then wcharValue b u + 2 ^ ulongBits b else wcharValue b u := by
  have hbounds := wcharValue_bounds u
  unfold toUlong
  split
  · next hneg =>
    rw [← Int.add_emod_right, Int.emod_eq_of_lt]
    · rcases b with _ | _ <;> simp only [ulongBits] <;> omega
    · rcases b with _ | _ <;> simp only [ulongBits] <;> omega
  · next hnonneg =>
    rw [Int.emod_eq_of_lt (by omega)]
    rcases b with _ | _ <;> simp only [ulongBits] <;> omega

theorem narrowed_eq_iff (u : WideChar b) : narrowed b u = narrowedAsIs b u ↔
    (wcharValue b u < 0 → toChar (wcharValue b u) = questionMark) := by
  have hbounds := wcharValue_bounds u
  have hlong : (2 ^ 32 : Int) ≤ 2 ^ ulongBits b := by cases b <;> decide
  unfold narrowed narrowedAsIs
  dsimp only
  rw [toUlong_eq]
  by_cases hneg : wcharValue b u < 0
  · have hlarge : ¬ wcharValue b u + 2 ^ ulongBits b < 0x80 := by omega
    have hsmall : wcharValue b u < 0x80 := by omega
    rw [if_pos hneg, if_neg hlarge, if_pos hsmall]
    exact ⟨fun h _ => h.symm, fun h => (h hneg).symm⟩
  · rw [if_neg hneg]
    exact iff_of_true rfl fun h => absurd h hneg

/-- **Where the narrow readers part**: bytes are read alike exactly when every negative unit
    before the first zero ends in the byte of a question mark. -/
theorem readers_agree_iff {data : List UInt8} (hne : data ≠ []) :
    nBody b (some (some data)) = bodyA b (some (some data)) ↔
      ∀ u ∈ textIn b data, wcharValue b u < 0 → toChar (wcharValue b u) = questionMark := by
  rw [nBody_eq hne, bodyA_eq, Option.some_inj, List.map_inj_left]
  simp only [narrowed_eq_iff]

theorem readers_agree_iff_negative :
    nBody .four (some (some [65, 0, 0, 128])) = bodyA .four (some (some [65, 0, 0, 128])) ↔
      ∀ u ∈ textIn .four [65, 0, 0, 128],
        wcharValue .four u < 0 → toChar (wcharValue .four u) = questionMark :=
  readers_agree_iff (List.cons_ne_nil _ _)

/-- Where `wchar_t` is unsigned, they do not part. -/
theorem readers_agree_unsigned {data : List UInt8} (hne : data ≠ []) :
    nBody .two (some (some data)) = bodyA .two (some (some data)) := by
  rw [readers_agree_iff hne]
  intro u _ hneg
  simp only [wcharValue] at hneg
  omega

/-- Where it is signed, they can: a unit with the high bit. -/
theorem readers_part : nBody .four (some (some [65, 0, 0, 128])) = some (cstr "?") ∧
    bodyA .four (some (some [65, 0, 0, 128])) = some (cstr "A") := by
  decide

end payload

/-! ## Section 5: Literals -/

/-- A literal of characters that `N` leaves as they are. -/
structure Literal where
  chars : CStr
  ascii : (chars.all fun c => decide (0 < c.toNat ∧ c.toNat < 128)) = true

/-- The literal as an array of `wchar_t`, without the terminator. -/
def Literal.wide (b : WCharT) (text : Literal) : List (WideChar b) :=
  text.chars.map fun c => BitVec.ofNat _ c.toNat

theorem toNat_wideChar (b : WCharT) {c : UInt8} (hc : c.toNat < 128) :
    (BitVec.ofNat (8 * b.size) c.toNat).toNat = c.toNat := by
  rw [BitVec.toNat_ofNat, Nat.mod_eq_of_lt]
  cases b with
  | two => exact Nat.lt_trans hc (by decide)
  | four => exact Nat.lt_trans hc (by decide)

theorem Literal.textOf_wide (b : WCharT) (text : Literal) :
    textOf (text.wide b ++ [0]) = some (text.wide b) := by
  refine textOf_append ?_ []
  intro u hu
  obtain ⟨c, hc, rfl⟩ := List.mem_map.mp hu
  have hascii := List.all_eq_true.mp text.ascii c hc
  rw [decide_eq_true_iff] at hascii
  intro hzero
  have hnat : c.toNat = 0 := by
    rw [← toNat_wideChar b hascii.2, hzero]
    exact BitVec.toNat_zero
  omega

theorem narrowed_wideChar (b : WCharT) {c : UInt8} (hc : c.toNat < 128) :
    narrowed b (BitVec.ofNat _ c.toNat) = c := by
  have hvalue : wcharValue b (BitVec.ofNat _ c.toNat) = (c.toNat : Int) := by
    have hnat := toNat_wideChar b hc
    cases b with
    | two => exact congrArg Nat.cast hnat
    | four =>
      show BitVec.toInt _ = _
      rw [BitVec.toInt_eq_toNat_of_lt]
      · exact congrArg Nat.cast hnat
      · rw [hnat]
        exact Nat.lt_trans (Nat.mul_lt_mul_of_pos_left hc (by decide)) (by decide)
  unfold narrowed
  dsimp only
  have hlong : toUlong b (BitVec.ofNat _ c.toNat) = (c.toNat : Int) := by
    rw [toUlong_eq, hvalue, if_neg (by omega)]
  rw [hlong, if_pos (by omega)]
  unfold toChar
  rw [Int.emod_eq_of_lt (by omega) (by omega), Int.toNat_natCast, UInt8.ofNat_toNat]

/-- A literal is printed as it is written. -/
theorem Literal.map_narrowed (b : WCharT) (text : Literal) :
    (text.wide b).map (narrowed b) = text.chars := by
  unfold Literal.wide
  rw [List.map_map]
  refine (List.map_congr_left ?_).trans (List.map_id _)
  intro c hc
  have hascii := List.all_eq_true.mp text.ascii c hc
  rw [decide_eq_true_iff] at hascii
  exact narrowed_wideChar b hascii.2

end Payload
