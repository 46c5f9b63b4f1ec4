import Mathlib.Data.List.DropRight
import Mathlib.Data.List.Lex
import Mathlib.Algebra.Group.Nat.Defs
import Mathlib.Logic.Function.Basic

/-! # C Strings and a File System

    * `CStr`: the bytes of a C string, without the terminating zero.
    * `fit`: what `snprintf` and `strncpy` keep of a string in a buffer.
    * `strcmp`: the order of the C library, on unsigned bytes.
    * `FileSys`: which directory a path names, and what each directory holds.
      A path is opened by resolving what stands before its last slash and
      looking the rest up there; a file is only ever created in a directory that
      exists.
-/

namespace CFiles

/-! ## Section 1: C strings -/

/-- The bytes of a C string. -/
abbrev CStr : Type := List UInt8

/-- A literal. -/
def cstr (s : String) : CStr := s.toList.map fun c => UInt8.ofNat c.toNat

/-- The separator of path components. -/
def slash : UInt8 := 47

/-- What a buffer of `cap` bytes keeps of a string. -/
def fit (cap : Nat) (s : CStr) : CStr := s.take (cap - 1)

theorem fit_of_lt {cap : Nat} {s : CStr} (h : s.length < cap) : fit cap s = s := by
  unfold fit
  exact List.take_of_length_le (by omega)

/-- `strcmp`. -/
def strcmp : CStr → CStr → Ordering
  | [], [] => .eq
  | [], _ :: _ => .lt
  | _ :: _, [] => .gt
  | a :: as, b :: bs => if a < b then .lt else if b < a then .gt else strcmp as bs

/-- `strcmp` is the dictionary order of the byte values. -/
theorem strcmp_gt_iff (a b : CStr) :
    strcmp a b = .gt ↔ b.map UInt8.toNat < a.map UInt8.toNat := by
  induction a generalizing b with
  | nil =>
    cases b with
    | nil => simp [strcmp]
    | cons y ys => simp [strcmp]
  | cons x xs ih =>
    cases b with
    | nil => simp [strcmp]
    | cons y ys =>
      unfold strcmp
      rw [List.map_cons, List.map_cons, List.cons_lt_cons_iff]
      split
      · next hlt =>
        have hlt' : x.toNat < y.toNat := hlt
        constructor
        · intro h
          cases h
        · intro h
          omega
      · next hge =>
        have hge' : ¬ x.toNat < y.toNat := hge
        split
        · next hgt => exact ⟨fun _ => Or.inl hgt, fun _ => rfl⟩
        · next hle =>
          have hle' : ¬ y.toNat < x.toNat := hle
          rw [ih ys]
          constructor
          · intro h
            exact Or.inr ⟨by omega, h⟩
          · intro h
            rcases h with h | ⟨_, h⟩
            · omega
            · exact h

/-- `a` does not stand behind `b` in that order. -/
def StrLe (a b : CStr) : Prop := strcmp a b ≠ .gt

theorem strLe_iff (a b : CStr) : StrLe a b ↔ a.map UInt8.toNat ≤ b.map UInt8.toNat := by
  unfold StrLe
  rw [Ne, strcmp_gt_iff, not_lt]

theorem StrLe.trans {a b c : CStr} (h₁ : StrLe a b) (h₂ : StrLe b c) : StrLe a c := by
  rw [strLe_iff] at *
  exact h₁.trans h₂

theorem StrLe.antisymm {a b : CStr} (h₁ : StrLe a b) (h₂ : StrLe b a) : a = b := by
  rw [strLe_iff] at h₁ h₂
  have hinj : Function.Injective UInt8.toNat := fun x y h => UInt8.toNat_inj.mp h
  exact List.map_injective_iff.mpr hinj (h₁.antisymm h₂)

theorem strLe_of_gt {a b : CStr} (h : strcmp a b = .gt) : StrLe b a := by
  rw [strLe_iff]
  exact ((strcmp_gt_iff a b).mp h).le

/-- `%0Nx` with `digits` digits. -/
def hexPadded (digits v : Nat) : CStr :=
  (List.range digits).map fun i =>
    (cstr "0123456789abcdef").getD (v / 16 ^ (digits - 1 - i) % 16) 0

/-- `"%s/%s"`. -/
def joinPath (dir leaf : CStr) : CStr := dir ++ slash :: leaf

/-! ## Section 2: Paths -/

/-- What stands behind the last slash. -/
def leafOf (path : CStr) : CStr := path.rtakeWhile (· != slash)

/-- What stands before the last slash: the root when that is nothing, the current
    directory when there is no slash. -/
def parentOf (path : CStr) : CStr :=
  if slash ∈ path then
    let dir := (path.rdropWhile (· != slash)).dropLast
    if dir = [] then [slash] else dir
  else cstr "."

theorem reverse_all_ne_slash {leaf : CStr} (h : slash ∉ leaf) :
    ∀ b ∈ leaf.reverse, (b != slash) = true := by
  intro b hb
  have hne : b ≠ slash := fun e => h (e ▸ List.mem_reverse.mp hb)
  simpa using hne

theorem leafOf_joinPath {leaf : CStr} (h : slash ∉ leaf) (dir : CStr) :
    leafOf (joinPath dir leaf) = leaf := by
  unfold leafOf joinPath List.rtakeWhile
  rw [List.reverse_append, List.reverse_cons, List.append_assoc,
    List.takeWhile_append_of_pos (reverse_all_ne_slash h)]
  simp

theorem slash_not_mem_hexPadded (digits v : Nat) : slash ∉ hexPadded digits v := by
  have hdigit : ∀ k < 16, (cstr "0123456789abcdef").getD k 0 ≠ slash := by decide
  unfold hexPadded
  intro h
  obtain ⟨i, -, hi⟩ := List.mem_map.mp h
  exact hdigit _ (Nat.mod_lt _ (by omega)) hi

/-- A number is known by its hexadecimal digits. -/
theorem eq_of_hexDigits {n v w : Nat} (hv : v < 16 ^ n) (hw : w < 16 ^ n)
    (h : ∀ i < n, v / 16 ^ i % 16 = w / 16 ^ i % 16) : v = w := by
  induction n generalizing v w with
  | zero => omega
  | succ n ih =>
    -- the last digit, and the others by what the hypothesis says of the quotients
    have hlast := h 0 (by omega)
    have hrest : v / 16 = w / 16 := by
      apply ih
      · rw [Nat.div_lt_iff_lt_mul (by omega), ← Nat.pow_succ]
        exact hv
      · rw [Nat.div_lt_iff_lt_mul (by omega), ← Nat.pow_succ]
        exact hw
      · intro i hi
        have hdigit := h (i + 1) (by omega)
        rw [Nat.pow_succ, Nat.mul_comm, ← Nat.div_div_eq_div_mul, ← Nat.div_div_eq_div_mul] at hdigit
        exact hdigit
    rw [Nat.pow_zero, Nat.div_one, Nat.div_one] at hlast
    omega

theorem hexPadded_inj {n v w : Nat} (hv : v < 16 ^ n) (hw : w < 16 ^ n)
    (h : hexPadded n v = hexPadded n w) : v = w := by
  have hchar : ∀ a < 16, ∀ b < 16, (cstr "0123456789abcdef").getD a 0
      = (cstr "0123456789abcdef").getD b 0 → a = b := by decide
  apply eq_of_hexDigits hv hw
  intro i hi
  unfold hexPadded at h
  rw [List.map_inj_left] at h
  -- position `i` from the right stands at `n - 1 - i`
  have hat := h (n - 1 - i) (List.mem_range.mpr (by omega))
  rw [show n - 1 - (n - 1 - i) = i by omega] at hat
  exact hchar _ (Nat.mod_lt _ (by omega)) _ (Nat.mod_lt _ (by omega)) hat

theorem hexPadded_length (digits v : Nat) : (hexPadded digits v).length = digits := by
  simp [hexPadded]

theorem joinPath_assoc (dir sub leaf : CStr) :
    joinPath dir (joinPath sub leaf) = joinPath (joinPath dir sub) leaf := by
  simp [joinPath]

theorem joinPath_ne_nil (dir leaf : CStr) : joinPath dir leaf ≠ [] := by
  simp [joinPath]

theorem parentOf_joinPath {dir leaf : CStr} (hdir : dir ≠ []) (h : slash ∉ leaf) :
    parentOf (joinPath dir leaf) = dir := by
  have hmem : slash ∈ joinPath dir leaf := by simp [joinPath]
  have hdrop : ((joinPath dir leaf).rdropWhile (· != slash)).dropLast = dir := by
    unfold joinPath List.rdropWhile
    rw [List.reverse_append, List.reverse_cons, List.append_assoc,
      List.dropWhile_append_of_pos (reverse_all_ne_slash h)]
    simp
  unfold parentOf
  rw [if_pos hmem, hdrop]
  exact if_neg hdir

/-! ## Section 3: The file system -/

/-- What a directory entry is, links followed. -/
inductive Node where
  /-- A regular file that can be opened. -/
  | file (bytes : List UInt8)
  /-- A regular file that cannot. -/
  | locked
  /-- A directory, and on Windows a link to one even where it dangles: the attribute is the
      link's own. -/
  | dir
  /-- A device, a socket, another dangling link. -/
  | other
  deriving DecidableEq

/-- `S_ISREG`. -/
def Node.isReg : Node → Bool
  | .file _ => true
  | .locked => true
  | _ => false

/-- Directories are numbered. `resolve` says which one a path names, `node` what
    an entry of one is, `readdir` in which order its entries are enumerated. -/
structure FileSys where
  resolve : CStr → Option Nat
  node : Nat → CStr → Option Node
  readdir : Nat → List CStr
  writable : Nat → Bool
  nextDir : Nat

/-- No directory at all. -/
def FileSys.empty : FileSys where
  resolve _ := none
  node _ _ := none
  readdir _ := []
  writable _ := false
  nextDir := 0

/-- One directory with one file in it. -/
def FileSys.single (dir leaf : CStr) (bytes : List UInt8) : FileSys where
  resolve path := if path = dir then some 0 else none
  node _ nm := if nm = leaf then some (.file bytes) else none
  readdir _ := [leaf]
  writable _ := true
  nextDir := 1

/-- The entry a path names. -/
def FileSys.lookup (fs : FileSys) (path : CStr) : Option Node :=
  (fs.resolve (parentOf path)).bind fun d => fs.node d (leafOf path)

/-- `stat` succeeds and says regular file. -/
def FileSys.isReg (fs : FileSys) (path : CStr) : Bool :=
  match fs.lookup path with
  | some x => x.isReg
  | none => false

/-- `fopen(path, "rb")`: the bytes a reader then sees. -/
def FileSys.openRead (fs : FileSys) (path : CStr) : Option (List UInt8) :=
  match fs.lookup path with
  | some (.file bytes) => some bytes
  | _ => none

/-- `fopen(path, "wb")`, write, close. -/
def FileSys.write (fs : FileSys) (path : CStr) (bytes : List UInt8) : Option FileSys :=
  match fs.resolve (parentOf path) with
  | none => none
  | some d =>
    let leaf := leafOf path
    let put : FileSys := { fs with
      node := Function.update fs.node d (Function.update (fs.node d) leaf (some (.file bytes))) }
    match fs.node d leaf with
    | none =>
      if fs.writable d then
        some { put with readdir := Function.update fs.readdir d (fs.readdir d ++ [leaf]) }
      else none
    | some (.file _) => if fs.writable d then some put else none
    | some _ => none

/-- `mkdir`: a new directory under one that exists. -/
def FileSys.mkdir (fs : FileSys) (path : CStr) : Option FileSys :=
  match fs.resolve path, fs.resolve (parentOf path) with
  | none, some d =>
    if fs.writable d ∧ fs.node d (leafOf path) = none then
      some { fs with
        resolve := Function.update fs.resolve path (some fs.nextDir)
        node := Function.update (Function.update fs.node d
          (Function.update (fs.node d) (leafOf path) (some .dir))) fs.nextDir fun _ => none
        readdir := Function.update (Function.update fs.readdir d
          (fs.readdir d ++ [leafOf path])) fs.nextDir []
        writable := Function.update fs.writable fs.nextDir true
        nextDir := fs.nextDir + 1 }
    else none
  | _, _ => none

theorem FileSys.lookup_joinPath (fs : FileSys) {dir leaf : CStr} {d : Nat} (hdir : dir ≠ [])
    (hd : fs.resolve dir = some d) (hleaf : slash ∉ leaf) :
    fs.lookup (joinPath dir leaf) = fs.node d leaf := by
  unfold FileSys.lookup
  rw [parentOf_joinPath hdir hleaf, leafOf_joinPath hleaf, hd]
  rfl

/-- Writing creates a file where the path says and changes no other entry. -/
theorem FileSys.write_eq_some {fs fs' : FileSys} {path : CStr} {bytes : List UInt8}
    (h : fs.write path bytes = some fs') :
    ∃ d, fs.resolve (parentOf path) = some d ∧ fs'.resolve = fs.resolve ∧
      fs'.node d (leafOf path) = some (.file bytes) ∧
      ∀ e leaf, (e ≠ d ∨ leaf ≠ leafOf path) → fs'.node e leaf = fs.node e leaf := by
  unfold FileSys.write at h
  cases hd : fs.resolve (parentOf path) with
  | none => rw [hd] at h; cases h
  | some d =>
    rw [hd] at h
    dsimp only at h
    have hput : ∀ e leaf, (e ≠ d ∨ leaf ≠ leafOf path) →
        Function.update fs.node d (Function.update (fs.node d) (leafOf path)
          (some (.file bytes))) e leaf = fs.node e leaf := by
      intro e leaf hne
      by_cases he : e = d
      · subst he
        have hl : leaf ≠ leafOf path := by
          rcases hne with h' | h'
          · exact absurd rfl h'
          · exact h'
        simp [hl]
      · simp [he]
    refine ⟨d, rfl, ?_⟩
    split at h
    · split at h
      · cases h
        exact ⟨rfl, by simp, hput⟩
      · cases h
    · split at h
      · cases h
        exact ⟨rfl, by simp, hput⟩
      · cases h
    · cases h

/-- A new name goes to the end of its directory. -/
theorem FileSys.write_new {fs : FileSys} {dir leaf : CStr} {d : Nat} (bytes : List UInt8)
    (hdir : dir ≠ []) (hd : fs.resolve dir = some d) (hleaf : slash ∉ leaf)
    (hw : fs.writable d = true) (hnew : fs.node d leaf = none) :
    fs.write (joinPath dir leaf) bytes = some { fs with
      node := Function.update fs.node d (Function.update (fs.node d) leaf (some (.file bytes)))
      readdir := Function.update fs.readdir d (fs.readdir d ++ [leaf]) } := by
  unfold FileSys.write
  rw [parentOf_joinPath hdir hleaf, leafOf_joinPath hleaf, hd]
  dsimp only
  rw [hnew]
  dsimp only
  rw [if_pos hw]

/-- Writing the bytes that are there changes nothing. -/
theorem FileSys.write_again {fs : FileSys} {dir leaf : CStr} {d : Nat} {bytes : List UInt8}
    (hdir : dir ≠ []) (hd : fs.resolve dir = some d) (hleaf : slash ∉ leaf)
    (hw : fs.writable d = true) (hold : fs.node d leaf = some (.file bytes)) :
    fs.write (joinPath dir leaf) bytes = some fs := by
  unfold FileSys.write
  rw [parentOf_joinPath hdir hleaf, leafOf_joinPath hleaf, hd]
  dsimp only
  rw [hold]
  dsimp only
  rw [if_pos hw, ← hold, Function.update_eq_self, Function.update_eq_self]

/-- A file can be created or replaced under a name. -/
def FileSys.Accepts (fs : FileSys) (d : Nat) (leaf : CStr) : Prop :=
  fs.writable d = true ∧ (fs.node d leaf = none ∨ ∃ old, fs.node d leaf = some (.file old))

/-- A write goes through exactly where a file can be created or replaced. -/
theorem FileSys.write_isSome (fs : FileSys) (path : CStr) (bytes : List UInt8) :
    (fs.write path bytes).isSome = true ↔
      ∃ d, fs.resolve (parentOf path) = some d ∧ fs.Accepts d (leafOf path) := by
  unfold FileSys.write FileSys.Accepts
  cases fs.resolve (parentOf path) with
  | none => simp
  | some d =>
    dsimp only
    split <;> simp_all

/-- A directory that exists is not made again. -/
theorem FileSys.mkdir_of_resolve {fs : FileSys} {path : CStr} {d : Nat}
    (h : fs.resolve path = some d) : fs.mkdir path = none := by
  unfold FileSys.mkdir
  rw [h]

/-- A file directly in a directory has these bytes. -/
def FileSys.Holds (fs : FileSys) (d : Nat) (bytes : List UInt8) : Prop :=
  ∃ leaf, fs.node d leaf = some (.file bytes)

/-- **What a write adds** to a directory: the bytes, when the path leads there. -/
theorem FileSys.holds_write_iff (fs : FileSys) (path : CStr) (bytes : List UInt8) (d : Nat) :
    ((fs.write path bytes).getD fs).Holds d bytes ↔
      fs.Holds d bytes ∨
        (fs.resolve (parentOf path) = some d ∧ fs.Accepts d (leafOf path)) := by
  cases hw : fs.write path bytes with
  | none =>
    have hno : ¬ (fs.resolve (parentOf path) = some d ∧ fs.Accepts d (leafOf path)) := by
      intro h
      have hsome := (fs.write_isSome path bytes).mpr ⟨d, h⟩
      rw [hw] at hsome
      cases hsome
    simp [hno]
  | some fs' =>
    obtain ⟨e, he, -, hnode, hother⟩ := FileSys.write_eq_some hw
    have hsome : (fs.write path bytes).isSome = true := by rw [hw]; rfl
    obtain ⟨e', he', hacc⟩ := (fs.write_isSome path bytes).mp hsome
    have hee : e' = e := Option.some.inj (he'.symm.trans he)
    subst hee
    -- the directory written to is the one asked about, or that one is as it was
    by_cases hd : e' = d
    · subst hd
      exact ⟨fun _ => Or.inr ⟨he', hacc⟩, fun _ => ⟨_, hnode⟩⟩
    · have hsame : ∀ leaf, fs'.node d leaf = fs.node d leaf := by
        intro leaf
        exact hother d leaf (Or.inl (Ne.symm hd))
      have hne : ¬ (fs.resolve (parentOf path) = some d) := by
        intro h
        rw [he'] at h
        exact hd (Option.some.inj h)
      simp only [Option.getD_some, FileSys.Holds, hsame, hne, false_and, or_false]

end CFiles
