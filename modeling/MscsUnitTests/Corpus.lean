import Mathlib.Data.BitVec
import MscsUnitTests.Lib.Files
import MscsUnitTests.Lib.History

/-! # The Persistent Corpus

    `fuzz_corpus.h`: the content-addressed reproducer writer and the walker that
    replays a directory of saved inputs. Both are shared by the two fuzz
    harnesses; what a harness does with one input is the callback of the walker,
    which threads the state of the harness and with it the file system.
-/

open CFiles History

namespace FuzzCorpus

/-! ## Section 1: Names -/

/-- Which arm of `#ifdef _WIN32` was compiled. -/
inductive Platform where
  | posix | win32
  deriving DecidableEq

/-- `kFuzzCorpusMax`: the largest single corpus entry. -/
def kFuzzCorpusMax : Nat := 131072

/-- `kFuzzCorpusMaxFiles`: the cap on the names held for sorting. -/
def kFuzzCorpusMaxFiles : Nat := 4096

/-- `FuzzContentHash`: FNV-1a over the bytes, the length folded in at the end. -/
def fuzzContentHash (p : List UInt8) : BitVec 64 :=
  let h := p.foldl (fun h b => (h ^^^ b.toBitVec.setWidth 64) * 0x100000001B3) 0xCBF29CE484222325
  h ^^^ BitVec.ofNat 64 p.length * 0x9E3779B97F4A7C15

/-- The file name of an input: `"%s-%016llx.bin"`. -/
def reproName (tag : CStr) (p : List UInt8) : CStr :=
  tag ++ cstr "-" ++ hexPadded 16 (fuzzContentHash p).toNat ++ cstr ".bin"

/-! ## Section 2: The writer -/

/-- `FuzzEnsureDir`. -/
def fuzzEnsureDir (plat : Platform) (fs : FileSys) (pszDir : CStr) : Bool × FileSys :=
  if pszDir = [] then (false, fs)
  else
    match fs.mkdir pszDir with
    | some fs' => (true, fs')
    | none =>
      match plat with
      | .win32 => ((fs.resolve pszDir).isSome || (fs.lookup pszDir).isSome, fs)
      | .posix => ((fs.resolve pszDir).isSome, fs)

/-- The path `FuzzWriteRepro` opens: cut to its 1024-byte buffer. -/
def reproPath (pszDir tag : CStr) (p : List UInt8) : CStr :=
  fit 1024 (joinPath pszDir (reproName tag p))

/-- `FuzzWriteRepro`: did the bytes land, and the file system afterwards. -/
def fuzzWriteRepro (plat : Platform) (fs : FileSys) (pszDir : CStr) (pszTag : Option CStr)
    (p : List UInt8) : Bool × FileSys :=
  if pszDir = [] ∨ p.length = 0 then (false, fs)
  else
    let dir := fuzzEnsureDir plat fs pszDir
    if dir.1 then
      match dir.2.write (reproPath pszDir (pszTag.getD (cstr "input")) p) p with
      | some fs' => (true, fs')
      | none => (false, dir.2)
    else (false, dir.2)

theorem fuzzEnsureDir_of_resolve (plat : Platform) {fs : FileSys} {pszDir : CStr} {d : Nat}
    (hdir : pszDir ≠ []) (hd : fs.resolve pszDir = some d) :
    fuzzEnsureDir plat fs pszDir = (true, fs) := by
  unfold fuzzEnsureDir
  rw [if_neg hdir, FileSys.mkdir_of_resolve hd]
  cases plat <;> simp [hd]

/-- Into a directory that exists, the writer makes one attempt. -/
theorem fuzzWriteRepro_of_resolve (plat : Platform) {fs : FileSys} {pszDir : CStr} {d : Nat}
    (hdir : pszDir ≠ []) (hd : fs.resolve pszDir = some d) (tag : CStr) {p : List UInt8}
    (hp : p ≠ []) :
    (fuzzWriteRepro plat fs pszDir (some tag) p).2
      = (fs.write (reproPath pszDir tag p) p).getD fs := by
  unfold fuzzWriteRepro
  rw [if_neg (by simp [hdir, hp]), fuzzEnsureDir_of_resolve plat hdir hd]
  simp only [if_true, Option.getD_some]
  split
  · next h => simp [h]
  · next h => simp [h]

/-- A tag that is a path of its own carries the file along that path. -/
theorem reproName_joinPath (sub leaf why : CStr) (p : List UInt8) :
    reproName (joinPath sub leaf ++ why) p = joinPath sub (reproName (leaf ++ why) p) := by
  simp [reproName, joinPath]

theorem slash_not_mem_reproName {tag : CStr} (h : slash ∉ tag) (p : List UInt8) :
    slash ∉ reproName tag p := by
  have hdash : slash ∉ cstr "-" := by decide
  have hbin : slash ∉ cstr ".bin" := by decide
  simp [reproName, h, hdash, hbin, slash_not_mem_hexPadded]

/-! ## Section 3: The walker -/

/-- `FuzzReadFile`: the bytes read, none on any failure. One byte more than the
    buffer is asked for, so a file that does not fit is not read at all. -/
def fuzzReadFile (fs : FileSys) (pszPath : CStr) (cbBuf : Nat) : List UInt8 :=
  match fs.openRead pszPath with
  | none => []
  | some bytes =>
    -- cut short would be another input
    let bMore := cbBuf < bytes.length
    if bMore then [] else bytes.take cbBuf

/-- A file that fits the buffer is read as it is. -/
theorem fuzzReadFile_of_le {fs : FileSys} {pszPath : CStr} {cbBuf : Nat} {bytes : List UInt8}
    (h : fs.openRead pszPath = some bytes) (hlen : bytes.length ≤ cbBuf) :
    fuzzReadFile fs pszPath cbBuf = bytes := by
  unfold fuzzReadFile
  rw [h]
  dsimp only
  rw [if_neg (by simpa using hlen), List.take_of_length_le hlen]

/-- Dotfiles are not corpus entries. -/
def isDotName (nm : CStr) : Bool :=
  nm.head? == some 46

/-- The path of an entry, in the walker's 1024-byte buffer. -/
def entryPath (pszDir nm : CStr) : CStr :=
  fit 1024 (joinPath pszDir nm)

/-- The entries the enumeration keeps. On Windows the directory is found through
    a glob, and an entry counts as a file when the enumeration says so; elsewhere
    its path is `stat`ed. `none` when the directory cannot be opened. -/
def keptNames (plat : Platform) (fs : FileSys) (pszDir : CStr) : Option (List CStr) :=
  match plat with
  | .posix =>
    (fs.resolve pszDir).map fun d =>
      (fs.readdir d).filter fun nm => !isDotName nm && fs.isReg (entryPath pszDir nm)
  | .win32 =>
    let szGlob := fit 1024 (joinPath pszDir (cstr "*"))
    if leafOf szGlob = cstr "*" then
      (fs.resolve (parentOf szGlob)).map fun d =>
        (fs.readdir d).filter fun nm => !(fs.node d nm == some .dir) && !isDotName nm
    else none

/-- The enumeration loop: the name table, and how many names found no room in it. -/
def collect : List CStr → List CStr × Nat → List CStr × Nat
  | [], acc => acc
  | nm :: rest, (aNames, nUnlisted) =>
    if aNames.length ≥ kFuzzCorpusMaxFiles then collect rest (aNames, nUnlisted + 1)
    else collect rest (aNames ++ [fit 256 nm], nUnlisted)

/-- The inner loop of the insertion sort, on the sorted part of the table with
    its last slot first. -/
def insertSlot (szTmp : CStr) : List CStr → List CStr
  | [] => [szTmp]
  | y :: ys => if strcmp y szTmp = .gt then y :: insertSlot szTmp ys else szTmp :: y :: ys

/-- The insertion sort. -/
def sortNames (aNames : List CStr) : List CStr :=
  (aNames.foldl (fun sorted nm => insertSlot nm sorted) []).reverse

/-- The locals of the delivery loop, and the harness behind the callback. -/
structure Walk (σ : Type) where
  user : σ
  nRun : Nat
  nSkipped : Nat

/-- One pass of the delivery loop. -/
def visit {σ : Type} (fsOf : σ → FileSys) (pfn : CStr → List UInt8 → σ → σ) (pszDir : CStr)
    (a : Walk σ) (nm : CStr) : Walk σ :=
  let szFull := entryPath pszDir nm
  let p := fuzzReadFile (fsOf a.user) szFull kFuzzCorpusMax
  if p.length = 0 then { a with nSkipped := a.nSkipped + 1 }
  else { a with user := pfn szFull p a.user, nRun := a.nRun + 1 }

/-- What a walk reports, and the state it leaves the harness in. -/
structure WalkResult (σ : Type) where
  user : σ
  nRun : Nat
  nSkipped : Nat
  nUnlisted : Nat

/-- `FuzzCorpusRun`. -/
def fuzzCorpusRun {σ : Type} (plat : Platform) (fsOf : σ → FileSys)
    (pfn : CStr → List UInt8 → σ → σ) (pszDir : CStr) (s : σ) : WalkResult σ :=
  if pszDir = [] then ⟨s, 0, 0, 0⟩
  else
    match keptNames plat (fsOf s) pszDir with
    | none => ⟨s, 0, 0, 0⟩
    | some names =>
      let table := collect names ([], 0)
      let a := (sortNames table.1).foldl (visit fsOf pfn pszDir) ⟨s, 0, 0⟩
      ⟨a.user, a.nRun, a.nSkipped, table.2⟩

/-! ## Section 4: What the walker counts -/

/-- The entries the enumeration keeps, none of a directory that is not read. -/
def listed (plat : Platform) (fs : FileSys) (pszDir : CStr) : List CStr :=
  if pszDir = [] then [] else (keptNames plat fs pszDir).getD []

/-- The name table in the order it is replayed. -/
def slots (plat : Platform) (fs : FileSys) (pszDir : CStr) : List CStr :=
  sortNames (collect (listed plat fs pszDir) ([], 0)).1

/-- The walk is a loop over the name table. -/
theorem fuzzCorpusRun_eq {σ : Type} (plat : Platform) (fsOf : σ → FileSys)
    (pfn : CStr → List UInt8 → σ → σ) (pszDir : CStr) (s : σ) :
    fuzzCorpusRun plat fsOf pfn pszDir s =
      let a := (slots plat (fsOf s) pszDir).foldl (visit fsOf pfn pszDir) ⟨s, 0, 0⟩
      ⟨a.user, a.nRun, a.nSkipped, (collect (listed plat (fsOf s) pszDir) ([], 0)).2⟩ := by
  unfold fuzzCorpusRun slots listed
  split
  · rfl
  · cases keptNames plat (fsOf s) pszDir with
    | none => rfl
    | some names => rfl

theorem collect_eq (names aNames : List CStr) (n : Nat) (h : aNames.length ≤ kFuzzCorpusMaxFiles) :
    collect names (aNames, n) =
      (aNames ++ (names.take (kFuzzCorpusMaxFiles - aNames.length)).map (fit 256),
        n + (names.length - (kFuzzCorpusMaxFiles - aNames.length))) := by
  induction names generalizing aNames n with
  | nil => simp [collect]
  | cons nm rest ih =>
    unfold collect
    split
    · next hfull =>
      have h0 : kFuzzCorpusMaxFiles - aNames.length = 0 := by omega
      rw [ih aNames (n + 1) h, h0]
      simp only [List.take_zero, List.map_nil, List.append_nil, List.length_cons, Prod.mk.injEq,
        true_and]
      omega
    · next hroom =>
      have hk : kFuzzCorpusMaxFiles - aNames.length
          = kFuzzCorpusMaxFiles - (aNames.length + 1) + 1 := by omega
      rw [ih (aNames ++ [fit 256 nm]) n (by simp; omega), hk]
      simp [List.take_succ_cons]

/-- The table holds the first names of the enumeration, and the others are counted. -/
theorem collect_length (names : List CStr) :
    (collect names ([], 0)).1.length + (collect names ([], 0)).2 = names.length := by
  rw [collect_eq _ _ _ (Nat.zero_le _)]
  simp
  omega

theorem insertSlot_perm (x : CStr) (l : List CStr) : (insertSlot x l).Perm (x :: l) := by
  induction l with
  | nil => exact List.Perm.refl _
  | cons y ys ih =>
    unfold insertSlot
    split
    · exact (List.Perm.cons y ih).trans (List.Perm.swap x y ys)
    · exact List.Perm.refl _

/-- The sort loses no name and makes none up. -/
theorem sortNames_perm (l : List CStr) : (sortNames l).Perm l := by
  -- by induction on the names, whatever the sorted part holds
  have h : ∀ (l acc : List CStr),
      (l.foldl (fun sorted nm => insertSlot nm sorted) acc).Perm (l ++ acc) := by
    intro l
    induction l with
    | nil => exact fun acc => List.Perm.refl _
    | cons x xs ih =>
      intro acc
      have h₁ := ih (insertSlot x acc)
      have h₂ : (xs ++ insertSlot x acc).Perm (xs ++ x :: acc) :=
        List.Perm.append_left xs (insertSlot_perm x acc)
      exact (h₁.trans h₂).trans List.perm_middle
  unfold sortNames
  have h' := h l []
  rw [List.append_nil] at h'
  exact (List.reverse_perm _).trans h'

section counting
variable {σ : Type} (fsOf : σ → FileSys) (pfn : CStr → List UInt8 → σ → σ) (pszDir : CStr)

/-- Every slot of the table is either delivered or skipped. -/
theorem foldl_visit_count (names : List CStr) (a : Walk σ) :
    (names.foldl (visit fsOf pfn pszDir) a).nRun +
        (names.foldl (visit fsOf pfn pszDir) a).nSkipped =
      a.nRun + a.nSkipped + names.length := by
  induction names generalizing a with
  | nil => rfl
  | cons nm rest ih =>
    rw [List.foldl_cons, ih]
    unfold visit
    dsimp only
    split <;> simp only [List.length_cons] <;> omega

/-- **Accounting**: what is delivered, skipped and not listed is what the
    enumeration kept. -/
theorem fuzzCorpusRun_count (plat : Platform) (s : σ) :
    (fuzzCorpusRun plat fsOf pfn pszDir s).nRun + (fuzzCorpusRun plat fsOf pfn pszDir s).nSkipped
        + (fuzzCorpusRun plat fsOf pfn pszDir s).nUnlisted =
      (listed plat (fsOf s) pszDir).length := by
  -- the slots are the table in another order
  have h₁ := foldl_visit_count fsOf pfn pszDir (slots plat (fsOf s) pszDir) ⟨s, 0, 0⟩
  have h₂ := (sortNames_perm (collect (listed plat (fsOf s) pszDir) ([], 0)).1).length_eq
  have h₃ := collect_length (listed plat (fsOf s) pszDir)
  rw [fuzzCorpusRun_eq]
  unfold slots at h₁ ⊢
  dsimp only at h₁ ⊢
  omega

end counting

/-- How many entries of a directory are regular files that are not dotfiles. -/
def regularEntries (fs : FileSys) (pszDir : CStr) : Nat :=
  match fs.resolve pszDir with
  | none => 0
  | some d => ((fs.readdir d).filter fun nm =>
      !isDotName nm && ((fs.node d nm).map Node.isReg).getD false).length

/-- Off Windows the enumeration keeps exactly those, as long as no path is cut. -/
theorem listed_length_posix {fs : FileSys} {pszDir : CStr} {d : Nat} (hdir : pszDir ≠ [])
    (hd : fs.resolve pszDir = some d)
    (hnames : ∀ nm ∈ fs.readdir d, slash ∉ nm ∧ (joinPath pszDir nm).length < 1024) :
    (listed .posix fs pszDir).length = regularEntries fs pszDir := by
  unfold listed keptNames regularEntries
  rw [if_neg hdir, hd]
  simp only [Option.map_some, Option.getD_some]
  congr 1
  apply List.filter_congr
  intro nm hnm
  obtain ⟨hslash, hlen⟩ := hnames nm hnm
  have hpath : entryPath pszDir nm = joinPath pszDir nm := fit_of_lt hlen
  rw [hpath, FileSys.isReg, FileSys.lookup_joinPath fs hdir hd hslash]
  cases fs.node d nm <;> rfl

/-- A regular file is no directory. -/
theorem kept_of_regular {fs : FileSys} {d : Nat} {nm : CStr}
    (hreg : (!isDotName nm && ((fs.node d nm).map Node.isReg).getD false) = true) :
    (!(fs.node d nm == some .dir) && !isDotName nm) = true := by
  rw [Bool.and_eq_true] at hreg ⊢
  refine ⟨?_, hreg.1⟩
  -- a regular file is no directory
  cases hnode : fs.node d nm with
  | none => rfl
  | some x =>
    rw [hnode] at hreg
    cases x with
    | dir => exact absurd hreg.2 (by decide)
    | file bytes => rfl
    | locked => rfl
    | other => rfl

/-- On Windows it keeps those and whatever else is not a directory. -/
theorem listed_length_win32 {fs : FileSys} {pszDir : CStr} {d : Nat} (hdir : pszDir ≠ [])
    (hd : fs.resolve pszDir = some d) (hglob : (joinPath pszDir (cstr "*")).length < 1024) :
    regularEntries fs pszDir ≤ (listed .win32 fs pszDir).length := by
  have hstar : slash ∉ cstr "*" := by decide
  unfold listed keptNames regularEntries
  dsimp only
  rw [if_neg hdir, fit_of_lt hglob, leafOf_joinPath hstar, parentOf_joinPath hdir hstar, if_pos rfl,
    hd]
  simp only [Option.map_some, Option.getD_some]
  rw [← List.countP_eq_length_filter, ← List.countP_eq_length_filter]
  apply List.countP_mono_left
  intro nm _ hreg
  exact kept_of_regular hreg

/-- On both, no regular file of a directory is passed over as long as no path is cut. -/
theorem regularEntries_le_listed (plat : Platform) {fs : FileSys} {pszDir : CStr} {d : Nat}
    (hdir : pszDir ≠ []) (hd : fs.resolve pszDir = some d)
    (hglob : (joinPath pszDir (cstr "*")).length < 1024)
    (hnames : ∀ nm ∈ fs.readdir d, slash ∉ nm ∧ (joinPath pszDir nm).length < 1024) :
    regularEntries fs pszDir ≤ (listed plat fs pszDir).length := by
  cases plat with
  | posix => exact (listed_length_posix hdir hd hnames).ge
  | win32 => exact listed_length_win32 hdir hd hglob

/-! ## Section 5: What a walk does to the harness -/

section history
variable {σ ε : Type}

/-- What is read of a file fits the buffer. -/
theorem fuzzReadFile_length (fs : FileSys) (pszPath : CStr) (cbBuf : Nat) :
    (fuzzReadFile fs pszPath cbBuf).length ≤ cbBuf := by
  unfold fuzzReadFile
  split
  · exact Nat.zero_le _
  · dsimp only
    split
    · exact Nat.zero_le _
    · exact List.length_take_le _ _

/-- **Walk rule**: the walk moves the harness through its callback only, on inputs
    that are not empty and fit the buffer. -/
theorem fuzzCorpusRun_history (plat : Platform) (fsOf : σ → FileSys)
    (pfn : CStr → List UInt8 → σ → σ) {R : σ → List ε → σ → Prop} (hR : Labelled R)
    {I : σ → Prop}
    (hpfn : ∀ s pszPath p, I s → 0 < p.length → p.length ≤ kFuzzCorpusMax →
      ∃ es, R s es (pfn pszPath p s) ∧ I (pfn pszPath p s))
    (pszDir : CStr) (s : σ) (hs : I s) :
    ∃ es, R s es (fuzzCorpusRun plat fsOf pfn pszDir s).user ∧
      I (fuzzCorpusRun plat fsOf pfn pszDir s).user := by
  -- a walk is a run of the harness behind it
  have hwalk : Labelled fun (a : Walk σ) es (b : Walk σ) => R a.user es b.user :=
    ⟨fun a => hR.refl a.user, hR.trans⟩
  have hvisit : ∀ (a : Walk σ) nm, I a.user →
      ∃ es, R a.user es (visit fsOf pfn pszDir a nm).user ∧
        I (visit fsOf pfn pszDir a nm).user ∧ True := by
    intro a nm ha
    unfold visit
    dsimp only
    split
    · exact ⟨[], hR.refl _, ha, trivial⟩
    · next hp =>
      obtain ⟨es, hes, hI⟩ := hpfn a.user (entryPath pszDir nm) _ ha (Nat.pos_of_ne_zero hp)
        (fuzzReadFile_length _ _ _)
      exact ⟨es, hes, hI, trivial⟩
  obtain ⟨es, hes, hI, -⟩ := hwalk.foldl (I := fun a => I a.user) (Q := fun _ _ => True)
    (fun _ => upward_true) hvisit (slots plat (fsOf s) pszDir) ⟨s, 0, 0⟩ hs
  rw [fuzzCorpusRun_eq]
  exact ⟨es, hes, hI⟩

/-- A walk keeps what its callback keeps. -/
theorem fuzzCorpusRun_inv (plat : Platform) (fsOf : σ → FileSys)
    (pfn : CStr → List UInt8 → σ → σ) {I : σ → Prop}
    (hpfn : ∀ s pszPath p, I s → 0 < p.length → p.length ≤ kFuzzCorpusMax → I (pfn pszPath p s))
    (pszDir : CStr) (s : σ) (hs : I s) : I (fuzzCorpusRun plat fsOf pfn pszDir s).user := by
  obtain ⟨-, -, hI⟩ := fuzzCorpusRun_history plat fsOf pfn
    (R := fun _ (_ : List Unit) _ => True) ⟨fun _ => trivial, fun _ _ => trivial⟩
    (fun s pszPath p hs h0 hmax => ⟨[], trivial, hpfn s pszPath p hs h0 hmax⟩) pszDir s hs
  exact hI

end history

end FuzzCorpus
