import MscsUnitTests.Corpus.Order

/-! # The Corpus: Every File Accounted For

    A walk sorts the names of a directory into three kinds: delivered, skipped, and
    not listed. Off Windows these are the regular files, dotfiles apart, each once.
    The Windows arm asks of an entry only that it is no directory, so that what is
    neither is skipped, and counted, as if it were a file.
-/

open CFiles

namespace FuzzCorpus

/-! ## Section 1: What a directory holds -/

/-- The regular files of a directory that are not dotfiles. -/
def regularNames (fs : FileSys) (d : Nat) : List CStr :=
  (fs.readdir d).filter fun nm => !isDotName nm && ((fs.node d nm).map Node.isReg).getD false

/-- The bytes of an entry, none when it is no file that can be opened. -/
def content (fs : FileSys) (d : Nat) (nm : CStr) : List UInt8 :=
  match fs.node d nm with
  | some (.file bytes) => bytes
  | _ => []

/-- An entry with something to deliver that fits the buffer. -/
def deliverable (fs : FileSys) (d : Nat) (nm : CStr) : Bool :=
  decide (0 < (content fs d nm).length ∧ (content fs d nm).length ≤ kFuzzCorpusMax)

/-- A directory whose names fit a slot of the table and whose paths fit the walker's
    buffer, the one with the wildcard included. -/
structure PlainDir (fs : FileSys) (pszDir : CStr) (d : Nat) : Prop where
  dir : pszDir ≠ []
  resolve : fs.resolve pszDir = some d
  nodup : (fs.readdir d).Nodup
  glob : (joinPath pszDir (cstr "*")).length < 1024
  names : ∀ nm ∈ fs.readdir d,
    slash ∉ nm ∧ nm.length ≤ 255 ∧ (joinPath pszDir nm).length < 1024

/-- Dotfiles apart, every entry is a regular file or a directory. -/
def NoOddEntry (fs : FileSys) (d : Nat) : Prop :=
  ∀ nm ∈ fileNames fs d, fs.node d nm = some .dir ∨ nm ∈ regularNames fs d

section entries
variable {fs : FileSys} {pszDir : CStr} {d : Nat}

theorem regularEntries_eq (hd : fs.resolve pszDir = some d) :
    regularEntries fs pszDir = (regularNames fs d).length := by
  unfold regularEntries regularNames
  rw [hd]

/-- A file is read whole, or not at all when it does not fit. -/
theorem PlainDir.fuzzReadFile_eq (h : PlainDir fs pszDir d) {nm : CStr} (hnm : nm ∈ fs.readdir d) :
    fuzzReadFile fs (entryPath pszDir nm) kFuzzCorpusMax =
      if (content fs d nm).length ≤ kFuzzCorpusMax then content fs d nm else [] := by
  obtain ⟨hslash, -, hpath⟩ := h.names nm hnm
  have hfull : entryPath pszDir nm = joinPath pszDir nm := fit_of_lt hpath
  rw [hfull]
  unfold fuzzReadFile FileSys.openRead content
  rw [fs.lookup_joinPath h.dir h.resolve hslash]
  cases fs.node d nm with
  | none => rfl
  | some x =>
    cases x with
    | locked => rfl
    | dir => rfl
    | other => rfl
    | file bytes =>
      dsimp only
      by_cases hfits : bytes.length ≤ kFuzzCorpusMax
      · rw [if_pos hfits, if_neg (by simpa using hfits), List.take_of_length_le hfits]
      · rw [if_neg hfits, if_pos (by simpa using hfits)]

/-- A slot is delivered, with the whole content of its file, when that is not empty
    and fits. -/
theorem PlainDir.delivery_eq (h : PlainDir fs pszDir d) {nm : CStr} (hnm : nm ∈ fs.readdir d) :
    delivery fs pszDir nm =
      if deliverable fs d nm then some (joinPath pszDir nm, content fs d nm) else none := by
  have hfull : entryPath pszDir nm = joinPath pszDir nm := fit_of_lt (h.names nm hnm).2.2
  unfold delivery deliverable
  dsimp only
  rw [h.fuzzReadFile_eq hnm, hfull]
  by_cases hfits : (content fs d nm).length ≤ kFuzzCorpusMax
  · rw [if_pos hfits]
    by_cases hempty : (content fs d nm).length = 0
    · rw [if_pos hempty, if_neg (by simp [hempty])]
    · rw [if_neg hempty, if_pos (by simp [hfits, Nat.pos_of_ne_zero hempty])]
  · have hno : ¬ decide (0 < (content fs d nm).length ∧
        (content fs d nm).length ≤ kFuzzCorpusMax) = true := by
      rw [decide_eq_true_iff]
      exact fun hboth => hfits hboth.2
    rw [if_neg hfits, if_neg hno]
    rfl

/-- A name of the directory goes into its slot unchanged. -/
theorem PlainDir.fit_name (h : PlainDir fs pszDir d) {nm : CStr} (hnm : nm ∈ fs.readdir d) :
    fit 256 nm = nm := by
  have hlen := (h.names nm hnm).2.1
  exact fit_of_lt (by omega)

/-! ## Section 2: What the enumeration keeps -/

theorem PlainDir.listed_posix (h : PlainDir fs pszDir d) :
    listed .posix fs pszDir = regularNames fs d := by
  unfold listed keptNames regularNames
  rw [if_neg h.dir, h.resolve]
  simp only [Option.map_some, Option.getD_some]
  apply List.filter_congr
  intro nm hnm
  obtain ⟨hslash, -, hlen⟩ := h.names nm hnm
  have hpath : entryPath pszDir nm = joinPath pszDir nm := fit_of_lt hlen
  rw [hpath, FileSys.isReg, fs.lookup_joinPath h.dir h.resolve hslash]
  cases fs.node d nm <;> rfl

theorem PlainDir.listed_win32 (h : PlainDir fs pszDir d) :
    listed .win32 fs pszDir =
      (fs.readdir d).filter fun nm => !(fs.node d nm == some .dir) && !isDotName nm := by
  have hstar : slash ∉ cstr "*" := by decide
  unfold listed keptNames
  dsimp only
  rw [if_neg h.dir, fit_of_lt h.glob, leafOf_joinPath hstar, parentOf_joinPath h.dir hstar,
    if_pos rfl, h.resolve, Option.map_some, Option.getD_some]

/-- The regular files are among what either arm keeps. -/
theorem PlainDir.regularNames_sublist (h : PlainDir fs pszDir d) (plat : Platform) :
    (regularNames fs d).Sublist (listed plat fs pszDir) := by
  cases plat with
  | posix =>
    rw [h.listed_posix]
  | win32 =>
    rw [h.listed_win32]
    apply List.monotone_filter_right
    intro nm hreg
    exact kept_of_regular hreg

/-- **What is kept** is the regular files, off Windows; on Windows when there is
    nothing odd. -/
theorem PlainDir.listed_eq_iff (h : PlainDir fs pszDir d) (plat : Platform) :
    listed plat fs pszDir = regularNames fs d ↔ plat = .posix ∨ NoOddEntry fs d := by
  cases plat with
  | posix => exact iff_of_true h.listed_posix (Or.inl rfl)
  | win32 =>
    have hmem : ∀ nm, nm ∈ listed .win32 fs pszDir ↔
        nm ∈ fileNames fs d ∧ fs.node d nm ≠ some .dir := by
      intro nm
      unfold fileNames
      rw [h.listed_win32, List.mem_filter, List.mem_filter, Bool.and_eq_true]
      simp
      tauto
    constructor
    · intro heq
      refine Or.inr ?_
      intro nm hnm
      by_cases hdir : fs.node d nm = some .dir
      · exact Or.inl hdir
      · refine Or.inr ?_
        rw [← heq, hmem]
        exact ⟨hnm, hdir⟩
    · intro hcond
      rcases hcond with hplat | hodd
      · cases hplat
      · -- nothing is kept beside the regular files, and both stand in the same order
        have hsub := h.regularNames_sublist .win32
        have hnodup : (listed .win32 fs pszDir).Nodup := by
          rw [h.listed_win32]
          exact h.nodup.filter _
        have hperm : (listed .win32 fs pszDir).Perm (regularNames fs d) := by
          rw [List.perm_ext_iff_of_nodup hnodup (hnodup.sublist hsub)]
          intro nm
          refine ⟨?_, fun hnm => hsub.subset hnm⟩
          intro hnm
          obtain ⟨hfile, hnotDir⟩ := (hmem nm).mp hnm
          exact (hodd nm hfile).resolve_left hnotDir
        exact (hsub.eq_of_length hperm.length_eq.symm).symm

end entries

/-! ## Section 3: The ledger of a walk -/

/-- What becomes of the names of a directory. -/
structure Ledger where
  delivered : List CStr
  skipped : List CStr
  unlisted : List CStr

section ledger
variable {σ : Type}

/-- A walk that accounts for every file. -/
structure Accounts (fs : FileSys) (pszDir : CStr) (d : Nat) (pfn : CStr → List UInt8 → σ → σ)
    (s : σ) (r : WalkResult σ) (L : Ledger) : Prop where
  /-- The callback sees each delivered name with the whole content of its file. -/
  calls : r.user =
    L.delivered.foldl (fun s nm => pfn (joinPath pszDir nm) (content fs d nm) s) s
  nRun : r.nRun = L.delivered.length
  nSkipped : r.nSkipped = L.skipped.length
  nUnlisted : r.nUnlisted = L.unlisted.length
  sum : r.nRun + r.nSkipped + r.nUnlisted = regularEntries fs pszDir
  every : (L.delivered ++ L.skipped ++ L.unlisted).Perm (regularNames fs d)
  /-- Names go unlisted only when the table is full. -/
  full : L.unlisted ≠ [] → L.delivered.length + L.skipped.length = kFuzzCorpusMaxFiles
  once : L.delivered.Nodup
  sorted : L.delivered.Pairwise StrLe
  whole : ∀ nm ∈ L.delivered, fs.node d nm = some (.file (content fs d nm)) ∧
    1 ≤ (content fs d nm).length ∧ (content fs d nm).length ≤ kFuzzCorpusMax
  /-- What is skipped is empty, too long, or cannot be opened. -/
  rest : ∀ nm ∈ L.skipped, ∀ bytes, fs.node d nm = some (.file bytes) →
    bytes.length = 0 ∨ kFuzzCorpusMax < bytes.length

/-- The ledger of a walk over the names that were kept. -/
def ledgerOf (plat : Platform) (fs : FileSys) (pszDir : CStr) (d : Nat) : Ledger where
  delivered := (slots plat fs pszDir).filter (deliverable fs d)
  skipped := (slots plat fs pszDir).filter fun nm => !deliverable fs d nm
  unlisted := (listed plat fs pszDir).drop kFuzzCorpusMaxFiles

variable {fs : FileSys} {pszDir : CStr} {d : Nat}

theorem PlainDir.listed_subset (h : PlainDir fs pszDir d) (plat : Platform) :
    ∀ nm ∈ listed plat fs pszDir, nm ∈ fs.readdir d := by
  intro nm hnm
  cases plat with
  | posix =>
    rw [h.listed_posix] at hnm
    exact (List.mem_filter.mp hnm).1
  | win32 =>
    rw [h.listed_win32] at hnm
    exact (List.mem_filter.mp hnm).1

/-- The table holds the first names that were kept, sorted. -/
theorem PlainDir.slots_eq (h : PlainDir fs pszDir d) (plat : Platform) :
    slots plat fs pszDir = sortNames ((listed plat fs pszDir).take kFuzzCorpusMaxFiles) := by
  have hfit : ((listed plat fs pszDir).take kFuzzCorpusMaxFiles).map (fit 256) =
      (listed plat fs pszDir).take kFuzzCorpusMaxFiles := by
    conv_rhs => rw [← List.map_id ((listed plat fs pszDir).take kFuzzCorpusMaxFiles)]
    apply List.map_congr_left
    intro nm hnm
    exact h.fit_name (h.listed_subset plat nm (List.mem_of_mem_take hnm))
  unfold slots
  rw [collect_eq _ _ _ (Nat.zero_le _)]
  simp only [List.nil_append, List.length_nil, Nat.sub_zero]
  rw [hfit]

/-- Slots are names of the directory. -/
theorem PlainDir.slots_subset (h : PlainDir fs pszDir d) (plat : Platform) :
    ∀ nm ∈ slots plat fs pszDir, nm ∈ fs.readdir d := by
  intro nm hnm
  rw [h.slots_eq] at hnm
  have hkept := (sortNames_perm _).mem_iff.mp hnm
  exact h.listed_subset plat nm (List.mem_of_mem_take hkept)

/-- The names delivered and skipped are the table, and with the unlisted ones they
    are what was kept. -/
theorem PlainDir.ledger_perm (h : PlainDir fs pszDir d) (plat : Platform) :
    ((ledgerOf plat fs pszDir d).delivered ++ (ledgerOf plat fs pszDir d).skipped ++
      (ledgerOf plat fs pszDir d).unlisted).Perm (listed plat fs pszDir) := by
  have htable : ((ledgerOf plat fs pszDir d).delivered ++
      (ledgerOf plat fs pszDir d).skipped).Perm
        ((listed plat fs pszDir).take kFuzzCorpusMaxFiles) := by
    have hsplit := List.filter_append_perm (deliverable fs d) (slots plat fs pszDir)
    have hsort := sortNames_perm ((listed plat fs pszDir).take kFuzzCorpusMaxFiles)
    rw [← h.slots_eq plat] at hsort
    exact hsplit.trans hsort
  have happend := htable.append_right ((listed plat fs pszDir).drop kFuzzCorpusMaxFiles)
  rw [List.take_append_drop] at happend
  exact happend

/-- The calls of a walk are its delivered names, each with its file. -/
theorem PlainDir.calls_eq_ledger (h : PlainDir fs pszDir d) (plat : Platform) :
    calls plat fs pszDir = (ledgerOf plat fs pszDir d).delivered.map
      fun nm => (joinPath pszDir nm, content fs d nm) := by
  -- by induction on slots that are names of the directory
  have hslots : ∀ names : List CStr, (∀ nm ∈ names, nm ∈ fs.readdir d) →
      names.filterMap (delivery fs pszDir) = (names.filter (deliverable fs d)).map
        fun nm => (joinPath pszDir nm, content fs d nm) := by
    intro names
    induction names with
    | nil =>
      intro _
      rfl
    | cons nm names ih =>
      intro hall
      have hnm := h.delivery_eq (hall nm List.mem_cons_self)
      have hrest := ih fun x hx => hall x (List.mem_cons_of_mem _ hx)
      by_cases hp : deliverable fs d nm
      · rw [if_pos hp] at hnm
        rw [List.filterMap_cons_some hnm, List.filter_cons_of_pos hp, List.map_cons, hrest]
      · rw [if_neg hp] at hnm
        rw [List.filterMap_cons_none hnm, List.filter_cons_of_neg hp, hrest]
  rw [calls_eq]
  exact hslots _ (h.slots_subset plat)

section walk
variable (fsOf : σ → FileSys) (pfn : CStr → List UInt8 → σ → σ)

theorem fuzzCorpusRun_nUnlisted (plat : Platform) (s : σ) :
    (fuzzCorpusRun plat fsOf pfn pszDir s).nUnlisted =
      ((listed plat (fsOf s) pszDir).drop kFuzzCorpusMaxFiles).length := by
  rw [fuzzCorpusRun_eq]
  dsimp only
  rw [collect_eq _ _ _ (Nat.zero_le _), List.length_drop]
  simp

/-- The three counts of a walk. -/
theorem PlainDir.walk_counts (hframe : ∀ szFull p s, fsOf (pfn szFull p s) = fsOf s) (plat : Platform)
    (s : σ) (h : PlainDir (fsOf s) pszDir d) :
    (fuzzCorpusRun plat fsOf pfn pszDir s).nRun =
        (ledgerOf plat (fsOf s) pszDir d).delivered.length ∧
      (fuzzCorpusRun plat fsOf pfn pszDir s).nSkipped =
        (ledgerOf plat (fsOf s) pszDir d).skipped.length ∧
      (fuzzCorpusRun plat fsOf pfn pszDir s).nUnlisted =
        (ledgerOf plat (fsOf s) pszDir d).unlisted.length := by
  have hrun := (fuzzCorpusRun_calls fsOf pfn pszDir hframe plat s).2
  rw [h.calls_eq_ledger plat, List.length_map] at hrun
  have hunlisted : (fuzzCorpusRun plat fsOf pfn pszDir s).nUnlisted =
      (ledgerOf plat (fsOf s) pszDir d).unlisted.length :=
    fuzzCorpusRun_nUnlisted fsOf pfn plat s
  refine ⟨hrun, ?_, hunlisted⟩
  -- what is left of the table
  have hcount := fuzzCorpusRun_count fsOf pfn pszDir plat s
  have hperm := (h.ledger_perm plat).length_eq
  rw [List.length_append, List.length_append] at hperm
  omega

/-- Where there is something to deliver, the entry is a file. -/
theorem node_of_content {fs : FileSys} {d : Nat} {nm : CStr} (hpos : 0 < (content fs d nm).length) :
    fs.node d nm = some (.file (content fs d nm)) := by
  unfold content at hpos ⊢
  cases hnode : fs.node d nm with
  | none => simp [hnode] at hpos
  | some x =>
    cases x with
    | file bytes => rfl
    | locked => simp [hnode] at hpos
    | dir => simp [hnode] at hpos
    | other => simp [hnode] at hpos

/-- A walk over a directory whose kept names are its regular files accounts for all. -/
theorem PlainDir.accounts (hframe : ∀ szFull p s, fsOf (pfn szFull p s) = fsOf s) (plat : Platform)
    (s : σ) (h : PlainDir (fsOf s) pszDir d)
    (hkept : listed plat (fsOf s) pszDir = regularNames (fsOf s) d) :
    Accounts (fsOf s) pszDir d pfn s (fuzzCorpusRun plat fsOf pfn pszDir s)
      (ledgerOf plat (fsOf s) pszDir d) := by
  obtain ⟨hRun, hSkipped, hUnlisted⟩ := h.walk_counts fsOf pfn hframe plat s
  have hslot : ∀ nm ∈ slots plat (fsOf s) pszDir, nm ∈ (fsOf s).readdir d := h.slots_subset plat
  exact {
    calls := by
      have huser := (fuzzCorpusRun_calls fsOf pfn pszDir hframe plat s).1
      rw [h.calls_eq_ledger plat, List.foldl_map] at huser
      exact huser
    nRun := hRun
    nSkipped := hSkipped
    nUnlisted := hUnlisted
    sum := by
      rw [fuzzCorpusRun_count, regularEntries_eq h.resolve, hkept]
    every := by
      have hperm := h.ledger_perm plat
      rwa [hkept] at hperm
    full := by
      intro hne
      have hlong : kFuzzCorpusMaxFiles < (listed plat (fsOf s) pszDir).length := by
        by_contra hshort
        exact hne (List.drop_eq_nil_of_le (by omega))
      have hperm := (h.ledger_perm plat).length_eq
      have hdrop : (ledgerOf plat (fsOf s) pszDir d).unlisted.length =
          (listed plat (fsOf s) pszDir).length - kFuzzCorpusMaxFiles := List.length_drop
      rw [List.length_append, List.length_append] at hperm
      omega
    once := by
      have hnodup : (listed plat (fsOf s) pszDir).Nodup := by
        rw [hkept]
        exact h.nodup.filter _
      have hall := (h.ledger_perm plat).nodup_iff.mpr hnodup
      exact (List.nodup_append.mp (List.nodup_append.mp hall).1).1
    sorted := by
      have hsorted : (slots plat (fsOf s) pszDir).Pairwise StrLe := by
        rw [h.slots_eq]
        exact sortNames_sorted _
      exact hsorted.filter _
    whole := by
      intro nm hnm
      have hp := of_decide_eq_true (List.mem_filter.mp hnm).2
      exact ⟨node_of_content hp.1, hp.1, hp.2⟩
    rest := by
      intro nm hnm bytes hnode
      have hp := (List.mem_filter.mp hnm).2
      have hbytes : content (fsOf s) d nm = bytes := by
        unfold content
        rw [hnode]
      unfold deliverable at hp
      rw [hbytes, Bool.not_eq_true', decide_eq_false_iff_not] at hp
      omega }

/-- **Every file accounted for**: a walk that leaves the files alone accounts for every
    regular file, and on Windows it does so just when the directory holds nothing that
    is neither a regular file nor a directory. -/
theorem walk_accounts_iff (hframe : ∀ szFull p s, fsOf (pfn szFull p s) = fsOf s) (plat : Platform)
    (s : σ) (h : PlainDir (fsOf s) pszDir d) :
    (∃ L, Accounts (fsOf s) pszDir d pfn s (fuzzCorpusRun plat fsOf pfn pszDir s) L) ↔
      plat = .posix ∨ NoOddEntry (fsOf s) d := by
  rw [← h.listed_eq_iff plat]
  constructor
  · intro hacc
    obtain ⟨L, hL⟩ := hacc
    -- as many names kept as there are regular files, and these are among them
    have hsum := hL.sum
    rw [fuzzCorpusRun_count, regularEntries_eq h.resolve] at hsum
    exact ((h.regularNames_sublist plat).eq_of_length hsum.symm).symm
  · intro hkept
    exact ⟨_, h.accounts fsOf pfn hframe plat s hkept⟩

end walk

end ledger

/-! ## Section 4: A dangling link -/

/-- One directory, `c`, with one entry, `x`. -/
def oneEntry (x : Node) : FileSys where
  resolve path := if path = cstr "c" then some 0 else none
  node _ nm := if nm = cstr "x" then some x else none
  readdir _ := [cstr "x"]
  writable _ := true
  nextDir := 1

theorem oneEntry_plain (x : Node) : PlainDir (oneEntry x) (cstr "c") 0 where
  dir := by decide
  resolve := by
    unfold oneEntry
    dsimp only
    rw [if_pos rfl]
  nodup := List.nodup_singleton _
  glob := by decide
  names := by
    intro nm hnm
    rw [List.mem_singleton.mp hnm]
    decide

theorem walk_accounts_iff_file :
    (∃ L, Accounts (oneEntry (.file [7])) (cstr "c") 0 logCall []
        (fuzzCorpusRun .win32 (fun _ => oneEntry (.file [7])) logCall (cstr "c") []) L) ↔
      Platform.win32 = .posix ∨ NoOddEntry (oneEntry (.file [7])) 0 :=
  walk_accounts_iff (fun _ => oneEntry (.file [7])) logCall (fun _ _ _ => rfl) .win32 []
    (oneEntry_plain (.file [7]))

/-- On Windows a link that leads nowhere is skipped as if it were a file. -/
theorem dangling_link_is_counted :
    PlainDir (oneEntry .other) (cstr "c") 0 ∧
    regularEntries (oneEntry .other) (cstr "c") = 0 ∧
    (loggedRun .win32 (oneEntry .other) (cstr "c")).nSkipped = 1 ∧
    ¬ ∃ L, Accounts (oneEntry .other) (cstr "c") 0 logCall []
        (loggedRun .win32 (oneEntry .other) (cstr "c")) L := by
  have hskipped : (loggedRun .win32 (oneEntry .other) (cstr "c")).nSkipped = 1 := by
    decide +kernel
  have hnone : regularEntries (oneEntry .other) (cstr "c") = 0 := by
    decide +kernel
  refine ⟨oneEntry_plain .other, hnone, hskipped, ?_⟩
  intro hacc
  obtain ⟨L, hL⟩ := hacc
  have hsum := hL.sum
  omega

end FuzzCorpus
