import MscsUnitTests.Corpus

/-! # The Corpus: The Order of a Replay

    `FuzzCorpusRun` sorts the names it holds, so that a replay does not depend on the
    order in which a directory is enumerated. What it holds is another matter: the
    table has room for 4096 names, and the ones that find room are the first of the
    enumeration.
-/

open CFiles

namespace FuzzCorpus

/-! ## Section 1: The sort -/

/-- Inserting keeps the sorted part in order; it is held last slot first. -/
theorem insertSlot_sorted (x : CStr) {l : List CStr} (h : l.Pairwise fun a b => StrLe b a) :
    (insertSlot x l).Pairwise fun a b => StrLe b a := by
  induction l with
  | nil => exact List.pairwise_singleton _ _
  | cons y ys ih =>
    obtain ⟨hy, hys⟩ := List.pairwise_cons.mp h
    unfold insertSlot
    split
    · next hgt =>
      -- the slot moves up, and everything below it stays below `y`
      rw [List.pairwise_cons]
      refine ⟨?_, ih hys⟩
      intro c hc
      rcases List.mem_cons.mp ((insertSlot_perm x ys).mem_iff.mp hc) with rfl | hc
      · exact strLe_of_gt hgt
      · exact hy c hc
    · next hle =>
      rw [List.pairwise_cons]
      refine ⟨?_, h⟩
      intro c hc
      rcases List.mem_cons.mp hc with rfl | hc
      · exact hle
      · exact (hy c hc).trans hle

theorem sortNames_sorted (l : List CStr) : (sortNames l).Pairwise StrLe := by
  have h : ∀ (l acc : List CStr), (acc.Pairwise fun a b => StrLe b a) →
      (l.foldl (fun sorted nm => insertSlot nm sorted) acc).Pairwise fun a b => StrLe b a := by
    intro l
    induction l with
    | nil =>
      intro acc hacc
      exact hacc
    | cons x xs ih =>
      intro acc hacc
      exact ih (insertSlot x acc) (insertSlot_sorted x hacc)
  unfold sortNames
  rw [List.pairwise_reverse]
  exact h l [] List.Pairwise.nil

/-- The sort forgets the order it was given. -/
theorem sortNames_congr {l l' : List CStr} (h : l.Perm l') : sortNames l = sortNames l' := by
  have hperm : (sortNames l).Perm (sortNames l') :=
    (sortNames_perm l).trans (h.trans (sortNames_perm l').symm)
  exact hperm.eq_of_pairwise (fun a b _ _ => StrLe.antisymm) (sortNames_sorted l)
    (sortNames_sorted l')

/-! ## Section 2: The calls of a replay -/

/-- The call made for a slot of the table, if any: a path and the bytes read there. -/
def delivery (fs : FileSys) (pszDir nm : CStr) : Option (CStr × List UInt8) :=
  let p := fuzzReadFile fs (entryPath pszDir nm) kFuzzCorpusMax
  if p.length = 0 then none else some (entryPath pszDir nm, p)

/-- A callback that writes down what it is called with. -/
def logCall (szFull : CStr) (p : List UInt8) (log : List (CStr × List UInt8)) :
    List (CStr × List UInt8) :=
  log ++ [(szFull, p)]

/-- A walk over a file system with that callback. -/
def loggedRun (plat : Platform) (fs : FileSys) (pszDir : CStr) : WalkResult (List (CStr × List UInt8)) :=
  fuzzCorpusRun plat (fun _ => fs) logCall pszDir []

/-- The calls of a replay, in order. -/
def calls (plat : Platform) (fs : FileSys) (pszDir : CStr) : List (CStr × List UInt8) :=
  (loggedRun plat fs pszDir).user

section frame
variable {σ : Type} (fsOf : σ → FileSys) (pfn : CStr → List UInt8 → σ → σ) (pszDir : CStr)

/-- A callback that leaves the files alone is called for each slot that can be read. -/
theorem foldl_visit_frame (hframe : ∀ szFull p s, fsOf (pfn szFull p s) = fsOf s) {fs : FileSys}
    (names : List CStr) (a : Walk σ) (ha : fsOf a.user = fs) :
    names.foldl (visit fsOf pfn pszDir) a =
      ⟨(names.filterMap (delivery fs pszDir)).foldl (fun s c => pfn c.1 c.2 s) a.user,
        a.nRun + (names.filterMap (delivery fs pszDir)).length,
        a.nSkipped + (names.length - (names.filterMap (delivery fs pszDir)).length)⟩ := by
  induction names generalizing a with
  | nil => rfl
  | cons nm names ih =>
    have hle := List.length_filterMap_le (delivery fs pszDir) names
    rw [List.foldl_cons]
    by_cases hp : (fuzzReadFile fs (entryPath pszDir nm) kFuzzCorpusMax).length = 0
    · have hvisit : visit fsOf pfn pszDir a nm = { a with nSkipped := a.nSkipped + 1 } := by
        unfold visit
        dsimp only
        rw [ha, if_pos hp]
      have hnone : delivery fs pszDir nm = none := by
        unfold delivery
        exact if_pos hp
      have hrest := ih { a with nSkipped := a.nSkipped + 1 } ha
      rw [hvisit, hrest, List.filterMap_cons_none hnone]
      simp only [List.length_cons, Walk.mk.injEq, true_and]
      omega
    · have hvisit : visit fsOf pfn pszDir a nm =
          { a with
            user := pfn (entryPath pszDir nm)
              (fuzzReadFile fs (entryPath pszDir nm) kFuzzCorpusMax) a.user
            nRun := a.nRun + 1 } := by
        unfold visit
        dsimp only
        rw [ha, if_neg hp]
      have hsome : delivery fs pszDir nm =
          some (entryPath pszDir nm, fuzzReadFile fs (entryPath pszDir nm) kFuzzCorpusMax) := by
        unfold delivery
        exact if_neg hp
      have hrest := ih { a with
        user := pfn (entryPath pszDir nm)
          (fuzzReadFile fs (entryPath pszDir nm) kFuzzCorpusMax) a.user
        nRun := a.nRun + 1 } ((hframe _ _ _).trans ha)
      rw [hvisit, hrest, List.filterMap_cons_some hsome]
      simp only [List.length_cons, List.foldl_cons, Walk.mk.injEq, true_and]
      omega

theorem foldl_logCall (cs log : List (CStr × List UInt8)) :
    cs.foldl (fun log c => logCall c.1 c.2 log) log = log ++ cs := by
  induction cs generalizing log with
  | nil => simp
  | cons c cs ih =>
    rw [List.foldl_cons, ih]
    simp [logCall]

/-- The calls are the slots that can be read. -/
theorem calls_eq (plat : Platform) (fs : FileSys) (pszDir : CStr) :
    calls plat fs pszDir = (slots plat fs pszDir).filterMap (delivery fs pszDir) := by
  unfold calls loggedRun
  rw [fuzzCorpusRun_eq]
  dsimp only
  have hlog := foldl_visit_frame (fun _ => fs) logCall pszDir
    (fun _ _ _ => rfl) (slots plat fs pszDir) ⟨[], 0, 0⟩ rfl
  rw [hlog, foldl_logCall]
  rfl

/-- **Any callback that leaves the files alone** is called with these, in this order,
    and the count the walk returns is how many they are. -/
theorem fuzzCorpusRun_calls (hframe : ∀ szFull p s, fsOf (pfn szFull p s) = fsOf s)
    (plat : Platform) (s : σ) :
    (fuzzCorpusRun plat fsOf pfn pszDir s).user =
        (calls plat (fsOf s) pszDir).foldl (fun s c => pfn c.1 c.2 s) s ∧
      (fuzzCorpusRun plat fsOf pfn pszDir s).nRun = (calls plat (fsOf s) pszDir).length := by
  rw [fuzzCorpusRun_eq, calls_eq]
  dsimp only
  have hwalk := foldl_visit_frame fsOf pfn pszDir hframe (slots plat (fsOf s) pszDir)
    ⟨s, 0, 0⟩ rfl
  rw [hwalk]
  exact ⟨rfl, Nat.zero_add _⟩

end frame

/-! ## Section 3: Two machines -/

/-- The same files, enumerated in any two orders. -/
structure SameFiles (fs₁ fs₂ : FileSys) : Prop where
  resolve : fs₂.resolve = fs₁.resolve
  node : fs₂.node = fs₁.node
  readdir : ∀ d, (fs₁.readdir d).Perm (fs₂.readdir d)

/-- The names of a directory that do not begin with a dot. -/
def fileNames (fs : FileSys) (d : Nat) : List CStr :=
  (fs.readdir d).filter fun nm => !isDotName nm

/-- A directory of regular files, dotfiles apart, in which no path is cut, the one
    with the wildcard included. -/
structure RegularDir (fs : FileSys) (pszDir : CStr) (d : Nat) : Prop where
  dir : pszDir ≠ []
  resolve : fs.resolve pszDir = some d
  nodup : (fs.readdir d).Nodup
  regular : ∀ nm ∈ fileNames fs d, ∃ x, fs.node d nm = some x ∧ x.isReg = true
  glob : (joinPath pszDir (cstr "*")).length < 1024
  names : ∀ nm ∈ fileNames fs d, slash ∉ nm ∧ (joinPath pszDir nm).length < 1024

section machines
variable {fs fs₁ fs₂ : FileSys} {pszDir : CStr} {d : Nat}

theorem SameFiles.fileNames_perm (h : SameFiles fs₁ fs₂) (d : Nat) :
    (fileNames fs₁ d).Perm (fileNames fs₂ d) :=
  (h.readdir d).filter _

theorem SameFiles.regularDir (h : SameFiles fs₁ fs₂) (hreg : RegularDir fs₁ pszDir d) :
    RegularDir fs₂ pszDir d where
  dir := hreg.dir
  resolve := by
    rw [h.resolve]
    exact hreg.resolve
  nodup := (h.readdir d).nodup_iff.mp hreg.nodup
  regular := by
    intro nm hnm
    rw [h.node]
    exact hreg.regular nm ((h.fileNames_perm d).mem_iff.mpr hnm)
  glob := hreg.glob
  names := fun nm hnm => hreg.names nm ((h.fileNames_perm d).mem_iff.mpr hnm)

/-- On both platforms the enumeration keeps the files. -/
theorem RegularDir.listed_eq (hreg : RegularDir fs pszDir d) (plat : Platform) :
    listed plat fs pszDir = fileNames fs d := by
  have hkeep : ∀ nm ∈ fs.readdir d, isDotName nm = false →
      fs.isReg (entryPath pszDir nm) = true ∧ (fs.node d nm == some .dir) = false := by
    intro nm hnm hdot
    have hmem : nm ∈ fileNames fs d := List.mem_filter.mpr ⟨hnm, by simp [hdot]⟩
    obtain ⟨x, hx, hisReg⟩ := hreg.regular nm hmem
    obtain ⟨hslash, hlen⟩ := hreg.names nm hmem
    have hpath : entryPath pszDir nm = joinPath pszDir nm := fit_of_lt hlen
    rw [hpath, FileSys.isReg, fs.lookup_joinPath hreg.dir hreg.resolve hslash, hx]
    refine ⟨hisReg, ?_⟩
    cases x with
    | dir => cases hisReg
    | file bytes => rfl
    | locked => rfl
    | other => rfl
  unfold listed keptNames
  rw [if_neg hreg.dir]
  cases plat with
  | posix =>
    dsimp only
    rw [hreg.resolve, Option.map_some, Option.getD_some]
    unfold fileNames
    apply List.filter_congr
    intro nm hnm
    cases hdot : isDotName nm with
    | true => rfl
    | false => simp [(hkeep nm hnm hdot).1]
  | win32 =>
    have hstar : slash ∉ cstr "*" := by decide
    dsimp only
    rw [fit_of_lt hreg.glob, leafOf_joinPath hstar, parentOf_joinPath hreg.dir hstar, if_pos rfl,
      hreg.resolve, Option.map_some, Option.getD_some]
    unfold fileNames
    apply List.filter_congr
    intro nm hnm
    cases hdot : isDotName nm with
    | true => simp
    | false => simp [(hkeep nm hnm hdot).2]

/-- What is read along a path does not depend on the order of an enumeration. -/
theorem SameFiles.delivery (h : SameFiles fs₁ fs₂) : delivery fs₂ pszDir = delivery fs₁ pszDir := by
  have hread : ∀ szFull, fs₂.openRead szFull = fs₁.openRead szFull := by
    intro szFull
    unfold FileSys.openRead FileSys.lookup
    rw [h.resolve, h.node]
  funext nm
  unfold FuzzCorpus.delivery fuzzReadFile
  simp only [hread]

/-- A table that has room for all holds the names as they are, up to the length of a
    slot. -/
theorem slots_of_fits {plat : Platform} (h : (listed plat fs pszDir).length ≤ kFuzzCorpusMaxFiles) :
    slots plat fs pszDir = sortNames ((listed plat fs pszDir).map (fit 256)) := by
  unfold slots
  rw [collect_eq _ _ _ (Nat.zero_le _)]
  dsimp only
  rw [List.nil_append, List.length_nil, Nat.sub_zero, List.take_of_length_le h]

theorem loggedRun_nUnlisted (plat : Platform) (fs : FileSys) (pszDir : CStr) :
    (loggedRun plat fs pszDir).nUnlisted = (listed plat fs pszDir).length - kFuzzCorpusMaxFiles := by
  unfold loggedRun
  rw [fuzzCorpusRun_eq]
  dsimp only
  rw [collect_eq _ _ _ (Nat.zero_le _)]
  simp

theorem loggedRun_nRun (plat : Platform) (fs : FileSys) (pszDir : CStr) :
    (loggedRun plat fs pszDir).nRun = (calls plat fs pszDir).length :=
  (fuzzCorpusRun_calls (fun _ => fs) logCall pszDir (fun _ _ _ => rfl) plat []).2

/-- A call is made for a name among the first that the table has room for. -/
theorem mem_calls_iff (plat : Platform) (fs : FileSys) (pszDir : CStr) (c : CStr × List UInt8) :
    c ∈ calls plat fs pszDir ↔
      ∃ nm ∈ (listed plat fs pszDir).take kFuzzCorpusMaxFiles,
        FuzzCorpus.delivery fs pszDir (fit 256 nm) = some c := by
  rw [calls_eq, List.mem_filterMap]
  unfold slots
  rw [collect_eq _ _ _ (Nat.zero_le _)]
  simp only [List.nil_append, List.length_nil, Nat.sub_zero]
  constructor
  · intro h
    obtain ⟨slot, hslot, hc⟩ := h
    obtain ⟨nm, hnm, rfl⟩ := List.mem_map.mp ((sortNames_perm _).mem_iff.mp hslot)
    exact ⟨nm, hnm, hc⟩
  · intro h
    obtain ⟨nm, hnm, hc⟩ := h
    exact ⟨fit 256 nm, (sortNames_perm _).mem_iff.mpr (List.mem_map.mpr ⟨nm, hnm, rfl⟩), hc⟩

/-- **The order of a replay**: machines that enumerate the same files in any two orders
    leave the same number unlisted, and when that is none they make the same calls
    in the same order and count the same. -/
theorem replay_order_free (plat₁ plat₂ : Platform) (hsame : SameFiles fs₁ fs₂)
    (hreg : RegularDir fs₁ pszDir d) :
    (loggedRun plat₁ fs₁ pszDir).nUnlisted = (loggedRun plat₂ fs₂ pszDir).nUnlisted ∧
    ((fileNames fs₁ d).length ≤ kFuzzCorpusMaxFiles →
      calls plat₁ fs₁ pszDir = calls plat₂ fs₂ pszDir ∧
      (loggedRun plat₁ fs₁ pszDir).nRun = (loggedRun plat₂ fs₂ pszDir).nRun) := by
  have hperm := hsame.fileNames_perm d
  have h₁ := hreg.listed_eq plat₁
  have h₂ := (hsame.regularDir hreg).listed_eq plat₂
  refine ⟨?_, ?_⟩
  · rw [loggedRun_nUnlisted, loggedRun_nUnlisted, h₁, h₂, hperm.length_eq]
  · intro hfits
    have hfits₁ : (listed plat₁ fs₁ pszDir).length ≤ kFuzzCorpusMaxFiles := by
      rw [h₁]
      exact hfits
    have hfits₂ : (listed plat₂ fs₂ pszDir).length ≤ kFuzzCorpusMaxFiles := by
      rw [h₂, ← hperm.length_eq]
      exact hfits
    have hcalls : calls plat₁ fs₁ pszDir = calls plat₂ fs₂ pszDir := by
      rw [calls_eq, calls_eq, slots_of_fits hfits₁, slots_of_fits hfits₂, h₁, h₂, hsame.delivery,
        sortNames_congr (hperm.map (fit 256))]
    rw [loggedRun_nRun, loggedRun_nRun, hcalls]
    exact ⟨rfl, rfl⟩

end machines

/-! ## Section 4: A directory that does not fit the table -/

/-- One directory, `c`, with a file of one byte under each of the names. -/
def flatDir (names : List CStr) : FileSys where
  resolve path := if path = cstr "c" then some 0 else none
  node _ nm := if nm ∈ names then some (.file [7]) else none
  readdir _ := names
  writable _ := true
  nextDir := 1

/-- Names that a directory of regular files can have. -/
def PlainNames (names : List CStr) : Prop :=
  names.Nodup ∧ ∀ nm ∈ names, isDotName nm = false ∧ slash ∉ nm ∧ nm.length < 256

theorem flatDir_same {names names' : List CStr} (h : names.Perm names') :
    SameFiles (flatDir names) (flatDir names') where
  resolve := rfl
  node := by
    funext d nm
    unfold flatDir
    simp only [h.mem_iff]
  readdir := fun _ => h

theorem flatDir_fileNames {names : List CStr} (h : PlainNames names) :
    fileNames (flatDir names) 0 = names := by
  unfold fileNames flatDir
  rw [List.filter_eq_self]
  intro nm hnm
  simp [(h.2 nm hnm).1]

theorem flatDir_regular {names : List CStr} (h : PlainNames names) :
    RegularDir (flatDir names) (cstr "c") 0 where
  dir := by decide
  resolve := by
    unfold flatDir
    dsimp only
    rw [if_pos rfl]
  nodup := h.1
  regular := by
    rw [flatDir_fileNames h]
    intro nm hnm
    refine ⟨.file [7], ?_, rfl⟩
    unfold flatDir
    exact if_pos hnm
  glob := by decide
  names := by
    rw [flatDir_fileNames h]
    intro nm hnm
    obtain ⟨_, hslash, hlen⟩ := h.2 nm hnm
    refine ⟨hslash, ?_⟩
    have hdir : (cstr "c").length = 1 := by decide
    unfold joinPath
    rw [List.length_append, List.length_cons, hdir]
    omega

/-- A name of the directory is delivered when it stands among the first. -/
theorem flatDir_delivery {names : List CStr} (h : PlainNames names) {nm : CStr} (hnm : nm ∈ names) :
    delivery (flatDir names) (cstr "c") (fit 256 nm) = some (joinPath (cstr "c") nm, [7]) := by
  have hreg := flatDir_regular h
  obtain ⟨hslash, hlen⟩ := hreg.names nm (by rwa [flatDir_fileNames h])
  have hpath : entryPath (cstr "c") nm = joinPath (cstr "c") nm := fit_of_lt hlen
  have hopen : (flatDir names).openRead (joinPath (cstr "c") nm) = some [7] := by
    unfold FileSys.openRead
    rw [FileSys.lookup_joinPath _ hreg.dir hreg.resolve hslash]
    unfold flatDir
    dsimp only
    rw [if_pos hnm]
  unfold delivery
  rw [fit_of_lt (h.2 nm hnm).2.2, hpath, fuzzReadFile_of_le hopen (by decide)]
  rfl

theorem replay_order_free_pair :
    (loggedRun .posix (flatDir [cstr "b", cstr "a"]) (cstr "c")).nUnlisted =
      (loggedRun .win32 (flatDir [cstr "a", cstr "b"]) (cstr "c")).nUnlisted ∧
    ((fileNames (flatDir [cstr "b", cstr "a"]) 0).length ≤ kFuzzCorpusMaxFiles →
      calls .posix (flatDir [cstr "b", cstr "a"]) (cstr "c") =
        calls .win32 (flatDir [cstr "a", cstr "b"]) (cstr "c") ∧
      (loggedRun .posix (flatDir [cstr "b", cstr "a"]) (cstr "c")).nRun =
        (loggedRun .win32 (flatDir [cstr "a", cstr "b"]) (cstr "c")).nRun) :=
  replay_order_free .posix .win32 (flatDir_same (List.Perm.swap _ _ _))
    (flatDir_regular ⟨by decide, by decide⟩)

/-- Two-byte names, one for each number. -/
def crowdName (i : Nat) : CStr :=
  [UInt8.ofNat (65 + i / 64), UInt8.ofNat (65 + i % 64)]

theorem crowdName_inj {i j : Nat} (hi : i < 4097) (hj : j < 4097) (h : crowdName i = crowdName j) :
    i = j := by
  have htwo := List.cons.inj h
  have hlow := congrArg UInt8.toNat (List.cons.inj htwo.2).1
  have hhigh := congrArg UInt8.toNat htwo.1
  simp only [UInt8.toNat_ofNat'] at hlow hhigh
  omega

/-- All of them but the first: as many as the table has room for. -/
def crowd : List CStr := (List.range 4096).map fun i => crowdName (i + 1)

theorem crowd_plain : PlainNames (crowdName 0 :: crowd) := by
  have hrange : crowdName 0 :: crowd = (List.range 4097).map crowdName := by
    rw [List.range_succ_eq_map, List.map_cons, List.map_map]
    rfl
  rw [hrange]
  refine ⟨?_, ?_⟩
  · apply List.Nodup.map_on
    · intro i hi j hj h
      exact crowdName_inj (List.mem_range.mp hi) (List.mem_range.mp hj) h
    · exact List.nodup_range
  · intro nm hnm
    obtain ⟨i, hi, rfl⟩ := List.mem_map.mp hnm
    have hlt := List.mem_range.mp hi
    -- letters from 65 on: neither the dot (46) nor the slash (47)
    have hbyte : ∀ k < 65, UInt8.ofNat (65 + k) ≠ 46 ∧ slash ≠ UInt8.ofNat (65 + k) := by decide
    obtain ⟨hdot, hslash₁⟩ := hbyte (i / 64) (by omega)
    obtain ⟨_, hslash₂⟩ := hbyte (i % 64) (by omega)
    refine ⟨?_, ?_, ?_⟩
    · simpa [isDotName, crowdName] using hdot
    · unfold crowdName
      rw [List.mem_cons, List.mem_singleton, not_or]
      exact ⟨hslash₁, hslash₂⟩
    · show 2 < 256
      decide

/-- A file is delivered on one machine and not listed on the other. -/
theorem replay_can_depend_on_order : ∃ fs₁ fs₂ : FileSys, ∃ pszDir d,
    SameFiles fs₁ fs₂ ∧ RegularDir fs₁ pszDir d ∧
    calls .posix fs₁ pszDir ≠ calls .posix fs₂ pszDir := by
  have hperm : (crowdName 0 :: crowd).Perm (crowd ++ [crowdName 0]) :=
    (List.perm_append_singleton _ _).symm
  have hplain := crowd_plain
  have hplain' : PlainNames (crowd ++ [crowdName 0]) :=
    ⟨hperm.nodup_iff.mp hplain.1, fun nm hnm => hplain.2 nm (hperm.mem_iff.mpr hnm)⟩
  have hfull : crowd.length = kFuzzCorpusMaxFiles := by simp [crowd, kFuzzCorpusMaxFiles]
  refine ⟨flatDir (crowdName 0 :: crowd), flatDir (crowd ++ [crowdName 0]), cstr "c", 0,
    flatDir_same hperm, flatDir_regular hplain, ?_⟩
  intro heq
  -- enumerated first, the file has a slot and is delivered
  have hfirst : (joinPath (cstr "c") (crowdName 0), [7]) ∈
      calls .posix (flatDir (crowdName 0 :: crowd)) (cstr "c") := by
    rw [mem_calls_iff, (flatDir_regular hplain).listed_eq, flatDir_fileNames hplain]
    refine ⟨crowdName 0, ?_, flatDir_delivery hplain List.mem_cons_self⟩
    exact List.mem_cons_self
  -- enumerated last, it finds the table full
  rw [heq, mem_calls_iff, (flatDir_regular hplain').listed_eq, flatDir_fileNames hplain',
    List.take_left' hfull] at hfirst
  obtain ⟨nm, hnm, hcall⟩ := hfirst
  rw [flatDir_delivery hplain' (List.mem_append_left _ hnm)] at hcall
  have hname : nm = crowdName 0 := by
    have hpath := congrArg Prod.fst (Option.some.inj hcall)
    exact (List.cons.inj (List.append_cancel_left hpath)).2
  rw [hname] at hnm
  exact (List.nodup_cons.mp hplain.1).1 hnm

end FuzzCorpus
