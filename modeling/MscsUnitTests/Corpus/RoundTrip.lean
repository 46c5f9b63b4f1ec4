import Mathlib.Data.List.Dedup
import MscsUnitTests.Corpus.Order

/-! # The Corpus: What is Saved is Replayed

    `FuzzWriteRepro` and `FuzzCorpusRun` are two functions with limits of their own.
    Here they are put together: any number of saves into an empty directory, then a
    replay of it.

    What the directory holds in between is `Stored`: one file for each different
    input, and nothing else that the walker would look at.
-/

open CFiles

namespace FuzzCorpus

/-! ## Section 1: Names -/

/-- The tag of a null pointer. -/
def tagOf (pszTag : Option CStr) : CStr := pszTag.getD (cstr "input")

theorem reproName_length (tag : CStr) (p : List UInt8) :
    (reproName tag p).length = tag.length + 21 := by
  have hdash : (cstr "-").length = 1 := by decide
  have hbin : (cstr ".bin").length = 4 := by decide
  unfold reproName
  simp only [List.length_append, hexPadded_length, hdash, hbin]

/-- A name tells the hash it was made from. -/
theorem reproName_inj {tag : CStr} {p q : List UInt8} (h : reproName tag p = reproName tag q) :
    fuzzContentHash p = fuzzContentHash q := by
  have hhex := List.append_cancel_left (List.append_cancel_right h)
  have hlt : ∀ x : BitVec 64, x.toNat < 16 ^ 16 := by
    intro x
    have := x.isLt
    omega
  exact BitVec.eq_of_toNat_eq (hexPadded_inj (hlt _) (hlt _) hhex)

/-- A name begins with its tag, or with the dash behind an empty one. -/
theorem isDotName_reproName (tag : CStr) (p : List UInt8) :
    isDotName (reproName tag p) = isDotName tag := by
  cases tag with
  | nil => rfl
  | cons b tag => rfl

/-! ## Section 2: Saving -/

/-- Saves, one after the other. -/
def writeAll (plat : Platform) (fs : FileSys) (pszDir : CStr) (pszTag : Option CStr)
    (ps : List (List UInt8)) : FileSys :=
  ps.foldl (fun fs p => (fuzzWriteRepro plat fs pszDir pszTag p).2) fs

/-- A directory that can be written to and has nothing in it but dotfiles. -/
structure EmptyDir (fs : FileSys) (pszDir : CStr) (d : Nat) : Prop where
  resolve : fs.resolve pszDir = some d
  writable : fs.writable d = true
  nodup : (fs.readdir d).Nodup
  node : ∀ nm, isDotName nm = false → fs.node d nm = none
  names : fileNames fs d = []

/-- Inputs, a tag and a directory within the limits of the two functions. -/
structure Savable (pszDir tag : CStr) (ps : List (List UInt8)) : Prop where
  dir : pszDir ≠ []
  tag_slash : slash ∉ tag
  tag_dot : isDotName tag = false
  /-- A name fits its slot of the table, a path its buffer. -/
  slot : tag.length + 21 < 256
  path : pszDir.length + tag.length + 22 < 1024
  nonempty : ∀ p ∈ ps, p ≠ []
  size : ∀ p ∈ ps, p.length ≤ kFuzzCorpusMax
  hash : ∀ p ∈ ps, ∀ q ∈ ps, fuzzContentHash p = fuzzContentHash q → p = q

/-- What a directory holds after the saves of `ps`. -/
structure Stored (fs : FileSys) (pszDir : CStr) (d : Nat) (tag : CStr) (ps : List (List UInt8)) :
    Prop where
  resolve : fs.resolve pszDir = some d
  writable : fs.writable d = true
  nodup : (fs.readdir d).Nodup
  held : ∀ p ∈ ps, fs.node d (reproName tag p) = some (.file p)
  nothing_else : ∀ nm, isDotName nm = false → fs.node d nm ≠ none → ∃ p ∈ ps, nm = reproName tag p
  names : ∀ nm, nm ∈ fileNames fs d ↔ ∃ p ∈ ps, nm = reproName tag p

section saving
variable {fs : FileSys} {pszDir tag : CStr} {d : Nat} {p : List UInt8} {ps : List (List UInt8)}

theorem EmptyDir.stored (h : EmptyDir fs pszDir d) (tag : CStr) : Stored fs pszDir d tag [] where
  resolve := h.resolve
  writable := h.writable
  nodup := h.nodup
  held := by simp
  nothing_else := by
    intro nm hdot hnode
    exact absurd (h.node nm hdot) hnode
  names := by
    intro nm
    rw [h.names]
    simp

/-- A save into the directory is one write, under the name of the input. -/
theorem fuzzWriteRepro_stored (plat : Platform) {pszTag : Option CStr}
    (hs : Savable pszDir (tagOf pszTag) ps) (hp : p ∈ ps) (hd : fs.resolve pszDir = some d) :
    fuzzWriteRepro plat fs pszDir pszTag p =
      match fs.write (joinPath pszDir (reproName (tagOf pszTag) p)) p with
      | some fs' => (true, fs')
      | none => (false, fs) := by
  have hlen : p.length ≠ 0 := by simpa using hs.nonempty p hp
  have hfit : reproPath pszDir (tagOf pszTag) p = joinPath pszDir (reproName (tagOf pszTag) p) := by
    have hpath := hs.path
    apply fit_of_lt
    unfold joinPath
    rw [List.length_append, List.length_cons, reproName_length]
    omega
  unfold fuzzWriteRepro
  rw [if_neg (by simp [hs.dir, hlen]), fuzzEnsureDir_of_resolve plat hs.dir hd]
  dsimp only
  rw [← tagOf, hfit]
  cases fs.write (joinPath pszDir (reproName (tagOf pszTag) p)) p with
  | none => exact if_pos rfl
  | some fs' => exact if_pos rfl

/-- Saving again what is there changes nothing. -/
theorem fuzzWriteRepro_again (plat : Platform) {pszTag : Option CStr}
    (hs : Savable pszDir (tagOf pszTag) ps) (hp : p ∈ ps)
    (h : Stored fs pszDir d (tagOf pszTag) ps) :
    fuzzWriteRepro plat fs pszDir pszTag p = (true, fs) := by
  have hslash := slash_not_mem_reproName hs.tag_slash p
  rw [fuzzWriteRepro_stored plat hs hp h.resolve,
    FileSys.write_again hs.dir h.resolve hslash h.writable (h.held p hp)]

/-- Of an input saved again, nothing more is said. -/
theorem Stored.same {done done' : List (List UInt8)} (h : Stored fs pszDir d tag done)
    (hsame : ∀ r, r ∈ done' ↔ r ∈ done) : Stored fs pszDir d tag done' where
  resolve := h.resolve
  writable := h.writable
  nodup := h.nodup
  held := fun r hr => h.held r ((hsame r).mp hr)
  nothing_else := by
    intro nm hdot hnm
    obtain ⟨r, hr, hname⟩ := h.nothing_else nm hdot hnm
    exact ⟨r, (hsame r).mpr hr, hname⟩
  names := by
    intro nm
    simp only [hsame]
    exact h.names nm

/-- A name that no file has is not listed. -/
theorem Stored.fresh {done : List (List UInt8)} (h : Stored fs pszDir d tag done) {nm : CStr}
    (hdot : isDotName nm = false) (hnode : fs.node d nm = none) : nm ∉ fs.readdir d := by
  intro hnm
  have hmem : nm ∈ fileNames fs d := by
    refine List.mem_filter.mpr ⟨hnm, ?_⟩
    rw [hdot]
    rfl
  obtain ⟨q, hq, hname⟩ := (h.names nm).mp hmem
  rw [hname, h.held q hq] at hnode
  cases hnode

/-- A save under a name that is free adds a file. -/
theorem Stored.create {done : List (List UInt8)} (plat : Platform) {pszTag : Option CStr}
    (hs : Savable pszDir (tagOf pszTag) ps) (hp : p ∈ ps)
    (h : Stored fs pszDir d (tagOf pszTag) done)
    (hdot : isDotName (reproName (tagOf pszTag) p) = false)
    (hnode : fs.node d (reproName (tagOf pszTag) p) = none) :
    Stored (fuzzWriteRepro plat fs pszDir pszTag p).2 pszDir d (tagOf pszTag) (done ++ [p]) := by
  have hslash := slash_not_mem_reproName hs.tag_slash p
  rw [fuzzWriteRepro_stored plat hs hp h.resolve,
    FileSys.write_new p hs.dir h.resolve hslash h.writable hnode]
  refine ⟨h.resolve, h.writable, ?_, ?_, ?_, ?_⟩
  · show (Function.update fs.readdir d _ d).Nodup
    rw [Function.update_self, List.nodup_append]
    refine ⟨h.nodup, List.nodup_singleton _, ?_⟩
    intro nm hnm nm' hnm' heq
    rw [heq, List.mem_singleton.mp hnm'] at hnm
    exact h.fresh hdot hnode hnm
  · intro q hq
    show Function.update fs.node d _ d _ = _
    rw [Function.update_self]
    rcases List.mem_append.mp hq with hold | hnew
    · -- an older file has another name, or it would be there already
      have hne : reproName (tagOf pszTag) q ≠ reproName (tagOf pszTag) p := by
        intro heq
        rw [← heq, h.held q hold] at hnode
        cases hnode
      rw [Function.update_of_ne hne]
      exact h.held q hold
    · rw [List.mem_singleton.mp hnew, Function.update_self]
  · intro nm hnmdot hnm
    have hnm' : Function.update fs.node d _ d nm ≠ none := hnm
    rw [Function.update_self] at hnm'
    by_cases heq : nm = reproName (tagOf pszTag) p
    · exact ⟨p, by simp, heq⟩
    · rw [Function.update_of_ne heq] at hnm'
      obtain ⟨q, hq, hname⟩ := h.nothing_else nm hnmdot hnm'
      exact ⟨q, List.mem_append_left _ hq, hname⟩
  · intro nm
    unfold fileNames
    dsimp only
    rw [Function.update_self, List.filter_append, List.mem_append, List.filter_singleton, hdot]
    have hold := h.names nm
    unfold fileNames at hold
    rw [hold]
    simp [or_and_right, exists_or]

/-- **Step lemma**: a save adds its input, under a name of its own. -/
theorem Stored.save {done : List (List UInt8)} (plat : Platform) {pszTag : Option CStr}
    (hs : Savable pszDir (tagOf pszTag) ps) (hp : p ∈ ps) (hdone : done ⊆ ps)
    (h : Stored fs pszDir d (tagOf pszTag) done) :
    Stored (fuzzWriteRepro plat fs pszDir pszTag p).2 pszDir d (tagOf pszTag) (done ++ [p]) := by
  have hdot : isDotName (reproName (tagOf pszTag) p) = false := by
    rw [isDotName_reproName]
    exact hs.tag_dot
  by_cases hnode : fs.node d (reproName (tagOf pszTag) p) = none
  · exact h.create plat hs hp hdot hnode
  · -- the same bytes again: no other input has the name
    obtain ⟨q, hq, hname⟩ := h.nothing_else _ hdot hnode
    have heq : p = q := hs.hash p hp q (hdone hq) (reproName_inj hname)
    have hheld := h.held q hq
    rw [← heq] at hheld hq
    have hslash := slash_not_mem_reproName hs.tag_slash p
    rw [fuzzWriteRepro_stored plat hs hp h.resolve,
      FileSys.write_again hs.dir h.resolve hslash h.writable hheld]
    refine h.same fun r => ?_
    rw [List.mem_append, List.mem_singleton]
    exact ⟨fun hr => hr.elim id (fun e => e ▸ hq), Or.inl⟩

/-- **Run lemma**: after all saves the directory holds the inputs. -/
theorem stored_writeAll (plat : Platform) {pszTag : Option CStr}
    (hs : Savable pszDir (tagOf pszTag) ps) (hempty : EmptyDir fs pszDir d) :
    Stored (writeAll plat fs pszDir pszTag ps) pszDir d (tagOf pszTag) ps := by
  have hrun : ∀ (rest done : List (List UInt8)) (fs : FileSys), done ++ rest ⊆ ps →
      Stored fs pszDir d (tagOf pszTag) done →
      Stored (writeAll plat fs pszDir pszTag rest) pszDir d (tagOf pszTag) (done ++ rest) := by
    intro rest
    induction rest with
    | nil =>
      intro done fs _ h
      rw [List.append_nil]
      exact h
    | cons p rest ih =>
      intro done fs hsub h
      have hp : p ∈ ps := hsub (List.mem_append_right _ List.mem_cons_self)
      have hdone : done ⊆ ps := fun q hq => hsub (List.mem_append_left _ hq)
      have hstep := h.save plat hs hp hdone
      rw [List.append_cons] at hsub ⊢
      exact ih (done ++ [p]) _ hsub hstep
  have h := hrun ps [] fs (List.Subset.refl ps) (hempty.stored _)
  rwa [List.nil_append] at h

/-! ## Section 3: Replaying -/

/-- What is held makes a directory the walker can read. -/
theorem Stored.regularDir {tag : CStr} (hs : Savable pszDir tag ps)
    (h : Stored fs pszDir d tag ps) : RegularDir fs pszDir d where
  dir := hs.dir
  resolve := h.resolve
  nodup := h.nodup
  regular := by
    intro nm hnm
    obtain ⟨q, hq, rfl⟩ := (h.names nm).mp hnm
    exact ⟨.file q, h.held q hq, rfl⟩
  glob := by
    have hpath := hs.path
    have hstar : (cstr "*").length = 1 := by decide
    unfold joinPath
    rw [List.length_append, List.length_cons, hstar]
    omega
  names := by
    intro nm hnm
    obtain ⟨q, hq, rfl⟩ := (h.names nm).mp hnm
    have hpath := hs.path
    refine ⟨slash_not_mem_reproName hs.tag_slash q, ?_⟩
    unfold joinPath
    rw [List.length_append, List.length_cons, reproName_length]
    omega

/-- The files are one for each different input. -/
theorem Stored.fileNames_perm {tag : CStr} (hs : Savable pszDir tag ps)
    (h : Stored fs pszDir d tag ps) :
    (fileNames fs d).Perm (ps.dedup.map (reproName tag)) := by
  rw [List.perm_ext_iff_of_nodup]
  · intro nm
    rw [h.names nm, List.mem_map]
    simp only [List.mem_dedup, eq_comm]
  · exact h.nodup.filter _
  · apply List.Nodup.map_on
    · intro p hp q hq heq
      exact hs.hash p (List.mem_dedup.mp hp) q (List.mem_dedup.mp hq) (reproName_inj heq)
    · exact List.nodup_dedup ps

/-- A file is delivered as it was saved. -/
theorem Stored.delivery {tag : CStr} (hs : Savable pszDir tag ps)
    (h : Stored fs pszDir d tag ps) (hp : p ∈ ps) :
    FuzzCorpus.delivery fs pszDir (fit 256 (reproName tag p)) =
      some (joinPath pszDir (reproName tag p), p) := by
  have hslot : (reproName tag p).length < 256 := by
    have := hs.slot
    rw [reproName_length]
    exact this
  obtain ⟨hslash, hlen⟩ := (h.regularDir hs).names _ ((h.names _).mpr ⟨p, hp, rfl⟩)
  have hpath : entryPath pszDir (reproName tag p) = joinPath pszDir (reproName tag p) :=
    fit_of_lt hlen
  have hopen : fs.openRead (joinPath pszDir (reproName tag p)) = some p := by
    unfold FileSys.openRead
    rw [FileSys.lookup_joinPath fs hs.dir h.resolve hslash, h.held p hp]
  -- a file as long as the buffer is still read whole
  have hread := fuzzReadFile_of_le hopen (hs.size p hp)
  have hlen0 : p.length ≠ 0 := by simpa using hs.nonempty p hp
  unfold FuzzCorpus.delivery
  rw [fit_of_lt hslot, hpath, hread]
  exact if_neg hlen0

/-- **Round trip**: after any saves of fewer than 4097 different inputs, a replay
    delivers each of them once and whole and nothing else, skips nothing and leaves
    nothing unlisted; and saving one of them again changes nothing. -/
theorem saved_is_replayed (plat plat' : Platform) (pszTag : Option CStr)
    (hs : Savable pszDir (tagOf pszTag) ps) (hempty : EmptyDir fs pszDir d)
    (hfew : ps.dedup.length < 4097) :
    ((calls plat' (writeAll plat fs pszDir pszTag ps) pszDir).map Prod.snd).Perm ps.dedup ∧
    (loggedRun plat' (writeAll plat fs pszDir pszTag ps) pszDir).nRun = ps.dedup.length ∧
    (loggedRun plat' (writeAll plat fs pszDir pszTag ps) pszDir).nSkipped = 0 ∧
    (loggedRun plat' (writeAll plat fs pszDir pszTag ps) pszDir).nUnlisted = 0 ∧
    ∀ p ∈ ps, fuzzWriteRepro plat (writeAll plat fs pszDir pszTag ps) pszDir pszTag p =
      (true, writeAll plat fs pszDir pszTag ps) := by
  have h := stored_writeAll plat hs hempty
  generalize hfs : writeAll plat fs pszDir pszTag ps = fs' at h ⊢
  have hlisted := (h.regularDir hs).listed_eq plat'
  have hperm := h.fileNames_perm hs
  have hcount : (listed plat' fs' pszDir).length = ps.dedup.length := by
    rw [hlisted, hperm.length_eq, List.length_map]
  have hfits : (listed plat' fs' pszDir).length ≤ kFuzzCorpusMaxFiles := by
    unfold kFuzzCorpusMaxFiles
    omega
  -- each slot of the table is a name that is delivered
  have hcalls : (calls plat' fs' pszDir).Perm
      (ps.dedup.map fun p => (joinPath pszDir (reproName (tagOf pszTag) p), p)) := by
    have hslots : (slots plat' fs' pszDir).Perm
        ((ps.dedup.map (reproName (tagOf pszTag))).map (fit 256)) := by
      rw [slots_of_fits hfits, hlisted]
      exact (sortNames_perm _).trans (hperm.map (fit 256))
    have hall : ((ps.dedup.map (reproName (tagOf pszTag))).map (fit 256)).filterMap
        (FuzzCorpus.delivery fs' pszDir) =
          ps.dedup.map fun p => (joinPath pszDir (reproName (tagOf pszTag) p), p) := by
      rw [List.map_map, List.filterMap_map, ← List.filterMap_eq_map]
      apply List.filterMap_congr
      intro p hp
      exact h.delivery hs (List.mem_dedup.mp hp)
    rw [calls_eq, ← hall]
    exact hslots.filterMap _
  have hnRun : (loggedRun plat' fs' pszDir).nRun = ps.dedup.length := by
    rw [loggedRun_nRun, hcalls.length_eq, List.length_map]
  have hunlisted : (loggedRun plat' fs' pszDir).nUnlisted = 0 := by
    rw [loggedRun_nUnlisted]
    omega
  refine ⟨?_, hnRun, ?_, hunlisted, ?_⟩
  · have hbytes := hcalls.map Prod.snd
    rw [List.map_map] at hbytes
    simpa [Function.comp_def] using hbytes
  · -- what is neither delivered nor unlisted would be skipped
    have htotal := fuzzCorpusRun_count (fun _ => fs') logCall pszDir plat'
      ([] : List (CStr × List UInt8))
    rw [hcount] at htotal
    unfold loggedRun at hnRun hunlisted ⊢
    omega
  · intro p hp
    exact fuzzWriteRepro_again plat hs hp h

end saving

/-- An empty directory `r`. -/
def freshDir : FileSys where
  resolve path := if path = cstr "r" then some 0 else none
  node _ _ := none
  readdir _ := []
  writable _ := true
  nextDir := 1

theorem freshDir_empty : EmptyDir freshDir (cstr "r") 0 where
  resolve := by
    unfold freshDir
    dsimp only
    rw [if_pos rfl]
  writable := rfl
  nodup := List.nodup_nil
  node _ _ := rfl
  names := rfl

theorem saved_is_replayed_twice :
    ((calls .win32 (writeAll .posix freshDir (cstr "r") (some (cstr "crash")) [[1, 2], [3], [1, 2]])
      (cstr "r")).map Prod.snd).Perm [[1, 2], [3], [1, 2]].dedup ∧
    (loggedRun .win32 (writeAll .posix freshDir (cstr "r") (some (cstr "crash")) [[1, 2], [3], [1, 2]])
      (cstr "r")).nRun = ([[1, 2], [3], [1, 2]] : List (List UInt8)).dedup.length ∧
    (loggedRun .win32 (writeAll .posix freshDir (cstr "r") (some (cstr "crash")) [[1, 2], [3], [1, 2]])
      (cstr "r")).nSkipped = 0 ∧
    (loggedRun .win32 (writeAll .posix freshDir (cstr "r") (some (cstr "crash")) [[1, 2], [3], [1, 2]])
      (cstr "r")).nUnlisted = 0 ∧
    ∀ p ∈ ([[1, 2], [3], [1, 2]] : List (List UInt8)),
      fuzzWriteRepro .posix (writeAll .posix freshDir (cstr "r") (some (cstr "crash"))
        [[1, 2], [3], [1, 2]]) (cstr "r") (some (cstr "crash")) p =
      (true, writeAll .posix freshDir (cstr "r") (some (cstr "crash")) [[1, 2], [3], [1, 2]]) :=
  saved_is_replayed .posix .win32 (some (cstr "crash"))
    ⟨by decide, by decide, by decide, by decide, by decide, by decide, by decide, by decide +kernel⟩
    freshDir_empty (by decide)

/-- Under a tag that begins with a dot every name is a dotfile, which the walker
    passes over. -/
theorem dot_tag_is_not_replayed :
    slash ∉ cstr ".x" ∧
    (fuzzWriteRepro .posix freshDir (cstr "r") (some (cstr ".x")) [1]).1 = true ∧
    ¬ ((calls .posix (writeAll .posix freshDir (cstr "r") (some (cstr ".x")) [[1]]) (cstr "r")).map
      Prod.snd).Perm ([[1]] : List (List UInt8)).dedup := by
  decide +kernel

end FuzzCorpus
