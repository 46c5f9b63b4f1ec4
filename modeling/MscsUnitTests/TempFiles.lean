import MscsUnitTests.Lib.Isolation
import MscsUnitTests.Lib.Numerals

/-! # Temporary Files

    The programs that provision keys and lists ask `TempPath` for a path, have the library
    write there, and call `ScrubTempFiles` before they return. Any number of them run on one
    machine. The path has the process id in it, which nobody else has at the time.

    * `eq_of_names`: paths of two processes are different.
    * `finds_what_it_left`: a process finds at a path what it has left there itself.
    * `nothing_left_behind`: a file at such a path is one that a process still holds, or its
      process has ended without `ScrubTempFiles`. Other files are as they were.
-/

open CFiles CNumerals Transitions Isolation

namespace TempFiles

/-! ## Section 1: Programs and paths -/

/-- The programs with a `TempPath` of their own. -/
inductive Program where
  | armgate | authancestor | authchannel | authposture | authpsk | authrelay | confchannel
  | e2ewaive | fuzzblock | gcmdirection | keyrotate | linkcost | linktrust | replayguard
  | reportsign | restartkeyx | revokedist | sealbcast | sealdefault | sealhop | sealwire
  | vnetmount
  deriving DecidableEq

/-- What stands before the leaf. -/
def Program.lead : Program → CStr
  | .armgate => cstr "p2p_armgate_"
  | .authancestor => cstr "p2p_authancestor_"
  | .authchannel => cstr "p2p_authchannel_"
  | .authposture => cstr "p2p_authposture_"
  | .authpsk => cstr "p2p_authpsk_"
  | .authrelay => cstr "p2p_authrelay_"
  | .confchannel => cstr "p2p_confchannel_"
  | .e2ewaive => cstr "p2p_e2ewaive_"
  | .fuzzblock => cstr "p2p_fuzzblock_"
  | .gcmdirection => cstr "p2p_gcmdirection_"
  | .keyrotate => cstr "p2p_keyrotate_"
  | .linkcost => cstr "p2p_linkcost_"
  | .linktrust => cstr "p2p_linktrust_"
  | .replayguard => cstr "p2p_replayguard_"
  | .reportsign => cstr "p2p_reportsign_"
  | .restartkeyx => cstr "p2p_restartkeyx_"
  | .revokedist => cstr "p2p_revokedist_"
  | .sealbcast => cstr "p2p_sealbcast_"
  | .sealdefault => cstr "p2p_sealdefault_"
  | .sealhop => cstr "p2p_sealhop_"
  | .sealwire => cstr "p2p_sealwire_"
  | .vnetmount => cstr "p2p_vnetmount_"

/-- The directory where `GetTempPathA` has none, or too long a one. -/
def Program.here : Program → CStr
  | .fuzzblock => cstr "./"
  | _ => cstr ".\\"

/-- Two of the programs also delete the public half beside a key. -/
def Program.scrubsPub : Program → Bool
  | .armgate | .sealdefault => true
  | _ => false

/-- The path that `TempPath` makes, for what `GetTempPathA` and `GetCurrentProcessId` answer. -/
def pathOf (program : Program) (nPid : Nat) (dir : Option CStr) (leaf : CStr) : CStr :=
  dir.getD program.here ++ program.lead ++ leaf ++ cstr "_" ++ numeral 10 nPid ++ cstr ".tmp"

/-- The sibling that holds the public half. -/
def pubOf (path : CStr) : CStr := path ++ cstr ".pub"

/-! ## Section 2: Whose a path is -/

/-- A path with the process id behind its last underscore. -/
def Names (nPid : Nat) (path : CStr) : Prop :=
  ∃ head, path = head ++ cstr "_" ++ numeral 10 nPid ++ cstr ".tmp"

/-- Such a path, or its sibling. -/
def Owns (nPid : Nat) (path : CStr) : Prop :=
  Names nPid path ∨ ∃ key, Names nPid key ∧ path = pubOf key

theorem names_pathOf (program : Program) (nPid : Nat) (dir : Option CStr) (leaf : CStr) :
    Names nPid (pathOf program nPid dir leaf) :=
  ⟨dir.getD program.here ++ program.lead ++ leaf, rfl⟩

theorem underscore_not_mem (n : Nat) : (95 : UInt8) ∉ numeral 10 n :=
  not_mem_numeral (by omega) (by omega) n (by decide)

/-- What stands behind the last occurrence of a byte. -/
theorem last_part_inj {c : UInt8} {head head' l l' : CStr} (hl : c ∉ l) (hl' : c ∉ l')
    (h : head ++ c :: l = head' ++ c :: l') : l = l' := by
  have htake : ∀ {head l : CStr}, c ∉ l → (head ++ c :: l).rtakeWhile (· != c) = l := by
    intro head l hmem
    unfold List.rtakeWhile
    rw [List.reverse_append, List.reverse_cons, List.append_assoc,
      List.takeWhile_append_of_pos]
    · simp
    · intro d hd
      rw [List.mem_reverse] at hd
      exact bne_iff_ne.mpr fun heq => hmem (heq ▸ hd)
  rw [← htake hl, h, htake hl']

/-- **Different processes, different paths**, whatever the directories and the leaves. -/
theorem eq_of_names {nPid nPid' : Nat} {path : CStr} (h : Names nPid path)
    (h' : Names nPid' path) : nPid = nPid' := by
  obtain ⟨head, hpath⟩ := h
  obtain ⟨head', hpath'⟩ := h'
  rw [hpath] at hpath'
  have hcut := List.append_cancel_right hpath'
  have hunderscore : cstr "_" = [95] := by decide
  rw [hunderscore, List.append_assoc, List.append_assoc] at hcut
  have hdigits := last_part_inj (underscore_not_mem nPid) (underscore_not_mem nPid') hcut
  rw [← value_decimal nPid, hdigits, value_decimal]

theorem not_names_pubOf {nPid : Nat} {key : CStr} : ¬ Names nPid (pubOf key) := by
  rintro ⟨head, h⟩
  have hlast : cstr ".pub" = cstr ".tmp" := (List.append_inj' h (by decide)).2
  exact absurd hlast (by decide)

theorem eq_of_owns {nPid nPid' : Nat} {path : CStr} (h : Owns nPid path)
    (h' : Owns nPid' path) : nPid = nPid' := by
  rcases h with h | ⟨key, hkey, rfl⟩
  · rcases h' with h' | ⟨key', hkey', rfl⟩
    · exact eq_of_names h h'
    · exact absurd h not_names_pubOf
  · rcases h' with h' | ⟨key', hkey', heq⟩
    · exact absurd h' not_names_pubOf
    · have hsame : key = key' := List.append_cancel_right heq
      subst hsame
      exact eq_of_names hkey hkey'

/-! ## Section 3: Processes on one disk -/

abbrev Disk : Type := CStr → Option (List UInt8)

structure Process where
  program : Program
  g_vTempFiles : List CStr

/-- What `ScrubTempFiles` deletes, in this order. -/
def Process.scrubbed (p : Process) : List CStr :=
  p.g_vTempFiles.flatMap fun path =>
    if p.program.scrubsPub then [path, pubOf path] else [path]

/-- A process id: the process that has it, and all that was written or deleted under it so
    far, by this process and by those that had it before. -/
structure Agent where
  running : Option Process
  journal : List (CStr × Option (List UInt8))

def Agent.idle : Agent := ⟨none, []⟩

/-- A file is written, or deleted. -/
def put (path : CStr) (bytes : Option (List UInt8)) (at_ : Agent × Disk) : Agent × Disk :=
  ({ at_.1 with journal := at_.1.journal ++ [(path, bytes)] },
    Function.update at_.2 path bytes)

def Agent.run (a : Agent) (p : Process) : Agent := { a with running := some p }

/-- `DeleteFileA` of each. -/
def deleteFiles (paths : List CStr) (at_ : Agent × Disk) : Agent × Disk :=
  paths.foldl (fun at_ path => put path none at_) at_

inductive Action where
  | start (program : Program)
  | tempPath (dir : Option CStr) (leaf : CStr)
  | save (path : CStr) (bytes : List UInt8)
  | remove (path : CStr)
  | scrubTempFiles
  | leave
  | abandon
  deriving DecidableEq

/-- What a process does. The library writes where it is told to, at paths of `TempPath`; a
    process that ends holds no path any more (`leave`), or it holds some (`abandon`). -/
def act (nPid : Nat) : Action → Agent → Disk → Option (Agent × Disk)
  | .start program, a, disk =>
    if a.running.isNone then some (a.run ⟨program, []⟩, disk) else none
  | .tempPath dir leaf, a, disk => a.running.map fun p =>
    let s := pathOf p.program nPid dir leaf
    -- what an earlier process with this id may have left is deleted before the path is handed out
    let deleted := put s none (a, disk)
    (deleted.1.run { p with g_vTempFiles := p.g_vTempFiles ++ [s] }, deleted.2)
  | .save path bytes, a, disk => a.running.bind fun p =>
    if p.scrubbed.contains path then some (put path (some bytes) (a, disk)) else none
  | .remove path, a, disk => a.running.bind fun p =>
    if p.scrubbed.contains path then some (put path none (a, disk)) else none
  | .scrubTempFiles, a, disk => a.running.map fun p =>
    let deleted := deleteFiles p.scrubbed (a, disk)
    (deleted.1.run { p with g_vTempFiles := [] }, deleted.2)
  -- the exits of the programs behind `ScrubTempFiles`, or before the first `TempPath`
  | .leave, a, disk => a.running.bind fun p =>
    if p.g_vTempFiles = [] then some ({ a with running := none }, disk) else none
  -- the exits that do not call it
  | .abandon, a, disk => a.running.map fun _ => ({ a with running := none }, disk)

/-- All processes of a machine. -/
def machine : System Nat CStr (Option (List UInt8)) Agent Action := ⟨act, Owns⟩

/-- The machine before any of them has run. -/
def booted (disk : Disk) : State Nat CStr (Option (List UInt8)) Agent := ⟨fun _ => .idle, disk⟩

/-! ## Section 4: What was left at a path -/

/-- What the last entry for a path says. -/
def lastLeft (journal : List (CStr × Option (List UInt8))) (path : CStr) :
    Option (Option (List UInt8)) :=
  journal.foldl (fun last entry => if entry.1 = path then some entry.2 else last) none

@[simp] theorem lastLeft_concat (journal : List (CStr × Option (List UInt8))) (q path : CStr)
    (bytes : Option (List UInt8)) : lastLeft (journal ++ [(q, bytes)]) path =
      if q = path then some bytes else lastLeft journal path := by
  unfold lastLeft
  rw [List.foldl_append]
  rfl

theorem lastLeft_isSome {journal : List (CStr × Option (List UInt8))} {path : CStr} :
    (lastLeft journal path).isSome = true ↔ path ∈ journal.map Prod.fst := by
  induction journal using List.reverseRecOn with
  | nil => simp [lastLeft]
  | append_singleton journal entry ih =>
    obtain ⟨q, bytes⟩ := entry
    rw [lastLeft_concat, List.map_append, List.mem_append, ← ih]
    by_cases hq : q = path
    · simp [hq]
    · simp [hq, Ne.symm hq]

/-- A process still has a path. -/
def Agent.Holds (a : Agent) (path : CStr) : Prop :=
  ∃ p, a.running = some p ∧ path ∈ p.scrubbed

/-- What holds of a process id: whose its paths are, that the disk has what was left there
    last, and who answers for what is there. -/
structure Kept (disk₀ : Disk) (nPid : Nat) (a : Agent) (done : List Action) (disk : Disk) :
    Prop where
  named : ∀ p, a.running = some p → ∀ path ∈ p.g_vTempFiles, Names nPid path
  handed : ∀ p, a.running = some p → ∀ path ∈ p.g_vTempFiles,
    (lastLeft a.journal path).isSome = true
  disk : ∀ path, Owns nPid path → disk path = (lastLeft a.journal path).getD (disk₀ path)
  owned : ∀ path, (lastLeft a.journal path).isSome = true → Owns nPid path
  held : ∀ path bytes, lastLeft a.journal path = some (some bytes) →
    a.Holds path ∨ .abandon ∈ done

variable {disk₀ disk : Disk} {nPid : Nat} {a : Agent} {done : List Action} {p : Process}

theorem owns_of_scrubbed (hnamed : ∀ path ∈ p.g_vTempFiles, Names nPid path) :
    ∀ path ∈ p.scrubbed, Owns nPid path := by
  intro path hpath
  obtain ⟨key, hkey, hmem⟩ := List.mem_flatMap.mp hpath
  split at hmem
  · rcases List.mem_cons.mp hmem with rfl | hpub
    · exact .inl (hnamed _ hkey)
    · rw [List.mem_singleton] at hpub
      exact .inr ⟨key, hnamed _ hkey, hpub⟩
  · rw [List.mem_singleton] at hmem
    subst hmem
    exact .inl (hnamed _ hkey)

/-- A write or a deletion at a path of the process, which answers for what it writes. -/
theorem Kept.put (h : Kept disk₀ nPid a done disk) {path : CStr} {bytes : Option (List UInt8)}
    (howns : Owns nPid path) (hheld : bytes ≠ none → a.Holds path) :
    Kept disk₀ nPid (put path bytes (a, disk)).1 done (put path bytes (a, disk)).2 where
  named := h.named
  handed := by
    intro p hp q hq
    show (lastLeft (a.journal ++ [(path, bytes)]) q).isSome = true
    rw [lastLeft_concat]
    split
    · rfl
    · exact h.handed p hp q hq
  disk := by
    intro q hq
    show Function.update disk path bytes q = (lastLeft (a.journal ++ [(path, bytes)]) q).getD _
    rw [lastLeft_concat]
    by_cases hpath : path = q
    · subst hpath
      rw [Function.update_self, if_pos rfl, Option.getD_some]
    · rw [Function.update_of_ne (Ne.symm hpath), if_neg hpath]
      exact h.disk q hq
  owned := by
    intro q hq
    by_cases hpath : path = q
    · subst hpath
      exact howns
    · have hold : (lastLeft (a.journal ++ [(path, bytes)]) q).isSome = true := hq
      rw [lastLeft_concat, if_neg hpath] at hold
      exact h.owned q hold
  held := by
    intro q bytes' hq
    have hlast : lastLeft (a.journal ++ [(path, bytes)]) q = some (some bytes') := hq
    rw [lastLeft_concat] at hlast
    by_cases hpath : path = q
    · subst hpath
      rw [if_pos rfl, Option.some_inj] at hlast
      exact .inl (hheld (by simp [hlast]))
    · rw [if_neg hpath] at hlast
      exact h.held q bytes' hlast

/-- Deletions, one after the other. -/
theorem Kept.deleteFiles (h : Kept disk₀ nPid a done disk) {paths : List CStr}
    (howns : ∀ path ∈ paths, Owns nPid path) :
    Kept disk₀ nPid (deleteFiles paths (a, disk)).1 done (deleteFiles paths (a, disk)).2 := by
  induction paths generalizing a disk with
  | nil => exact h
  | cons path paths ih =>
    rw [List.forall_mem_cons] at howns
    exact ih (h.put howns.1 (fun hne => absurd rfl hne)) howns.2

/-- What is there after them. -/
theorem lastLeft_deleteFiles (paths : List CStr) (a : Agent) (disk : Disk) (path : CStr) :
    lastLeft (deleteFiles paths (a, disk)).1.journal path =
      if path ∈ paths then some none else lastLeft a.journal path := by
  induction paths generalizing a disk with
  | nil => simp [deleteFiles]
  | cons q paths ih =>
    show lastLeft (deleteFiles paths (put q none (a, disk))).1.journal path = _
    rw [ih]
    show (if path ∈ paths then _ else lastLeft (a.journal ++ [(q, none)]) path) = _
    rw [lastLeft_concat]
    by_cases hpaths : path ∈ paths
    · simp [hpaths]
    · by_cases hq : q = path
      · simp [hq]
      · simp [hpaths, hq, Ne.symm hq]

theorem running_deleteFiles (paths : List CStr) (a : Agent) (disk : Disk) :
    (deleteFiles paths (a, disk)).1.running = a.running := by
  induction paths generalizing a disk with
  | nil => rfl
  | cons q paths ih => exact ih _ _

/-- More has happened. -/
theorem Kept.later (h : Kept disk₀ nPid a done disk) (b : Action) :
    Kept disk₀ nPid a (done ++ [b]) disk where
  named := h.named
  handed := h.handed
  disk := h.disk
  owned := h.owned
  held := fun path bytes hleft => (h.held path bytes hleft).imp_right (List.mem_append_left _)

/-- Another process has the id, or the same one has other paths, and answers for what is
    there. -/
theorem Kept.goesOn (h : Kept disk₀ nPid a done disk) {p : Process} {done' : List Action}
    (hnamed : ∀ path ∈ p.g_vTempFiles, Names nPid path)
    (hhanded : ∀ path ∈ p.g_vTempFiles, (lastLeft a.journal path).isSome = true)
    (hheld : ∀ path bytes, lastLeft a.journal path = some (some bytes) →
      path ∈ p.scrubbed ∨ .abandon ∈ done') :
    Kept disk₀ nPid (a.run p) done' disk where
  named := by
    intro q hq
    cases hq
    exact hnamed
  handed := by
    intro q hq
    cases hq
    exact hhanded
  disk := h.disk
  owned := h.owned
  held := by
    intro path bytes hleft
    exact (hheld path bytes hleft).imp_left fun hmem => ⟨p, rfl, hmem⟩

/-- The process has ended. -/
theorem Kept.ended (h : Kept disk₀ nPid a done disk) {done' : List Action}
    (hnone : ∀ path bytes, lastLeft a.journal path = some (some bytes) → .abandon ∈ done') :
    Kept disk₀ nPid { a with running := none } done' disk where
  named := by
    intro q hq
    cases hq
  handed := by
    intro q hq
    cases hq
  disk := h.disk
  owned := h.owned
  held := fun path bytes hleft => .inr (hnone path bytes hleft)

/-! ## Section 5: Every action keeps it -/

/-- What an action does, with what it asks for. -/
inductive Does (nPid : Nat) (a : Agent) (disk : Disk) : Action → Agent × Disk → Prop where
  | start {program : Program} (hidle : a.running = none) :
    Does nPid a disk (.start program) (a.run ⟨program, []⟩, disk)
  | tempPath {p : Process} {dir : Option CStr} {leaf s : CStr} (hp : a.running = some p)
    (hs : s = pathOf p.program nPid dir leaf) : Does nPid a disk (.tempPath dir leaf)
      ((put s none (a, disk)).1.run { p with g_vTempFiles := p.g_vTempFiles ++ [s] },
        (put s none (a, disk)).2)
  | put {p : Process} {b : Action} {path : CStr} {bytes : Option (List UInt8)}
    (hp : a.running = some p) (hpath : path ∈ p.scrubbed) :
    Does nPid a disk b (put path bytes (a, disk))
  | scrubTempFiles {p : Process} (hp : a.running = some p) :
    Does nPid a disk .scrubTempFiles
      ((deleteFiles p.scrubbed (a, disk)).1.run { p with g_vTempFiles := [] },
        (deleteFiles p.scrubbed (a, disk)).2)
  | leave {p : Process} (hp : a.running = some p) (hnone : p.g_vTempFiles = []) :
    Does nPid a disk .leave ({ a with running := none }, disk)
  | abandon : Does nPid a disk .abandon ({ a with running := none }, disk)

theorem act_does {b : Action} {out : Agent × Disk} (h : act nPid b a disk = some out) :
    Does nPid a disk b out := by
  cases b with
  | start program =>
    obtain ⟨hidle, hout⟩ := Option.ite_none_right_eq_some.mp h
    cases hout
    exact .start (Option.isNone_iff_eq_none.mp hidle)
  | tempPath dir leaf =>
    obtain ⟨p, hp, rfl⟩ := Option.map_eq_some_iff.mp h
    exact .tempPath hp rfl
  | save path bytes =>
    obtain ⟨p, hp, hsome⟩ := Option.bind_eq_some_iff.mp h
    obtain ⟨hpath, hout⟩ := Option.ite_none_right_eq_some.mp hsome
    cases hout
    exact .put hp (List.contains_iff_mem.mp hpath)
  | remove path =>
    obtain ⟨p, hp, hsome⟩ := Option.bind_eq_some_iff.mp h
    obtain ⟨hpath, hout⟩ := Option.ite_none_right_eq_some.mp hsome
    cases hout
    exact .put hp (List.contains_iff_mem.mp hpath)
  | scrubTempFiles =>
    obtain ⟨p, hp, rfl⟩ := Option.map_eq_some_iff.mp h
    exact .scrubTempFiles hp
  | leave =>
    obtain ⟨p, hp, hsome⟩ := Option.bind_eq_some_iff.mp h
    obtain ⟨hnone, hout⟩ := Option.ite_none_right_eq_some.mp hsome
    cases hout
    exact .leave hp hnone
  | abandon =>
    obtain ⟨p, -, rfl⟩ := Option.map_eq_some_iff.mp h
    exact .abandon

/-- Only paths of the process are written. -/
theorem deleteFiles_outside {paths : List CStr} {path : CStr} (hpath : path ∉ paths)
    (at_ : Agent × Disk) : (deleteFiles paths at_).2 path = at_.2 path := by
  induction paths generalizing at_ with
  | nil => rfl
  | cons q paths ih =>
    rw [List.mem_cons, not_or] at hpath
    exact (ih hpath.2 _).trans (Function.update_of_ne hpath.1 _ _)

theorem Kept.frame (h : Kept disk₀ nPid a done disk) {b : Action} {out : Agent × Disk}
    (hdoes : Does nPid a disk b out) {path : CStr} (hpath : ¬ Owns nPid path) :
    out.2 path = disk path := by
  cases hdoes with
  | start _ => rfl
  | tempPath _ hs =>
    refine Function.update_of_ne ?_ _ _
    rintro rfl
    rw [hs] at hpath
    exact hpath (.inl (names_pathOf _ _ _ _))
  | put hp hmem =>
    refine Function.update_of_ne ?_ _ _
    rintro rfl
    exact hpath (owns_of_scrubbed (h.named _ hp) _ hmem)
  | scrubTempFiles hp =>
    refine deleteFiles_outside ?_ _
    intro hmem
    exact hpath (owns_of_scrubbed (h.named _ hp) _ hmem)
  | leave _ _ => rfl
  | abandon => rfl

theorem scrubbed_append (p : Process) (path : CStr) {q : CStr} (hq : q ∈ p.scrubbed) :
    q ∈ Process.scrubbed { p with g_vTempFiles := p.g_vTempFiles ++ [path] } := by
  unfold Process.scrubbed at hq ⊢
  rw [List.flatMap_append]
  exact List.mem_append_left _ hq

/-- `TempPath`: nothing is at the path, and the process has it. -/
theorem Kept.handsOut (h : Kept disk₀ nPid a done disk) (hp : a.running = some p) {s : CStr}
    (hnames : Names nPid s) : Kept disk₀ nPid
      ((TempFiles.put s none (a, disk)).1.run { p with g_vTempFiles := p.g_vTempFiles ++ [s] })
      done (TempFiles.put s none (a, disk)).2 := by
  have hput : Kept disk₀ nPid (TempFiles.put s none (a, disk)).1 done
      (TempFiles.put s none (a, disk)).2 :=
    h.put (.inl hnames) (fun hne => absurd rfl hne)
  refine hput.goesOn ?_ ?_ ?_
  · intro path hpath
    rcases List.mem_append.mp hpath with hold | hnew
    · exact h.named p hp path hold
    · rw [List.mem_singleton.mp hnew]
      exact hnames
  · intro path hpath
    rcases List.mem_append.mp hpath with hold | hnew
    · exact hput.handed p hp path hold
    · rw [List.mem_singleton.mp hnew, lastLeft_isSome]
      exact List.mem_map.mpr ⟨(s, none), List.mem_append_right _ (List.mem_singleton_self _), rfl⟩
  · intro path bytes hleft
    rcases hput.held path bytes hleft with ⟨q, hq, hmem⟩ | habandon
    · have hsame : q = p := Option.some_inj.mp (hq.symm.trans hp)
      subst hsame
      exact .inl (scrubbed_append _ s hmem)
    · exact .inr habandon

theorem Kept.does (h : Kept disk₀ nPid a done disk) {b : Action} {out : Agent × Disk}
    (hdoes : Does nPid a disk b out) : Kept disk₀ nPid out.1 (done ++ [b]) out.2 := by
  have hlater := h.later b
  cases hdoes with
  | start hidle =>
    refine hlater.goesOn (by simp) (by simp) ?_
    -- what is there was left by a process that had the id before
    intro path bytes hleft
    rcases hlater.held path bytes hleft with ⟨p, hp, _⟩ | habandon
    · rw [hidle] at hp
      cases hp
    · exact .inr habandon
  | @tempPath p dir leaf s hp hs =>
    have hnames : Names nPid s := by
      rw [hs]
      exact names_pathOf _ _ _ _
    exact hlater.handsOut hp hnames
  | @put p b path bytes hp hpath =>
    exact hlater.put (owns_of_scrubbed (h.named p hp) path hpath) (fun _ => ⟨p, hp, hpath⟩)
  | @scrubTempFiles p hp =>
    have hdeleted := hlater.deleteFiles (owns_of_scrubbed (h.named p hp))
    refine hdeleted.goesOn (by simp) (by simp) ?_
    intro path bytes hleft
    rcases hdeleted.held path bytes hleft with ⟨q, hq, hmem⟩ | habandon
    · -- what the process holds is deleted, so it cannot be what was left
      rw [running_deleteFiles, hp, Option.some_inj] at hq
      subst hq
      rw [lastLeft_deleteFiles, if_pos hmem] at hleft
      cases hleft
    · exact .inr habandon
  | @leave p hp hnone =>
    refine hlater.ended ?_
    intro path bytes hleft
    rcases hlater.held path bytes hleft with ⟨q, hq, hmem⟩ | habandon
    · rw [hp, Option.some_inj] at hq
      subst hq
      unfold Process.scrubbed at hmem
      rw [hnone] at hmem
      cases hmem
    · exact habandon
  | abandon =>
    refine hlater.ended ?_
    intro path bytes _
    exact List.mem_append_right _ (List.mem_singleton_self _)

theorem machine_kept (disk₀ : Disk) : KeptByAll machine (Kept disk₀) where
  disjoint := fun _ _ _ => eq_of_owns
  own_keys := by
    intro nPid a done disk disk' hsame h
    exact ⟨h.named, h.handed, fun path hpath => (hsame path hpath).trans (h.disk path hpath),
      h.owned, h.held⟩
  frame := fun _ _ _ _ _ _ h hact _ hpath => h.frame (act_does hact) hpath
  kept := fun _ _ _ _ _ _ h hact => h.does (act_does hact)

theorem kept_booted (disk₀ : Disk) (nPid : Nat) : Kept disk₀ nPid .idle [] disk₀ where
  named := by
    intro p hp
    cases hp
  handed := by
    intro p hp
    cases hp
  disk := fun _ _ => rfl
  owned := by
    intro path h
    cases h
  held := by
    intro path bytes h
    cases h

/-! ## Section 6: Runs of the machine -/

section runs
variable {s : State Nat CStr (Option (List UInt8)) Agent} {as : List (Nat × Action)}

theorem kept_of_run (hrun : Run (step machine) (booted disk₀) as s) (nPid : Nat) :
    Kept disk₀ nPid (s.agents nPid) (Network.ofParty nPid as) s.store :=
  each (machine_kept disk₀) hrun (kept_booted disk₀) nPid

/-- **A process finds what it left**, at any point of any run: at a path that it was handed
    there is what was last left there under its own id, whatever the others have done and
    whatever there was before. -/
theorem finds_what_it_left (hrun : Run (step machine) (booted disk₀) as s)
    (hp : (s.agents nPid).running = some p) {path : CStr} (hpath : path ∈ p.g_vTempFiles) :
    lastLeft (s.agents nPid).journal path = some (s.store path) := by
  have hkept := kept_of_run hrun nPid
  obtain ⟨left, hleft⟩ := Option.isSome_iff_exists.mp (hkept.handed p hp path hpath)
  rw [hleft, hkept.disk path (.inl (hkept.named p hp path hpath)), hleft, Option.getD_some]

/-- Two processes of one program, with the same leaf. -/
def twoAtOnce : List (Nat × Action) :=
  [(7, .start .armgate), (8, .start .armgate), (7, .tempPath none (cstr "allow")),
    (8, .tempPath none (cstr "allow")),
    (7, .save (pathOf .armgate 7 none (cstr "allow")) [1]),
    (8, .save (pathOf .armgate 8 none (cstr "allow")) [2]), (8, .scrubTempFiles), (8, .leave)]

theorem twoAtOnce_runs : (exec (step machine) (booted fun _ => none) twoAtOnce).map
    (fun s => ((s.agents 7).running.map Process.g_vTempFiles,
      s.store (pathOf .armgate 7 none (cstr "allow")),
      s.store (pathOf .armgate 8 none (cstr "allow")))) =
    some (some [pathOf .armgate 7 none (cstr "allow")], some [1], none) := by
  decide +kernel

theorem finds_what_it_left_two : ∃ s, Run (step machine) (booted fun _ => none) twoAtOnce s ∧
    lastLeft (s.agents 7).journal (pathOf .armgate 7 none (cstr "allow")) = some (some [1]) := by
  obtain ⟨s, hexec, hseen⟩ := Option.map_eq_some_iff.mp twoAtOnce_runs
  obtain ⟨hrunning, hstore⟩ := Prod.mk.inj hseen
  obtain ⟨p, hp, hpaths⟩ := Option.map_eq_some_iff.mp hrunning
  have hmem : pathOf .armgate 7 none (cstr "allow") ∈ p.g_vTempFiles := by
    rw [hpaths]
    exact List.mem_singleton_self _
  have hfound := finds_what_it_left (run_of_exec hexec) hp hmem
  exact ⟨s, run_of_exec hexec, hfound.trans (congrArg some (Prod.mk.inj hstore).1)⟩

/-- **Nothing is left behind**, at any point of any run: where a file was written under a
    process id, it is gone, or a process with this id still holds the path, or one has ended
    without `ScrubTempFiles`. What nobody has written is as it was. -/
theorem nothing_left_behind (hrun : Run (step machine) (booted disk₀) as s) (path : CStr) :
    (∀ nPid, path ∈ (s.agents nPid).journal.map Prod.fst →
      s.store path = none ∨ (s.agents nPid).Holds path ∨ (nPid, .abandon) ∈ as) ∧
    ((∀ nPid, path ∉ (s.agents nPid).journal.map Prod.fst) → s.store path = disk₀ path) := by
  refine ⟨?_, ?_⟩
  · intro nPid hwritten
    have hkept := kept_of_run hrun nPid
    have hsome := lastLeft_isSome.mpr hwritten
    obtain ⟨left, hleft⟩ := Option.isSome_iff_exists.mp hsome
    have hdisk := hkept.disk path (hkept.owned path hsome)
    rw [hleft, Option.getD_some] at hdisk
    rw [hdisk]
    rcases left with _ | bytes
    · exact .inl rfl
    · have hheld := hkept.held path bytes hleft
      rw [Network.mem_ofParty] at hheld
      exact .inr hheld
  · intro hnever
    by_cases howned : ∃ nPid, Owns nPid path
    · obtain ⟨nPid, howns⟩ := howned
      have hnone : lastLeft (s.agents nPid).journal path = none := by
        rw [← Option.not_isSome_iff_eq_none, lastLeft_isSome]
        exact hnever nPid
      rw [(kept_of_run hrun nPid).disk path howns, hnone, Option.getD_none]
    · rw [not_exists] at howned
      exact unowned (machine_kept disk₀) hrun (kept_booted disk₀) howned

theorem nothing_left_behind_two : ∃ s, Run (step machine) (booted fun _ => none) twoAtOnce s ∧
    (∀ nPid, pathOf .armgate 8 none (cstr "allow") ∈ (s.agents nPid).journal.map Prod.fst →
      s.store (pathOf .armgate 8 none (cstr "allow")) = none ∨
        (s.agents nPid).Holds (pathOf .armgate 8 none (cstr "allow")) ∨
        (nPid, .abandon) ∈ twoAtOnce) ∧
    ((∀ nPid, pathOf .armgate 8 none (cstr "allow") ∉ (s.agents nPid).journal.map Prod.fst) →
      s.store (pathOf .armgate 8 none (cstr "allow")) = none) := by
  obtain ⟨s, hexec, -⟩ := Option.map_eq_some_iff.mp twoAtOnce_runs
  exact ⟨s, run_of_exec hexec, nothing_left_behind (run_of_exec hexec) _⟩

end runs

end TempFiles
