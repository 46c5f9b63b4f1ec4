import Mathlib.Data.List.Basic

/-! # Conditional Groups

    Lines that open, turn and close conditional groups, and which of the other lines
    are kept: the conditional part of a preprocessor, over any conditions.

    * `step`, `keptLines`: the stack of open groups and the lines that are kept.
    * `Place`: a line where it stands; `mem_keptLines_iff_place`: which are kept.
    * `remember`: a tracker that notes the condition of every open group, and forgets
      it in the other branches.
    * `remember_sound`: on a line that is kept, every condition that is noted holds.
    * `remember_complete`: where every condition is noted and holds, a line is kept.
-/

namespace Conditionals

variable {γ ι : Type}

/-! ## Section 1: Groups -/

/-- What a line does to the groups. -/
inductive Directive (γ : Type) where
  | opens (c : γ)
  | elif (c : γ)
  | els
  | endif
  | plain
  deriving DecidableEq

/-- An open group: is the branch that is being read a kept one, and has a branch been
    taken already? Of a group inside a dropped branch none is taken any more. -/
structure Branch where
  live : Bool
  taken : Bool
  deriving DecidableEq

def active (st : List Branch) : Bool :=
  st.all Branch.live

def step (holds : γ → Bool) (st : List Branch) : Directive γ → List Branch
  | .opens c => (if active st then ⟨holds c, holds c⟩ else ⟨false, true⟩) :: st
  | .elif c =>
    match st with
    | [] => []
    | b :: rest => (if b.taken then ⟨false, true⟩ else ⟨holds c, holds c⟩) :: rest
  | .els =>
    match st with
    | [] => []
    | b :: rest => ⟨!b.taken, true⟩ :: rest
  | .endif => st.tail
  | .plain => st

def Directive.isPlain : Directive γ → Bool
  | .plain => true
  | _ => false

/-- The lines that are kept, from a stack of open groups on. -/
def keptLines (holds : γ → Bool) (dir : ι → Directive γ) : List Branch → List ι → List ι
  | _, [] => []
  | st, l :: ls =>
    (if (dir l).isPlain && active st then [l] else []) ++
      keptLines holds dir (step holds st (dir l)) ls

/-- How many groups are open behind a line; none when one is turned or closed that was
    not opened. -/
def nests (depth : Nat) : Directive γ → Option Nat
  | .opens _ => some (depth + 1)
  | .elif _ => if 0 < depth then some depth else none
  | .els => if 0 < depth then some depth else none
  | .endif => if 0 < depth then some (depth - 1) else none
  | .plain => some depth

/-- Every group is opened before it is turned or closed, and closed in the end. -/
def nested (dir : ι → Directive γ) : Nat → List ι → Bool
  | depth, [] => depth == 0
  | depth, l :: ls =>
    match nests depth (dir l) with
    | some depth' => nested dir depth' ls
    | none => false

/-- The open groups behind some lines. -/
def groupsAfter (holds : γ → Bool) (dir : ι → Directive γ) (st : List Branch) (ls : List ι) :
    List Branch :=
  ls.foldl (fun st l => step holds st (dir l)) st

/-- A line is kept where it stands in open groups that are all being read. -/
theorem mem_keptLines_iff (holds : γ → Bool) (dir : ι → Directive γ) (st : List Branch)
    (ls : List ι) (l : ι) :
    l ∈ keptLines holds dir st ls ↔ ∃ pre post, ls = pre ++ l :: post ∧
      (dir l).isPlain = true ∧ active (groupsAfter holds dir st pre) = true := by
  induction ls generalizing st with
  | nil => simp [keptLines]
  | cons l' ls ih =>
    have hfirst : l ∈ (if (dir l').isPlain && active st then [l'] else []) ↔
        l = l' ∧ (dir l').isPlain = true ∧ active st = true := by
      by_cases h : ((dir l').isPlain && active st) = true
      · rw [if_pos h, List.mem_singleton]
        rw [Bool.and_eq_true] at h
        exact (and_iff_left h).symm
      · rw [if_neg h]
        rw [Bool.and_eq_true] at h
        simp [h]
    unfold keptLines
    rw [List.mem_append, hfirst, ih]
    constructor
    · rintro (⟨rfl, hplain, hactive⟩ | ⟨pre, post, rfl, hplain, hactive⟩)
      · exact ⟨[], ls, rfl, hplain, hactive⟩
      · exact ⟨l' :: pre, post, rfl, hplain, hactive⟩
    · rintro ⟨pre, post, hls, hplain, hactive⟩
      -- the line is the first one, or it comes behind it
      cases pre with
      | nil =>
        obtain ⟨rfl, rfl⟩ := List.cons.inj hls
        exact Or.inl ⟨rfl, hplain, hactive⟩
      | cons _ pre =>
        obtain ⟨rfl, rfl⟩ := List.cons.inj hls
        exact Or.inr ⟨pre, post, rfl, hplain, hactive⟩

/-! ## Section 2: Places -/

/-- A line, with the lines before it. -/
structure Place (ι : Type) where
  before : List ι
  line : ι

def placesFrom (before : List ι) : List ι → List (Place ι)
  | [] => []
  | l :: ls => ⟨before, l⟩ :: placesFrom (before ++ [l]) ls

def places (ls : List ι) : List (Place ι) :=
  placesFrom [] ls

theorem mem_placesFrom {before ls : List ι} {p : Place ι} :
    p ∈ placesFrom before ls ↔
      ∃ pre post, ls = pre ++ p.line :: post ∧ p.before = before ++ pre := by
  induction ls generalizing before with
  | nil => simp [placesFrom]
  | cons l ls ih =>
    unfold placesFrom
    rw [List.mem_cons, ih]
    constructor
    · rintro (rfl | ⟨pre, post, rfl, hbefore⟩)
      · exact ⟨[], ls, rfl, (List.append_nil before).symm⟩
      · refine ⟨l :: pre, post, rfl, ?_⟩
        rw [hbefore, List.append_assoc, List.singleton_append]
    · rintro ⟨pre, post, hls, hbefore⟩
      -- the place is the first one, or it comes behind it
      cases pre with
      | nil =>
        obtain ⟨rfl, rfl⟩ := List.cons.inj hls
        rw [List.append_nil] at hbefore
        subst hbefore
        exact Or.inl rfl
      | cons _ pre =>
        obtain ⟨rfl, rfl⟩ := List.cons.inj hls
        refine Or.inr ⟨pre, post, rfl, ?_⟩
        rw [hbefore, List.append_assoc, List.singleton_append]

theorem mem_places {ls : List ι} {p : Place ι} :
    p ∈ places ls ↔ ∃ post, ls = p.before ++ p.line :: post := by
  unfold places
  rw [mem_placesFrom]
  constructor
  · rintro ⟨pre, post, hls, hbefore⟩
    rw [List.nil_append] at hbefore
    subst hbefore
    exact ⟨post, hls⟩
  · rintro ⟨post, hls⟩
    exact ⟨p.before, post, hls, rfl⟩

/-- Every line before a place has a place before it. -/
theorem exists_place_before {ls : List ι} {p : Place ι} (hp : p ∈ places ls) {l : ι}
    (hl : l ∈ p.before) : ∃ q ∈ places ls, q.line = l ∧ q.before.length < p.before.length := by
  obtain ⟨post, hls⟩ := mem_places.mp hp
  obtain ⟨pre, rest, hbefore⟩ := List.append_of_mem hl
  refine ⟨⟨pre, l⟩, mem_places.mpr ⟨rest ++ p.line :: post, ?_⟩, rfl, ?_⟩
  · rw [hls, hbefore, List.append_assoc, List.cons_append]
  · rw [hbefore, List.length_append, List.length_cons]
    exact Nat.lt_add_of_pos_right (Nat.succ_pos _)

theorem line_mem {ls : List ι} {p : Place ι} (hp : p ∈ places ls) : p.line ∈ ls := by
  obtain ⟨post, rfl⟩ := mem_places.mp hp
  exact List.mem_append_right _ List.mem_cons_self

theorem before_subset {ls : List ι} {p : Place ι} (hp : p ∈ places ls) : p.before ⊆ ls := by
  obtain ⟨post, rfl⟩ := mem_places.mp hp
  exact List.subset_append_left _ _

/-- A line is kept at a place whose groups are all being read. -/
theorem mem_keptLines_iff_place (holds : γ → Bool) (dir : ι → Directive γ) (ls : List ι) (l : ι) :
    l ∈ keptLines holds dir [] ls ↔ ∃ p ∈ places ls, p.line = l ∧ (dir l).isPlain = true ∧
      active (groupsAfter holds dir [] p.before) = true := by
  rw [mem_keptLines_iff]
  constructor
  · rintro ⟨pre, post, hls, hplain, hactive⟩
    exact ⟨⟨pre, l⟩, mem_places.mpr ⟨post, hls⟩, rfl, hplain, hactive⟩
  · rintro ⟨p, hp, rfl, hplain, hactive⟩
    obtain ⟨post, hls⟩ := mem_places.mp hp
    exact ⟨p.before, post, hls, hplain, hactive⟩

/-! ## Section 3: A tracker -/

/-- What is known of every open group: its condition, or nothing where the branch has
    been turned. -/
def remember (gs : List (Option γ)) : Directive γ → List (Option γ)
  | .opens c => some c :: gs
  | .elif _ => none :: gs.tail
  | .els => none :: gs.tail
  | .endif => gs.tail
  | .plain => gs

/-- What is known behind some lines. -/
def knownAfter (dir : ι → Directive γ) (gs : List (Option γ)) (ls : List ι) : List (Option γ) :=
  ls.foldl (fun gs l => remember gs (dir l)) gs

/-- The tracker beside the groups: a branch whose condition is noted is being read when the
    condition holds and the groups around it are being read. -/
inductive Tracks (holds : γ → Bool) : List (Option γ) → List Branch → Prop where
  | nil : Tracks holds [] []
  | known {gs : List (Option γ)} {st : List Branch} {c : γ} {b : Branch} (h : Tracks holds gs st)
      (hlive : b.live = (holds c && active st)) : Tracks holds (some c :: gs) (b :: st)
  | turned {gs : List (Option γ)} {st : List Branch} {b : Branch} (h : Tracks holds gs st) :
      Tracks holds (none :: gs) (b :: st)

section tracker
variable {holds : γ → Bool}

theorem step_length (holds : γ → Bool) {st : List Branch} {d : Directive γ} {depth : Nat}
    (h : nests st.length d = some depth) : (step holds st d).length = depth := by
  cases d with
  | opens c =>
    cases h
    rfl
  | elif c =>
    cases st with
    | nil => cases h
    | cons b rest =>
      cases h
      rfl
  | els =>
    cases st with
    | nil => cases h
    | cons b rest =>
      cases h
      rfl
  | endif =>
    cases st with
    | nil => cases h
    | cons b rest =>
      cases h
      rfl
  | plain =>
    cases h
    rfl

theorem Tracks.tail {gs : List (Option γ)} {st : List Branch} (h : Tracks holds gs st) :
    Tracks holds gs.tail st.tail := by
  cases h with
  | nil => exact .nil
  | known hrest _ => exact hrest
  | turned hrest => exact hrest

theorem Tracks.step {gs : List (Option γ)} {st : List Branch} (h : Tracks holds gs st)
    {d : Directive γ} {depth : Nat} (hd : nests st.length d = some depth) :
    Tracks holds (remember gs d) (Conditionals.step holds st d) := by
  cases d with
  | opens c =>
    -- inside a dropped branch nothing is read, whatever the condition says
    refine h.known ?_
    cases active st with
    | true => simp
    | false => simp
  | elif c =>
    cases st with
    | nil => cases hd
    | cons b rest => exact h.tail.turned
  | els =>
    cases st with
    | nil => cases hd
    | cons b rest => exact h.tail.turned
  | endif => exact h.tail
  | plain => exact h

/-- The two go on side by side. -/
theorem Tracks.run {dir : ι → Directive γ} {pre post : List ι} {gs : List (Option γ)}
    {st : List Branch} (h : Tracks holds gs st)
    (hnested : nested dir st.length (pre ++ post) = true) :
    Tracks holds (knownAfter dir gs pre) (groupsAfter holds dir st pre) := by
  induction pre generalizing gs st with
  | nil => exact h
  | cons l pre ih =>
    rw [List.cons_append] at hnested
    unfold nested at hnested
    split at hnested
    · next depth hd =>
      apply ih (h.step hd)
      rw [step_length holds hd]
      exact hnested
    · cases hnested

theorem active_cons (b : Branch) (st : List Branch) :
    active (b :: st) = true ↔ b.live = true ∧ active st = true := by
  unfold active
  rw [List.all_cons, Bool.and_eq_true]

theorem Tracks.holds_of_active {gs : List (Option γ)} {st : List Branch} (h : Tracks holds gs st)
    (hactive : active st = true) {c : γ} (hc : some c ∈ gs) : holds c = true := by
  induction h with
  | nil => cases hc
  | known h hlive ih =>
    rw [active_cons] at hactive
    rcases List.mem_cons.mp hc with hnew | hold
    · -- the innermost group is read, so its own condition holds
      cases hnew
      have hboth := hlive.symm.trans hactive.1
      rw [Bool.and_eq_true] at hboth
      exact hboth.1
    · exact ih hactive.2 hold
  | turned h ih =>
    rw [active_cons] at hactive
    rcases List.mem_cons.mp hc with hnew | hold
    · cases hnew
    · exact ih hactive.2 hold

theorem Tracks.active_of_holds {gs : List (Option γ)} {st : List Branch} (h : Tracks holds gs st)
    (hknown : none ∉ gs) (hall : ∀ c, some c ∈ gs → holds c = true) : active st = true := by
  induction h with
  | nil => rfl
  | @known gs st c b h hlive ih =>
    -- from the outermost group to the innermost
    have hrest : active st = true := by
      apply ih
      · exact fun hmem => hknown (List.mem_cons_of_mem _ hmem)
      · exact fun c' hc' => hall c' (List.mem_cons_of_mem _ hc')
    rw [active_cons, hlive, hall c List.mem_cons_self, hrest]
    exact ⟨rfl, rfl⟩
  | turned h ih =>
    -- nothing has been forgotten
    exact absurd List.mem_cons_self hknown

/-- At every place of nested lines, the tracker is beside the groups. -/
theorem tracks_at {dir : ι → Directive γ} {ls : List ι} (hnested : nested dir 0 ls = true)
    {p : Place ι} (hp : p ∈ places ls) :
    Tracks holds (knownAfter dir [] p.before) (groupsAfter holds dir [] p.before) := by
  obtain ⟨post, hls⟩ := mem_places.mp hp
  rw [hls] at hnested
  exact Tracks.nil.run hnested

/-- **Soundness of the tracker**: at a place that is kept, every condition that is noted
    for an open group holds. -/
theorem remember_sound {dir : ι → Directive γ} {ls : List ι} (hnested : nested dir 0 ls = true)
    {p : Place ι} (hp : p ∈ places ls)
    (hactive : active (groupsAfter holds dir [] p.before) = true) {c : γ}
    (hc : some c ∈ knownAfter dir [] p.before) : holds c = true :=
  (tracks_at hnested hp).holds_of_active hactive hc

/-- **Completeness of the tracker**: where nothing has been forgotten and every condition
    holds, the groups are all being read. -/
theorem remember_complete {dir : ι → Directive γ} {ls : List ι} (hnested : nested dir 0 ls = true)
    {p : Place ι} (hp : p ∈ places ls) (hknown : none ∉ knownAfter dir [] p.before)
    (hall : ∀ c, some c ∈ knownAfter dir [] p.before → holds c = true) :
    active (groupsAfter holds dir [] p.before) = true :=
  (tracks_at hnested hp).active_of_holds hknown hall

end tracker

end Conditionals
