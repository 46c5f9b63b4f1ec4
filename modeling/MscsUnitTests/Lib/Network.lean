import Mathlib.Algebra.Order.Group.Multiset
import Mathlib.Logic.Function.Basic
import MscsUnitTests.Lib.Transitions

/-! # Parties and Messages in Flight

    Some parties post messages to each other, on an event of their own or in answer to a
    message. What is in flight arrives in any order; it can get lost, and it can be doubled.

    * `step`: one event, or one thing that happens to a message in flight.
    * `views`: what every handler keeps of the view of one party (its state, the events it
      has seen, what it has posted and what has reached it), every run keeps.
    * `conserved`: what is posted or doubled is in flight, delivered or lost.
    * `posted_of_delivered`, `delivered_le_posted`, `posted_le_delivered`: what arrives was
      posted, at most once where nothing is doubled, and at least once where nothing is lost.
-/

open Transitions

namespace Network

/-! ## Section 1: States and steps -/

section network
variable {ν ε σ μ : Type*}

/-- What each party starts with, and what it makes of an event and of a message: its next
    state, and what it posts. -/
structure Protocol (ν ε σ μ : Type*) where
  start : ν → σ
  event : ν → ε → σ → σ × List μ
  receive : ν → μ → σ → σ × List μ
  dest : μ → ν

/-- The parties and the messages in flight, with what has happened so far: the events, and
    what was posted, each with its party, and what has become of the messages. -/
structure State (ν ε σ μ : Type*) where
  nodes : ν → σ
  flight : List μ
  seen : List (ν × ε)
  posted : List (ν × μ)
  delivered : List μ
  lost : List μ
  doubled : List μ

inductive Action (ν ε : Type*) where
  | event (v : ν) (e : ε)
  | deliver (k : Nat)
  | lose (k : Nat)
  | double (k : Nat)
  deriving DecidableEq

variable [DecidableEq ν]

def Protocol.init (P : Protocol ν ε σ μ) : State ν ε σ μ := ⟨P.start, [], [], [], [], [], []⟩

/-- A party goes over to a state and posts some messages. -/
def State.answer (s : State ν ε σ μ) (v : ν) (out : σ × List μ) : State ν ε σ μ :=
  { s with
    nodes := Function.update s.nodes v out.1
    flight := s.flight ++ out.2
    posted := s.posted ++ out.2.map fun m => (v, m) }

/-- A message is no longer in flight. -/
def State.land (s : State ν ε σ μ) (k : Nat) : State ν ε σ μ :=
  { s with flight := s.flight.eraseIdx k }

def step (P : Protocol ν ε σ μ) (s : State ν ε σ μ) : Action ν ε → Option (State ν ε σ μ)
  | .event v e => some
      { s.answer v (P.event v e (s.nodes v)) with seen := s.seen ++ [(v, e)] }
  | .deliver k => s.flight[k]?.map fun m =>
      { (s.land k).answer (P.dest m) (P.receive (P.dest m) m (s.nodes (P.dest m))) with
        delivered := s.delivered ++ [m] }
  | .lose k => s.flight[k]?.map fun m => { s.land k with lost := s.lost ++ [m] }
  | .double k => s.flight[k]?.map fun m =>
      { s with flight := s.flight ++ [m], doubled := s.doubled ++ [m] }

/-! ## Section 2: The view of one party -/

/-- What a history has of one party. -/
def ofParty {β : Type*} (v : ν) (l : List (ν × β)) : List β :=
  (l.filter fun p => p.1 = v).map Prod.snd

/-- The events a party has seen. -/
def State.seenBy (s : State ν ε σ μ) (v : ν) : List ε := ofParty v s.seen

/-- What a party has posted. -/
def State.postedBy (s : State ν ε σ μ) (v : ν) : List μ := ofParty v s.posted

/-- What has reached a party. -/
def Protocol.reached (P : Protocol ν ε σ μ) (s : State ν ε σ μ) (v : ν) : List μ :=
  s.delivered.filter fun m => P.dest m = v

theorem ofParty_self {β : Type*} (v : ν) (l : List (ν × β)) (new : List β) :
    ofParty v (l ++ new.map fun m => (v, m)) = ofParty v l ++ new := by
  have hown : ∀ p ∈ new.map (fun m => (v, m)), decide (p.1 = v) = true := by simp
  unfold ofParty
  rw [List.filter_append, List.filter_eq_self.mpr hown, List.map_append, List.map_map]
  exact congrArg _ (List.map_id new)

theorem ofParty_ne {β : Type*} {v w : ν} (hne : w ≠ v) (l : List (ν × β)) (new : List β) :
    ofParty w (l ++ new.map fun m => (v, m)) = ofParty w l := by
  have hother : ∀ p ∈ new.map (fun m => (v, m)), ¬ decide (p.1 = w) = true := by
    simp [hne.symm]
  unfold ofParty
  rw [List.filter_append, List.filter_eq_nil_iff.mpr hother, List.append_nil]

theorem mem_ofParty {β : Type*} {v : ν} {l : List (ν × β)} {m : β} :
    m ∈ ofParty v l ↔ (v, m) ∈ l := by
  unfold ofParty
  rw [List.mem_map]
  constructor
  · rintro ⟨⟨w, m'⟩, hmem, rfl⟩
    obtain ⟨hl, hw⟩ := List.mem_filter.mp hmem
    rw [decide_eq_true_iff] at hw
    subst hw
    exact hl
  · intro h
    exact ⟨(v, m), List.mem_filter.mpr ⟨h, decide_eq_true rfl⟩, rfl⟩

/-- What all handlers keep of the view of the party they are called for. -/
structure KeptByHandlers (P : Protocol ν ε σ μ) (H : ν → σ → List ε → List μ → List μ → Prop) :
    Prop where
  event : ∀ v e st seen out reached, H v st seen out reached →
    H v (P.event v e st).1 (seen ++ [e]) (out ++ (P.event v e st).2) reached
  receive : ∀ v m st seen out reached, H v st seen out reached →
    H v (P.receive v m st).1 seen (out ++ (P.receive v m st).2) (reached ++ [m])

/-- It also holds in the beginning. -/
structure KeptByAll (P : Protocol ν ε σ μ) (H : ν → σ → List ε → List μ → List μ → Prop) : Prop
    extends KeptByHandlers P H where
  start : ∀ v, H v (P.start v) [] [] []

variable {P : Protocol ν ε σ μ}

/-- The other parties are not concerned. -/
theorem views_answer {H : ν → σ → List ε → List μ → List μ → Prop} {s : State ν ε σ μ} {v : ν}
    {out : σ × List μ} {seen seen' : ν → List ε} {reached reached' : ν → List μ}
    (hseen : ∀ w, w ≠ v → seen' w = seen w) (hreached : ∀ w, w ≠ v → reached' w = reached w)
    (hself : H v out.1 (seen' v) (s.postedBy v ++ out.2) (reached' v))
    (h : ∀ w, H w (s.nodes w) (seen w) (s.postedBy w) (reached w)) (w : ν) :
    H w ((s.answer v out).nodes w) (seen' w) ((s.answer v out).postedBy w) (reached' w) := by
  unfold State.postedBy at hself h ⊢
  show H w (Function.update s.nodes v out.1 w) _ (ofParty w (s.posted ++ _)) _
  by_cases hw : w = v
  · subst hw
    rw [ofParty_self, Function.update_self]
    exact hself
  · rw [ofParty_ne hw, hseen w hw, hreached w hw, Function.update_of_ne hw]
    exact h w

theorem views_step {H : ν → σ → List ε → List μ → List μ → Prop} (hkept : KeptByHandlers P H)
    (s : State ν ε σ μ) (a : Action ν ε) (s' : State ν ε σ μ)
    (h : ∀ v, H v (s.nodes v) (s.seenBy v) (s.postedBy v) (P.reached s v))
    (hstep : step P s a = some s') :
    ∀ v, H v (s'.nodes v) (s'.seenBy v) (s'.postedBy v) (P.reached s' v) := by
  cases a with
  | event v e =>
    cases hstep
    refine views_answer ?_ (fun _ _ => rfl) ?_ h
    · intro w hw
      exact ofParty_ne hw s.seen [e]
    · have hseen : ofParty v (s.seen ++ [(v, e)]) = s.seenBy v ++ [e] := ofParty_self v s.seen [e]
      show H v _ (ofParty v (s.seen ++ [(v, e)])) _ _
      rw [hseen]
      exact hkept.event v e _ _ _ _ (h v)
  | deliver k =>
    obtain ⟨m, -, rfl⟩ := Option.map_eq_some_iff.mp hstep
    have hlanded : ∀ v, H v ((s.land k).nodes v) (s.seenBy v) ((s.land k).postedBy v)
        (P.reached s v) := h
    refine views_answer (fun _ _ => rfl) ?_ ?_ hlanded
    · intro w hw
      unfold Protocol.reached
      rw [List.filter_append, List.filter_singleton]
      simp [hw.symm]
    · have hreached : ∀ t : State ν ε σ μ, t.delivered = s.delivered ++ [m] →
          P.reached t (P.dest m) = P.reached s (P.dest m) ++ [m] := by
        intro t ht
        unfold Protocol.reached
        rw [ht, List.filter_append, List.filter_singleton]
        simp
      rw [hreached _ rfl]
      exact hkept.receive (P.dest m) m _ _ _ _ (h (P.dest m))
  | lose k =>
    obtain ⟨m, -, rfl⟩ := Option.map_eq_some_iff.mp hstep
    exact h
  | double k =>
    obtain ⟨m, -, rfl⟩ := Option.map_eq_some_iff.mp hstep
    exact h

/-- **View rule**: what the handlers keep of the view of one party holds of every party, at
    any point of any run. -/
theorem views {H : ν → σ → List ε → List μ → List μ → Prop} (hkept : KeptByAll P H)
    {as : List (Action ν ε)} {s : State ν ε σ μ} (hrun : Run (step P) P.init as s) (v : ν) :
    H v (s.nodes v) (s.seenBy v) (s.postedBy v) (P.reached s v) :=
  hrun.inv (views_step hkept.toKeptByHandlers) hkept.start v

/-- A party has seen the events that are among the actions. -/
theorem mem_seenBy {as : List (Action ν ε)} {s : State ν ε σ μ}
    (hrun : Run (step P) P.init as s) {v : ν} {e : ε} (hmem : .event v e ∈ as) :
    e ∈ s.seenBy v := by
  unfold State.seenBy
  rw [mem_ofParty]
  induction hrun with
  | nil => cases hmem
  | @snoc as a s s' _ hstep ih =>
    rw [List.mem_append, List.mem_singleton] at hmem
    cases a with
    | event w e' =>
      cases hstep
      rcases hmem with hold | hnew
      · exact List.mem_append_left _ (ih hold)
      · cases hnew
        exact List.mem_append_right _ (List.mem_singleton_self _)
    | deliver k =>
      obtain ⟨m, -, rfl⟩ := Option.map_eq_some_iff.mp hstep
      exact ih (by simpa using hmem)
    | lose k =>
      obtain ⟨m, -, rfl⟩ := Option.map_eq_some_iff.mp hstep
      exact ih (by simpa using hmem)
    | double k =>
      obtain ⟨m, -, rfl⟩ := Option.map_eq_some_iff.mp hstep
      exact ih (by simpa using hmem)

/-! ## Section 3: Conservation -/

/-- What was posted or doubled is in flight, delivered or lost. -/
def Conserved (s : State ν ε σ μ) : Prop :=
  (s.posted.map Prod.snd : Multiset μ) + s.doubled = s.flight + (s.delivered + s.lost)

theorem conserved_answer {s : State ν ε σ μ} (h : Conserved s) (v : ν) (out : σ × List μ) :
    Conserved (s.answer v out) := by
  have hposted : (s.answer v out).posted.map Prod.snd = s.posted.map Prod.snd ++ out.2 := by
    show List.map _ (s.posted ++ _) = _
    rw [List.map_append, List.map_map]
    exact congrArg _ (List.map_id out.2)
  unfold Conserved at h ⊢
  rw [hposted]
  show _ + (s.doubled : Multiset μ) = (s.flight ++ out.2 : List μ) + (s.delivered + s.lost)
  rw [← Multiset.coe_add, ← Multiset.coe_add, add_right_comm, h, add_right_comm]

omit [DecidableEq ν] in
/-- A message in flight, and the others. -/
theorem flight_eq {s : State ν ε σ μ} {k : Nat} {m : μ} (h : s.flight[k]? = some m) :
    (s.flight : Multiset μ) = (s.land k).flight + ([m] : List μ) := by
  obtain ⟨hlt, rfl⟩ := List.getElem?_eq_some_iff.mp h
  rw [Multiset.coe_add, Multiset.coe_eq_coe]
  have hperm := (List.getElem_cons_eraseIdx_perm hlt).symm
  exact hperm.trans (List.perm_append_singleton _ _).symm

theorem conserved_step (s : State ν ε σ μ) (a : Action ν ε) (s' : State ν ε σ μ)
    (h : Conserved s) (hstep : step P s a = some s') : Conserved s' := by
  cases a with
  | event v e =>
    cases hstep
    have hanswered : Conserved (s.answer v (P.event v e (s.nodes v))) := conserved_answer h v _
    exact hanswered
  | deliver k =>
    obtain ⟨m, hm, rfl⟩ := Option.map_eq_some_iff.mp hstep
    -- the message lands first, and is answered then
    have hlanded : Conserved { s.land k with delivered := s.delivered ++ [m] } := by
      unfold Conserved at h ⊢
      rw [flight_eq hm] at h
      rw [← Multiset.coe_add s.delivered]
      refine h.trans ?_
      show _ + _ + _ = ((s.land k).flight : Multiset μ) + (_ + _ + (s.lost : Multiset μ))
      rw [add_assoc, add_right_comm, add_comm (([m] : List μ) : Multiset μ)]
    exact conserved_answer hlanded (P.dest m) _
  | lose k =>
    obtain ⟨m, hm, rfl⟩ := Option.map_eq_some_iff.mp hstep
    unfold Conserved at h ⊢
    rw [flight_eq hm] at h
    rw [← Multiset.coe_add s.lost]
    refine h.trans ?_
    show (s.land k).flight + _ + _ = ((s.land k).flight : Multiset μ) + (s.delivered + _)
    rw [add_assoc, add_comm (([m] : List μ) : Multiset μ), add_assoc]
  | double k =>
    obtain ⟨m, -, rfl⟩ := Option.map_eq_some_iff.mp hstep
    unfold Conserved at h ⊢
    rw [← Multiset.coe_add s.doubled, ← Multiset.coe_add s.flight, add_right_comm, ← h]
    exact (add_assoc _ _ _).symm

/-- **Conservation**, at any point of any run. -/
theorem conserved {as : List (Action ν ε)} {s : State ν ε σ μ}
    (hrun : Run (step P) P.init as s) : Conserved s :=
  hrun.inv conserved_step rfl

/-- Only what was posted is doubled, so only what was posted arrives. -/
def Genuine (s : State ν ε σ μ) : Prop := ∀ m ∈ s.doubled, m ∈ s.posted.map Prod.snd

omit [DecidableEq ν] in
theorem mem_posted {s : State ν ε σ μ} (hconserved : Conserved s) (hgenuine : Genuine s) {m : μ}
    (hm : m ∈ s.flight ∨ m ∈ s.delivered) : m ∈ s.posted.map Prod.snd := by
  have hall : m ∈ (s.posted.map Prod.snd : Multiset μ) + s.doubled := by
    rw [hconserved]
    simp only [Multiset.mem_add, Multiset.mem_coe]
    tauto
  rcases Multiset.mem_add.mp hall with h | h
  · exact h
  · exact hgenuine m h

theorem genuine_step (s : State ν ε σ μ) (a : Action ν ε) (s' : State ν ε σ μ)
    (h : Conserved s ∧ Genuine s) (hstep : step P s a = some s') : Conserved s' ∧ Genuine s' := by
  refine ⟨conserved_step s a s' h.1 hstep, ?_⟩
  have hanswer : ∀ v (out : σ × List μ), ∀ m ∈ s.doubled,
      m ∈ (s.posted ++ out.2.map fun m => (v, m)).map Prod.snd := by
    intro v out m hm
    rw [List.map_append]
    exact List.mem_append_left _ (h.2 m hm)
  cases a with
  | event v e =>
    cases hstep
    exact hanswer v _
  | deliver k =>
    obtain ⟨m, -, rfl⟩ := Option.map_eq_some_iff.mp hstep
    exact hanswer (P.dest m) _
  | lose k =>
    obtain ⟨m, -, rfl⟩ := Option.map_eq_some_iff.mp hstep
    exact h.2
  | double k =>
    obtain ⟨m, hm, rfl⟩ := Option.map_eq_some_iff.mp hstep
    intro m' hm'
    rcases List.mem_append.mp hm' with hold | hnew
    · exact h.2 m' hold
    · rw [List.mem_singleton.mp hnew]
      exact mem_posted h.1 h.2 (.inl (List.mem_of_getElem? hm))

/-- **What arrives was posted**, by one of the parties. -/
theorem posted_of_delivered {as : List (Action ν ε)} {s : State ν ε σ μ}
    (hrun : Run (step P) P.init as s) {m : μ} (hm : m ∈ s.delivered) : ∃ v, m ∈ s.postedBy v := by
  obtain ⟨hconserved, hgenuine⟩ := hrun.inv genuine_step ⟨rfl, by simp [Genuine, Protocol.init]⟩
  obtain ⟨⟨v, m'⟩, hmem, rfl⟩ := List.mem_map.mp (mem_posted hconserved hgenuine (.inr hm))
  exact ⟨v, mem_ofParty.mpr hmem⟩

/-- Whether an action doubles a message. -/
def Action.doubles : Action ν ε → Bool
  | .double _ => true
  | _ => false

/-- Whether an action loses a message. -/
def Action.loses : Action ν ε → Bool
  | .lose _ => true
  | _ => false

theorem doubled_eq_nil {as : List (Action ν ε)} {s : State ν ε σ μ}
    (hrun : Run (step P) P.init as s) (honce : ∀ a ∈ as, a.doubles = false) : s.doubled = [] := by
  refine hrun.inv_on (A := fun a => a.doubles = false) (I := fun s => s.doubled = []) ?_ honce rfl
  intro s a s' ha hnil hstep
  cases a with
  | event v e =>
    cases hstep
    exact hnil
  | deliver k =>
    obtain ⟨m, -, rfl⟩ := Option.map_eq_some_iff.mp hstep
    exact hnil
  | lose k =>
    obtain ⟨m, -, rfl⟩ := Option.map_eq_some_iff.mp hstep
    exact hnil
  | double k => cases ha

theorem lost_eq_nil {as : List (Action ν ε)} {s : State ν ε σ μ}
    (hrun : Run (step P) P.init as s) (hkept : ∀ a ∈ as, a.loses = false) : s.lost = [] := by
  refine hrun.inv_on (A := fun a => a.loses = false) (I := fun s => s.lost = []) ?_ hkept rfl
  intro s a s' ha hnil hstep
  cases a with
  | event v e =>
    cases hstep
    exact hnil
  | deliver k =>
    obtain ⟨m, -, rfl⟩ := Option.map_eq_some_iff.mp hstep
    exact hnil
  | lose k => cases ha
  | double k =>
    obtain ⟨m, -, rfl⟩ := Option.map_eq_some_iff.mp hstep
    exact hnil

/-- Where no party posts twice, no two messages are of one party. -/
theorem nodup_posters {s : State ν ε σ μ} (hone : ∀ v, (s.postedBy v).length ≤ 1) :
    (s.posted.map Prod.fst).Nodup := by
  rw [List.nodup_iff_count_le_one]
  intro v
  have hcount : (s.posted.map Prod.fst).count v = (s.postedBy v).length := by
    unfold State.postedBy ofParty
    rw [List.length_map, List.count_eq_countP, List.countP_map, List.countP_eq_length_filter]
    rfl
  rw [hcount]
  exact hone v

/-- **At most once**: where nothing is doubled, what arrives is a part of what was posted. -/
theorem delivered_le_posted {as : List (Action ν ε)} {s : State ν ε σ μ}
    (hrun : Run (step P) P.init as s) (honce : ∀ a ∈ as, a.doubles = false) :
    (s.delivered : Multiset μ) ≤ s.posted.map Prod.snd := by
  have hconserved : _ = _ := conserved hrun
  rw [doubled_eq_nil hrun honce, Multiset.coe_nil, add_zero] at hconserved
  rw [hconserved, ← add_assoc, add_right_comm]
  exact Multiset.le_add_left _ _

/-- **At least once**: where nothing is lost, all that was posted has arrived once nothing is
    in flight. -/
theorem posted_le_delivered {as : List (Action ν ε)} {s : State ν ε σ μ}
    (hrun : Run (step P) P.init as s) (hkept : ∀ a ∈ as, a.loses = false) (hquiet : s.flight = []) :
    (s.posted.map Prod.snd : Multiset μ) ≤ s.delivered := by
  have hconserved : _ = _ := conserved hrun
  rw [lost_eq_nil hrun hkept, hquiet, Multiset.coe_nil, add_zero, zero_add] at hconserved
  rw [← hconserved]
  exact Multiset.le_add_right _ _

theorem delivered_of_posted {as : List (Action ν ε)} {s : State ν ε σ μ}
    (hrun : Run (step P) P.init as s) (hkept : ∀ a ∈ as, a.loses = false) (hquiet : s.flight = [])
    {v : ν} {m : μ} (hm : m ∈ s.postedBy v) : m ∈ s.delivered := by
  have hposted : m ∈ s.posted.map Prod.snd :=
    List.mem_map_of_mem (f := Prod.snd) (mem_ofParty.mp hm)
  exact Multiset.mem_of_le (posted_le_delivered hrun hkept hquiet) hposted

end network

end Network
