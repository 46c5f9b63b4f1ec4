import MscsUnitTests.Lib.SharedStream

/-! # The Relay: Two Senders on One Socket

    In `p2p_authrelay.cpp` the thread `RelayC2S` forwards what the client sends, a `SendAll`
    for each `recv`, and `InjectAsClient` puts one frame on the same socket. Both hold
    `g_csToServer` around their `SendAll`.

    * `sendAll_turn`: what `SendAll` does, for any answers of `send`, is a turn.
    * `relay_wire`: what the server can have received, at any point of any interleaving.
    * `finished_iff`: what it can have received in the end, exactly.
    * `whole_iff_under_lock`: without the lock, the frame can cut what the client sent.
-/

open SharedStream Transitions

namespace AuthRelay

/-! ## Section 1: The senders -/

/-- `SendAll`: the pieces that were taken, and what the function returns, given what each
    `send` answers. Nothing, while it waits for an answer. -/
def sendAll : List Int → List UInt8 → Option (List Nat × Bool)
  | _, [] => some ([], true)
  | [], _ :: _ => none
  | w :: answers, b :: p =>
    if w ≤ 0 then some ([], false)
    else
      (sendAll answers ((b :: p).drop w.toNat)).map fun (taken, ok) => (w.toNat :: taken, ok)

/-- The relay, with what each `recv` of `RelayC2S` will give and the image that
    `InjectAsClient` will write. -/
def relay (chunks : List (List UInt8)) (image : List UInt8) : State UInt8 :=
  start [chunks, [image]]

/-- `RelayC2S` has forwarded everything. -/
def Forwarded (s : State UInt8) : Prop := s.writers[0]? = some ⟨[], .idle⟩

/-- `InjectAsClient` has returned true. -/
def Injected (s : State UInt8) : Prop := s.writers[1]? = some ⟨[], .idle⟩

/-- `SendAll` returns true when nothing is left, and false while something is. -/
theorem sendAll_spec {answers : List Int} {p : List UInt8} {taken : List Nat} {ok : Bool}
    (h : sendAll answers p = some (taken, ok)) :
    (∀ n ∈ taken, 1 ≤ n) ∧ (if ok = true then p.length ≤ taken.sum else taken.sum < p.length) := by
  fun_induction sendAll answers p generalizing taken ok with
  | case1 =>
    cases h
    simp
  | case2 => cases h
  | case3 =>
    cases h
    simp
  | case4 w answers b p hw ih =>
    obtain ⟨⟨rest, ok'⟩, hrest, hpair⟩ := Option.map_eq_some_iff.mp h
    cases hpair
    obtain ⟨hpos, hlength⟩ := ih hrest
    rw [List.length_drop] at hlength
    refine ⟨?_, ?_⟩
    · rw [List.forall_mem_cons]
      exact ⟨by omega, hpos⟩
    · rw [List.sum_cons]
      split
      · next hok =>
        rw [if_pos hok] at hlength
        omega
      · next hok =>
        rw [if_neg hok] at hlength
        omega

/-- **`SendAll` is a turn**: for any answers of `send`, none above what it was asked to take,
    the pieces are handed over one by one and the lock is given back. -/
theorem sendAll_turn {s : State UInt8} {i : Nat} {m : List UInt8} {ms : List (List UInt8)}
    (hi : s.writers[i]? = some ⟨m :: ms, .idle⟩) (hfree : s.lock = none) {answers : List Int}
    {taken : List Nat} {ok : Bool} (h : sendAll answers m = some (taken, ok))
    (hle : taken.sum ≤ m.length) :
    Run (step true) s (.enter i :: (taken.map (Action.send i) ++ [if ok then .leave i else .fail i]))
      ⟨s.wire ++ tag i (m.take taken.sum), none,
        s.writers.set i ⟨ms, if ok then .idle else .cut (m.drop taken.sum)⟩,
        s.log ++ [(i, m.take taken.sum)]⟩ := by
  obtain ⟨hpos, hlength⟩ := sendAll_spec h
  cases ok with
  | true =>
    rw [if_pos rfl] at hlength
    have hsum : taken.sum = m.length := Nat.le_antisymm hle hlength
    rw [hsum, List.take_length]
    exact turn_run hi hfree hpos hsum
  | false =>
    rw [if_neg Bool.false_ne_true] at hlength
    exact cut_run hi hfree hpos hlength

/-! ## Section 2: What the server receives -/

/-- What `RelayC2S` forwarded, with the image inside it. -/
structure Received (chunks : List (List UInt8)) (image : List UInt8) (s : State UInt8)
    (before injected after : List UInt8) : Prop where
  wire : s.wire = tag 0 before ++ tag 1 injected ++ tag 0 after
  forwarded : before ++ after <+: chunks.flatten
  /-- What comes after the image begins where a `recv` began. -/
  boundary : after ≠ [] → ∃ k, before = (chunks.take k).flatten
  part : injected <+: image
  all : Forwarded s → before ++ after = chunks.flatten
  whole : Injected s → injected = image

section received
variable {chunks : List (List UInt8)} {image : List UInt8} {s : State UInt8}

/-- Two senders, and what each has done. -/
theorem senders (h : Inv [chunks, [image]] s) :
    ∃ forwarder injector, s.writers[0]? = some forwarder ∧ s.writers[1]? = some injector ∧
      Account (turns 0 s.log) forwarder chunks ∧ Account (turns 1 s.log) injector [image] := by
  have hsize : s.writers.length = 2 := h.size
  obtain ⟨forwarder, hforwarder⟩ : ∃ w, s.writers[0]? = some w :=
    ⟨_, List.getElem?_eq_getElem (by omega)⟩
  obtain ⟨injector, hinjector⟩ : ∃ w, s.writers[1]? = some w :=
    ⟨_, List.getElem?_eq_getElem (by omega)⟩
  obtain ⟨m₀, hm₀, haccount₀⟩ := h.account 0 _ hforwarder
  obtain ⟨m₁, hm₁, haccount₁⟩ := h.account 1 _ hinjector
  cases hm₀
  cases hm₁
  exact ⟨forwarder, injector, hforwarder, hinjector, haccount₀, haccount₁⟩

/-- The image is written in one turn. -/
theorem turns_injector {done : List (List UInt8)} {w : Writer UInt8}
    (h : Account done w [image]) : done = [] ∨ ∃ m, done = [m] ∧ w.phase.sent = [] := by
  obtain ⟨todo, phase⟩ := w
  cases phase with
  | idle =>
    simp only [Account] at h
    rcases List.append_eq_singleton_iff.mp h with ⟨hnone, _⟩ | ⟨hone, _⟩
    · exact Or.inl hnone
    · exact Or.inr ⟨image, hone, rfl⟩
  | sending sent rest =>
    simp only [Account] at h
    rcases List.append_eq_singleton_iff.mp h with ⟨hnone, _⟩ | ⟨_, habsurd⟩
    · exact Or.inl hnone
    · cases habsurd
  | cut rest =>
    obtain ⟨front, sent, rfl, hfront⟩ := h
    rcases List.append_eq_singleton_iff.mp hfront with ⟨rfl, _⟩ | ⟨_, habsurd⟩
    · exact Or.inr ⟨sent, rfl, rfl⟩
    · cases habsurd

/-- At most one of the two is in its turn. -/
theorem current_cases (h : Inv [chunks, [image]] s) {forwarder injector : Writer UInt8}
    (hforwarder : s.writers[0]? = some forwarder) (hinjector : s.writers[1]? = some injector) :
    (s.current = tag 0 forwarder.phase.sent ∧ injector.phase.sent = []) ∨
      (s.current = tag 1 injector.phase.sent ∧ forwarder.phase.sent = []) := by
  have hlock₀ := h.lock 0 _ hforwarder
  have hlock₁ := h.lock 1 _ hinjector
  by_cases hone : s.lock = some 1
  · refine Or.inr ⟨by simp [State.current, hone, hinjector], Phase.sent_of_not_sending ?_⟩
    rw [ne_eq, hlock₀, hone]
    decide
  · refine Or.inl ⟨?_, Phase.sent_of_not_sending (by rwa [ne_eq, hlock₁])⟩
    by_cases hzero : s.lock = some 0
    · simp [State.current, hzero, hforwarder]
    · have hidle : forwarder.phase.sent = [] := Phase.sent_of_not_sending (by rwa [ne_eq, hlock₀])
      have hfree : s.lock = none := by
        rw [Option.eq_none_iff_forall_ne_some]
        intro i hi
        have hlt : i < 2 := Nat.lt_of_lt_of_eq (h.holder i hi) h.size
        have hne₀ : i ≠ 0 := fun hi₀ => hzero (hi₀ ▸ hi)
        have hne₁ : i ≠ 1 := fun hi₁ => hone (hi₁ ▸ hi)
        omega
      rw [current_of_free hfree, hidle]
      rfl

/-- Without a turn of the injector, all is the client's. -/
theorem onStream_forwarder {log : List (Nat × List UInt8)} (hlog : ∀ t ∈ log, t.1 < 2)
    (hnone : turns 1 log = []) : onStream log = tag 0 (turns 0 log).flatten := by
  refine onStream_of_all ?_
  intro t ht
  have hne : t.1 ≠ 1 := by
    intro heq
    have hmem : t.2 ∈ turns 1 log := List.mem_map_of_mem (by simp [List.mem_filter, ht, heq])
    rw [hnone] at hmem
    cases hmem
  have hlt := hlog t ht
  omega

/-- The forwarder with nothing left has put everything on the stream. -/
theorem all_of_forwarded {done : List (List UInt8)} {w : Writer UInt8} (h : Account done w chunks)
    (hw : w = ⟨[], .idle⟩) : done.flatten ++ w.phase.sent = chunks.flatten := by
  subst hw
  simp only [Account, List.append_nil] at h
  simp [h, Phase.sent]

theorem received (h : Inv [chunks, [image]] s) :
    ∃ before injected after, Received chunks image s before injected after := by
  obtain ⟨forwarder, injector, hforwarder, hinjector, haccount₀, haccount₁⟩ := senders h
  have hwire : s.wire = onStream s.log ++ s.current := h.wire
  have hlog : ∀ t ∈ s.log, t.1 < 2 := fun t ht =>
    Nat.lt_of_lt_of_eq (h.logged t ht) h.size
  have hall : Forwarded s → (turns 0 s.log).flatten ++ forwarder.phase.sent = chunks.flatten := by
    intro hfwd
    exact all_of_forwarded haccount₀ (Option.some.inj (hforwarder.symm.trans hfwd))
  have hwhole : Injected s → (turns 1 s.log).flatten ++ injector.phase.sent = image := by
    intro hinj
    have hflatten := all_of_forwarded haccount₁ (Option.some.inj (hinjector.symm.trans hinj))
    simpa using hflatten
  have hpart := haccount₁.sent_prefix
  rw [List.flatten_singleton] at hpart
  have hcurrent := current_cases h hforwarder hinjector
  rcases turns_injector haccount₁ with hnone | ⟨m, hone, hsent⟩
  · -- the injector has not had its turn, or is in it
    rw [hnone, List.flatten_nil, List.nil_append] at hpart hwhole
    refine ⟨(turns 0 s.log).flatten ++ forwarder.phase.sent, injector.phase.sent, [], ?_⟩
    refine ⟨?_, ?_, fun hne => absurd rfl hne, hpart, ?_, hwhole⟩
    · rw [hwire, onStream_forwarder hlog hnone]
      rcases hcurrent with ⟨hcur, hidle⟩ | ⟨hcur, hidle⟩
      · rw [hcur, hidle]
        simp [tag]
      · rw [hcur, hidle]
        simp [tag]
    · rw [List.append_nil]
      exact haccount₀.sent_prefix
    · rw [List.append_nil]
      exact hall
  · -- the injector has had its turn, and the forwarder went on
    obtain ⟨l₁, l₂, hsplit, hfront, hback⟩ :=
      log_of_turns (show turns 1 s.log = [] ++ [m] from hone)
    rw [hone, hsent, List.flatten_singleton, List.append_nil] at hpart hwhole
    have hlog₁ : ∀ t ∈ l₁, t.1 < 2 := fun t ht => hlog t (by simp [hsplit, ht])
    have hlog₂ : ∀ t ∈ l₂, t.1 < 2 := fun t ht => hlog t (by simp [hsplit, ht])
    have hturns : turns 0 s.log = turns 0 l₁ ++ turns 0 l₂ := by
      rw [hsplit]
      simp [turns]
    rw [hturns, List.flatten_append, List.append_assoc] at hall
    refine ⟨(turns 0 l₁).flatten, m, (turns 0 l₂).flatten ++ forwarder.phase.sent, ?_⟩
    refine ⟨?_, ?_, ?_, hpart, hall, hwhole⟩
    · rw [hwire, hsplit]
      have hcur : s.current = tag 0 forwarder.phase.sent := by
        rcases hcurrent with ⟨hcur, _⟩ | ⟨hcur, hidle⟩
        · exact hcur
        · rw [hcur, hidle, hsent]
          rfl
      have hcons : onStream ((1, m) :: l₂) = tag 1 m ++ onStream l₂ := List.flatMap_cons
      rw [hcur, onStream_append, hcons, onStream_forwarder hlog₁ hfront,
        onStream_forwarder hlog₂ hback]
      simp
    · have hprefix := haccount₀.sent_prefix
      rwa [hturns, List.flatten_append, List.append_assoc] at hprefix
    · intro hafter
      have hfirst := haccount₀.whole hturns hafter
      exact ⟨_, congrArg List.flatten (List.prefix_iff_eq_take.mp hfirst)⟩

/-- **At any point of any interleaving** of the two senders, whatever `send` and `recv`
    answered: what the server can have received is what the client sent, in order and
    without a gap, with the image, or a first part of it, in one piece inside. What comes
    after the image begins where a `recv` began. -/
theorem relay_wire {as : List Action} (hrun : Run (step true) (relay chunks image) as s) :
    ∃ before injected after, Received chunks image s before injected after :=
  received (run_inv hrun)

/-- Two `recv`s, the first one taken byte by byte, the image, and the second `recv` under way. -/
def twoChunks : List Action :=
  [.enter 0, .send 0 1, .send 0 1, .leave 0, .enter 1, .send 1 3, .leave 1, .enter 0, .send 0 1]

theorem relay_wire_two_chunks :
    ∃ before injected after, Received [[1, 2], [3, 4]] [7, 8, 9]
      ⟨[(0, 1), (0, 2), (1, 7), (1, 8), (1, 9), (0, 3)], some 0,
        [⟨[], .sending [3] [4]⟩, ⟨[], .idle⟩], [(0, [1, 2]), (1, [7, 8, 9])]⟩
      before injected after :=
  relay_wire (run_of_exec (show exec (step true) _ twoChunks = _ from rfl))

/-- Both senders are through: the image stands between two of the `recv`s. -/
theorem finished_wire {as : List Action} (hrun : Run (step true) (relay chunks image) as s)
    (hforwarded : Forwarded s) (hinjected : Injected s) :
    ∃ k, s.wire = tag 0 (chunks.take k).flatten ++ tag 1 image ++ tag 0 (chunks.drop k).flatten := by
  obtain ⟨before, injected, after, hreceived⟩ := received (run_inv hrun)
  have hall := hreceived.all hforwarded
  rw [hreceived.wire, hreceived.whole hinjected]
  by_cases hafter : after = []
  · refine ⟨chunks.length, ?_⟩
    rw [hafter, List.append_nil] at hall
    simp [hafter, hall]
  · obtain ⟨k, hk⟩ := hreceived.boundary hafter
    refine ⟨k, ?_⟩
    have hrest : after = (chunks.drop k).flatten := by
      rw [hk, ← List.take_append_drop k chunks, List.flatten_append] at hall
      simpa using hall
    rw [hk, hrest]

/-- **What the server can have received in the end**, when both senders are through: the
    image stands between two of the `recv`s, any two of them, and nowhere else. -/
theorem finished_iff (chunks : List (List UInt8)) (image : List UInt8)
    (wire : List (Nat × UInt8)) :
    (∃ as s, Run (step true) (relay chunks image) as s ∧ Forwarded s ∧ Injected s ∧
      s.wire = wire) ↔
      ∃ k, wire = tag 0 (chunks.take k).flatten ++ tag 1 image ++ tag 0 (chunks.drop k).flatten := by
  constructor
  · rintro ⟨as, s, hrun, hforwarded, hinjected, rfl⟩
    exact finished_wire hrun hforwarded hinjected
  · rintro ⟨k, rfl⟩
    -- the first `k` are forwarded, then the image is written, then the others are forwarded
    obtain ⟨as₁, hrun₁⟩ := turns_run 0 (chunks.take k) (chunks.drop k) (s := relay chunks image)
      (by simp [relay, start]) rfl
    obtain ⟨as₂, hrun₂⟩ := turns_run 1 [image] []
      (s := ⟨_, none, (relay chunks image).writers.set 0 ⟨chunks.drop k, .idle⟩, _⟩)
      (by simp [relay, start]) rfl
    obtain ⟨as₃, hrun₃⟩ := turns_run 0 (chunks.drop k) []
      (s := ⟨_, none, ((relay chunks image).writers.set 0 ⟨chunks.drop k, .idle⟩).set 1
        ⟨[], .idle⟩, _⟩)
      (by simp [relay, start]) rfl
    refine ⟨_, _, (hrun₁.trans hrun₂).trans hrun₃, ?_, ?_, ?_⟩
    · simp [Forwarded, relay, start]
    · simp [Injected, relay, start]
    · simp [relay, start]

/-- **The lock is needed**: without it the image can stand inside what one `recv` gave. -/
theorem whole_iff_under_lock (underLock : Bool) :
    (∀ (chunks : List (List UInt8)) (image : List UInt8) (as : List Action) (s : State UInt8),
      Run (step underLock) (relay chunks image) as s → Forwarded s → Injected s →
      ∃ k, s.wire = tag 0 (chunks.take k).flatten ++ tag 1 image ++ tag 0 (chunks.drop k).flatten) ↔
      underLock = true := by
  constructor
  · intro h
    cases underLock with
    | true => rfl
    | false =>
      obtain ⟨as, s, hrun, hwire, hwriters⟩ :=
        cut_without_lock [(1 : UInt8)] [7] [2] (by simp) (by simp) (by simp)
      obtain ⟨k, hk⟩ := h [[1, 2]] [7] as s hrun (by simp [Forwarded, hwriters])
        (by simp [Injected, hwriters])
      rw [hwire] at hk
      cases k with
      | zero => simp [tag] at hk
      | succ k => simp [tag] at hk
  · intro hlock chunks image as s hrun hforwarded hinjected
    subst hlock
    exact (finished_wire hrun hforwarded hinjected)

end received

end AuthRelay
