import MscsUnitTests.Lib.Polling

/-! # The Waits of the Connection Tests

    The tests of hubs and connections ask again every 50 or 100 ms until something has happened,
    or until their time is up: a peer has been closed, a client has been served, so many
    messages have been received. Seven functions, all with a `DWORD` for what was waited.

    * `hub_waits`: what they return, and whether they do. A time of `INFINITE`, or one so large
      that the `DWORD` steps over it, is not waited for but for ever.
-/

open Polling

namespace Waits

/-! ## Section 1: What is asked -/

def WSAEWOULDBLOCK : Int := 10035

def ERROR_SHARING_VIOLATION : Int := 32

/-- What `recv` returns, and `WSAGetLastError` behind it. -/
structure Recv where
  r : Int
  nErr : Int

/-- A turn of `WasClosedByPeer`. An error that it does not know is a peer that is gone. -/
def onRecv (a : Recv) : Option Bool :=
  if a.r = 0 then some true
  else if 0 < a.r then some false
  else if a.nErr = WSAEWOULDBLOCK ∨ a.nErr = ERROR_SHARING_VIOLATION then none
  else some true

/-- What `ReadFile` returns and reads, and `GetLastError` behind it. -/
structure Read where
  bRead : Bool
  dwRead : BitVec 32
  nErr : Int

/-- A turn of `WasDroppedByServer`, but for Windows. -/
def onRead (a : Read) : Option Bool :=
  if a.bRead then some (a.dwRead = 0)
  else if a.nErr ≠ ERROR_SHARING_VIOLATION then some true
  else none

/-- A turn that only knows one answer. -/
def whenDone (b : Bool) : Option Bool := if b then some true else none

/-! ## Section 2: The functions -/

/-- `WasClosedByPeer` of `p2p_acceptcap.cpp`, `p2p_listenscope.cpp` and `p2p_ipv6.cpp`. -/
def wasClosedByPeer (bInvalid : Bool) (recv : Nat → Recv) (dwWaitMs : BitVec 32) : Wait 32 :=
  ⟨50, dwWaitMs, fun k => if bInvalid then some true else onRecv (recv k)⟩

/-- `WasDroppedByServer` of `p2p_pipecap.cpp` on Windows, with what `PeekNamedPipe` returns. -/
def wasDroppedByServerWin (bNull : Bool) (peek : Nat → Bool) (dwWaitMs : BitVec 32) : Wait 32 :=
  ⟨50, dwWaitMs, fun k => if bNull then some true else whenDone (!peek k)⟩

/-- `WasDroppedByServer` elsewhere. -/
def wasDroppedByServer (bNull : Bool) (read : Nat → Read) (dwWaitMs : BitVec 32) : Wait 32 :=
  ⟨50, dwWaitMs, fun k => if bNull then some true else onRead (read k)⟩

/-- `WaitServed` of `p2p_dmxcap.cpp`. -/
def waitServed (served : Nat → Bool) (dwWaitMs : BitVec 32) : Wait 32 :=
  ⟨50, dwWaitMs, fun k => whenDone (served k)⟩

/-- `WaitFor` of `p2p_dmxdead.cpp`. -/
def waitFor (fnDone : Nat → Bool) (dwWaitMs : BitVec 32) : Wait 32 :=
  ⟨50, dwWaitMs, fun k => whenDone (fnDone k)⟩

/-- `WaitForRecv` of `p2p_backpressure.cpp`. -/
def waitForRecv (nWant : Int) (g_nRecv : Nat → Int) (dwMs : BitVec 32) : Wait 32 :=
  ⟨100, dwMs, fun k => whenDone (nWant ≤ g_nRecv k)⟩

/-- `WaitForUCastReady` of `p2p_ucastgate.cpp`, with the state of the connection where there is
    one. -/
def waitForUCastReady (hasState : Nat → Option Bool) (dwMillis : BitVec 32) : Wait 32 :=
  ⟨100, dwMillis, fun k => whenDone ((hasState k).getD false)⟩

/-- The waits of the tests. -/
inductive HubWait : Wait 32 → Prop where
  | wasClosedByPeer (bInvalid : Bool) (recv : Nat → Recv) (dwWaitMs : BitVec 32) :
    HubWait (wasClosedByPeer bInvalid recv dwWaitMs)
  | wasDroppedByServerWin (bNull : Bool) (peek : Nat → Bool) (dwWaitMs : BitVec 32) :
    HubWait (wasDroppedByServerWin bNull peek dwWaitMs)
  | wasDroppedByServer (bNull : Bool) (read : Nat → Read) (dwWaitMs : BitVec 32) :
    HubWait (wasDroppedByServer bNull read dwWaitMs)
  | waitServed (served : Nat → Bool) (dwWaitMs : BitVec 32) :
    HubWait (waitServed served dwWaitMs)
  | waitFor (fnDone : Nat → Bool) (dwWaitMs : BitVec 32) : HubWait (waitFor fnDone dwWaitMs)
  | waitForRecv (nWant : Int) (g_nRecv : Nat → Int) (dwMs : BitVec 32) :
    HubWait (waitForRecv nWant g_nRecv dwMs)
  | waitForUCastReady (hasState : Nat → Option Bool) (dwMillis : BitVec 32) :
    HubWait (waitForUCastReady hasState dwMillis)

/-! ## Section 3: What they return -/

variable {p : Wait 32}

theorem step_of_hubWait (h : HubWait p) : p.step = 50 ∨ p.step = 100 := by
  cases h with
  | waitForRecv _ _ _ => exact .inr rfl
  | waitForUCastReady _ _ => exact .inr rfl
  | _ => exact .inl rfl

/-- The largest time that such a wait gives up after. -/
def longest (p : Wait 32) : Nat := if p.step = 50 then 2 ^ 32 - 2 else 2 ^ 32 - 4

theorem reached_iff (h : HubWait p) :
    p.budget.toNat + Nat.gcd p.step.toNat (2 ^ 32) ≤ 2 ^ 32 ↔ p.budget.toNat ≤ longest p := by
  unfold longest
  rcases step_of_hubWait h with hstep | hstep
  · have hgcd : Nat.gcd (50 : BitVec 32).toNat (2 ^ 32) = 2 := by decide
    rw [hstep, hgcd, if_pos rfl]
    omega
  · have hgcd : Nat.gcd (100 : BitVec 32).toNat (2 ^ 32) = 4 := by decide
    rw [hstep, hgcd, if_neg (by decide)]
    omega

/-- **The waits of the tests**, for every time and whatever is answered. Where the `DWORD` does
    not overflow, the first answer to one of the first questions is returned, or `false` when
    there is none. In any case a wait returns exactly when it is answered or its time is not
    beyond the `longest`. -/
theorem hub_waits (h : HubWait p) :
    (p.budget.toNat + p.step.toNat ≤ 2 ^ 32 → ∀ b, p.Returns b ↔
      (∃ k ≤ p.sleeps, p.ask k = some b ∧ ∀ j < k, p.ask j = none) ∨
        (b = false ∧ ∀ k ≤ p.sleeps, p.ask k = none)) ∧
    ((∃ b, p.Returns b) ↔ (∃ k b, p.ask k = some b) ∨ p.budget.toNat ≤ longest p) := by
  refine ⟨?_, ?_⟩
  · intro hfits b
    have hstep : 0 < p.step.toNat := by
      rcases step_of_hubWait h with hstep | hstep
      · rw [hstep]
        decide
      · rw [hstep]
        decide
    exact returns_in_time hstep hfits b
  · rw [ends_iff, reached_iff h]

/-- Twenty messages, ten of them at each turn, and an `INFINITE` that is never answered. -/
theorem hub_waits_twenty :
    (waitForRecv 20 (fun k => 10 * k) 15000).Returns true ∧
      ¬ ∃ b, (waitServed (fun _ => false) (BitVec.ofNat 32 (2 ^ 32 - 1))).Returns b := by
  refine ⟨?_, ?_⟩
  · refine ((hub_waits (.waitForRecv 20 (fun k => 10 * k) 15000)).1 (by decide) true).mpr ?_
    refine .inl ⟨2, by decide, by decide, ?_⟩
    intro j hj
    have hcases : j = 0 ∨ j = 1 := by omega
    rcases hcases with rfl | rfl
    · decide
    · decide
  · rw [(hub_waits (.waitServed _ _)).2]
    rintro (⟨k, b, hask⟩ | hle)
    · cases hask
    · exact absurd hle (by decide)

end Waits
