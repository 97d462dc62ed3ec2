import LklSocks.SocksConnection.LklCalls
import LklSocks.SocksServer.Shutdown

/-!
# LKL while it runs

`init_lkl` reports no failure to `main`, which goes on to serve without a kernel; and the
connections that outlive the server shut down and close their remote sockets after `halt_lkl`. If
`init_lkl` succeeds and no remote socket is open when LKL is halted, the connections use LKL only
while it runs.

## Main definitions

* `Kernel.Running`: LKL runs
* `SocksServer.lklCalls`: the LKL calls that a step of the program issues
* `SocksServer.KeepsLkl`: a step does not take LKL away from a connection

## Main results

* `initLkl_running_iff`: LKL runs after `init_lkl` exactly when each of its calls succeeded
* `SocksServer.unopening_of_halting`: what is left of the connections when LKL is halted
* `SocksServer.lkl_running`: the connections use LKL only while it runs
* `SocksServer.not_running_of_failed`: every failure of `init_lkl` lets a connection use LKL
-/

namespace LklSocks

/-- The calls of `init_lkl`, in its order. -/
def InitStep.all : List InitStep := [netdevAdd, startKernel, netdevGetIfindex, ifSetIpv4, ifUp]

/-- LKL was started, every call of `init_lkl` succeeded, and it was not halted. -/
structure Kernel.Running (k : Kernel) : Prop where
  started : k.started = true
  configured : k.configured = true
  halted : k.halted = false

theorem initLkl_running_iff (ret : InitStep → ℤ) :
    (initLkl ret).Running ↔ ∀ step, 0 ≤ ret step := by
  constructor
  · rintro ⟨-, hconfigured, -⟩ step
    unfold initLkl at hconfigured
    split at hconfigured
    · cases hconfigured
    split at hconfigured
    · cases hconfigured
    split at hconfigured
    · cases hconfigured
    split at hconfigured
    · cases hconfigured
    have hstart := of_decide_eq_true hconfigured
    cases step <;> omega
  · intro h
    have hret (step : InitStep) : ¬ ret step < 0 := not_lt.mpr (h step)
    rw [initLkl, if_neg (hret _), if_neg (hret _), if_neg (hret _), if_neg (hret _)]
    exact ⟨rfl, decide_eq_true (h _), rfl⟩

namespace SocksServer

variable {s t : SocksServer} {a : Action} {c : ℕ}

/-- The LKL calls that a step issues for a connection. -/
def lklCalls (s : SocksServer) : Action → List LklCall
  | .host c out => (s.conn c).lklCalls (.host (s.useCount c) out)
  | .remote c out => (s.conn c).lklCalls (.remote (s.useCount c) out)
  | .destructor c => (s.conn c).lklCalls .destructor
  | _ => []

/-- The step does not take LKL away from a connection: `init_lkl` succeeds, and no remote socket is
open when LKL is halted. -/
def KeepsLkl (s : SocksServer) : Action → Prop
  | .init ret => ∀ step, 0 ≤ ret step
  | .main => s.main = .haltLkl → ∀ c < s.next, (s.conn c).remoteSocket.isOpen = false
  | _ => True

instance decidableKeepsLkl (s : SocksServer) : ∀ a, Decidable (s.KeepsLkl a)
  | .init ret =>
    decidable_of_iff (∀ step ∈ InitStep.all, 0 ≤ ret step)
      ⟨fun h step => h step (by cases step <;> decide), fun h step _ => h step⟩
  | .main => inferInstanceAs (Decidable (_ → _))
  | .alloc _ => inferInstanceAs (Decidable True)
  | .startFails => inferInstanceAs (Decidable True)
  | .accept _ _ => inferInstanceAs (Decidable True)
  | .signal => inferInstanceAs (Decidable True)
  | .host _ _ => inferInstanceAs (Decidable True)
  | .remote _ _ => inferInstanceAs (Decidable True)
  | .destructor _ => inferInstanceAs (Decidable True)

/-- The main thread has halted LKL. -/
def Halted (s : SocksServer) : Prop := s.main = .dropHandlers ∨ s.main = .exited

/-- What a step does to the kernel: it initialises it, halts it, or leaves it as it is. -/
theorem Steps.kernel_cases (hs : s.Steps a t) :
    (∃ ret, a = .init ret ∧ t.main = .construct ∧ t.kernel = initLkl ret) ∨
    (a = .main ∧ s.main = .haltLkl ∧ s.destroying = none ∧
      t = { s with kernel.halted := true, main := .dropHandlers }) ∨
    (t.kernel = s.kernel ∧ (t.main = .initLkl ↔ s.main = .initLkl) ∧ (s.Halted ↔ t.Halted)) := by
  cases hs with
  | server hb hs =>
    cases hs with
    | init hm => exact .inl ⟨_, rfl, rfl, rfl⟩
    | haltLkl hm => exact .inr (.inl ⟨rfl, hm, hb, rfl⟩)
    | finish hm => exact .inr (.inr (by simp [Halted, hm]))
    | dropConnection hm hc => exact .inr (.inr (by simp [Halted, hm]))
    | dropHandler hm hq => exact .inr (.inr (by simp [Halted, hm]))
    | runAccept hm hq => exact .inr (.inr ⟨rfl, by simp [Halted, hm, handleAccept]⟩)
    | remove hm => exact .inr (.inr ⟨rfl, by simp [Halted, hm, SocksServer.remove]⟩)
    | closeAcceptor hm => exact .inr (.inr ⟨rfl, by simp [Halted, hm, SocksServer.closeAcceptor]⟩)
    | _ hm => exact .inr (.inr ⟨rfl, by simp [Halted, hm]⟩)
  | _ => exact .inr (.inr ⟨rfl, Iff.rfl, Iff.rfl⟩)

/-- Nothing is created before `init_lkl`. -/
theorem next_eq_zero (h : machine.Reachable s) (hm : s.main = .initLkl) : s.next = 0 := by
  refine h.invariant (P := fun s => s.main = .initLkl → s.next = 0) ?_ ?_ hm
  · rintro _ ⟨order, rfl⟩ -
    rfl
  · intro s a t _ ih ht hm
    have hs := (step_cases ht).2.2
    rcases hs.kernel_cases with ⟨ret, -, hc, -⟩ | ⟨-, -, -, rfl⟩ | ⟨-, hiff, -⟩
    · cases hm.symm.trans hc
    · cases hm
    · have hm' := hiff.mp hm
      cases hs with
      | server hb hs =>
        cases hs with
        | init hc => cases hm
        | _ hc => cases hm'.symm.trans hc
      | _ => exact ih hm'

/-- A step that issues a call is one of a connection that was created. -/
theorem OwnedBy.pos_of_lklCalls (h : s.OwnedBy) (hs : s.Steps a t) (hc : s.lklCalls a ≠ []) :
    0 < s.next := by
  cases hs with
  | server hb hs => cases hs <;> exact absurd rfl hc
  | host hx => exact Nat.zero_lt_of_lt (h.lt_of_host hx)
  | remote hx => exact Nat.zero_lt_of_lt (h.lt_of_remote hx)
  | destructor hx => exact Nat.zero_lt_of_lt (h.lt_of_destroy hx)

/-- **What is left of the connections when LKL is halted**: a host thread that has still to open its
remote socket has posted no stop handler, so its connection was destroyed with the server. -/
theorem unopening_of_halting (h : machine.Reachable s) (hb : s.destroying = none)
    (hm : s.main = .haltLkl) (hc : (s.conn c).remoteSocket.isOpen = false) :
    (s.conn c).Unopening := by
  refine ⟨hc, fun hp => ?_⟩
  have ho := ownedBy h
  obtain ⟨hover, hcall, hremote⟩ := (SocksConnection.framed (ho.reachable c)).of_opening hp
  have hran : .start c ∈ s.ran := (started h c).ran fun hidle => hover (.inl hidle)
  have hq : .stop c ∉ s.queue := by
    intro hq
    have hposted := (posted_iff h c).mp ((ledger h c).stop_mem_posted (.inl hq))
    simp [SocksConnection.Posted, hcall, hremote, RemotePoint.call, HasPosted] at hposted
  have hstop : ¬ (s.conn c).Stopping := by
    rintro ⟨call, -, hc⟩
    simp [hcall, hremote, RemotePoint.call] at hc
  have hlist := connections_eq_nil h (.inl hm)
  have hfreed := freed_of_dropped h hb (by rw [hm]; rfl) hlist hran hq hstop
  exact hover (hfreed.over (SocksConnection.closing (ho.reachable c))).1

/-- LKL is there for the connections: after `init_lkl` it is configured, and once it is halted no
connection uses it any more. -/
structure LklKept (s : SocksServer) : Prop where
  configured : s.main ≠ .initLkl → s.kernel.started = true ∧ s.kernel.configured = true
  halted : s.kernel.halted = true → s.Halted ∧ ∀ c, (s.conn c).Unopening

/-- After the halt no step opens a remote socket. -/
theorem OwnedBy.unopening (h : s.OwnedBy) (hs : s.Steps a t) (hm : s.Halted)
    (hc : (s.conn c).Unopening) : (t.conn c).Unopening := by
  cases h.connSteps hs c with
  | same he => exact he ▸ hc
  | create hn alloc he =>
    rw [he]
    exact ⟨rfl, id⟩
  | step b hb hx =>
    apply hc.steps (SocksConnection.step_cases hx)
    -- a host thread is created by a start handler, and the loop has ended
    rintro rfl
    cases hb with
    | start hm' => rcases hm with hm | hm <;> cases hm'.symm.trans hm

theorem LklKept.steps (h : s.LklKept) (hr : machine.Reachable s) (hs : s.Steps a t)
    (hok : s.KeepsLkl a) : t.LklKept := by
  rcases hs.kernel_cases with ⟨ret, rfl, hm, hk⟩ | ⟨rfl, hm, hb, rfl⟩ | ⟨hk, hm, hhalted⟩
  · have hrun := (initLkl_running_iff ret).mpr hok
    rw [← hk] at hrun
    exact ⟨fun _ => ⟨hrun.started, hrun.configured⟩, fun hh => by simp [hrun.halted] at hh⟩
  · refine ⟨fun _ => h.configured (by simp [hm]), fun _ => ⟨.inl rfl, fun c => ?_⟩⟩
    have hclosed : (s.conn c).remoteSocket.isOpen = false := by
      by_cases hc : c < s.next
      · exact hok hm c hc
      · obtain ⟨-, hidle, -⟩ := (ownedBy hr).unused c (not_lt.mp hc)
        exact SocksConnection.opensOnce ((ownedBy hr).reachable c) (.inl hidle)
    have hc : (s.conn c).Unopening := unopening_of_halting hr hb hm hclosed
    exact hc
  · refine ⟨fun hne => hk ▸ h.configured fun he => hne (hm.mpr he), fun hh => ?_⟩
    obtain ⟨hmain, hconn⟩ := h.halted (hk ▸ hh)
    exact ⟨hhalted.mp hmain, fun c => (ownedBy hr).unopening hs hmain (hconn c)⟩

/-- **LKL is used only while it runs**: in a run in which `init_lkl` succeeds and no remote socket
is open when LKL is halted, every LKL call of a connection is made between the two. -/
theorem lkl_running (order : ByteOrder) (as : List Action)
    (h : ∀ t a u, machine.Takes (initial order) as t a u → t.KeepsLkl a) :
    ∀ t a u, machine.Takes (initial order) as t a u → t.lklCalls a ≠ [] → t.kernel.Running := by
  intro t a u hT hcall
  have hr : machine.Reachable t := reachable_of_visits hT.visits_left
  have ho := ownedBy hr
  have hs := (step_cases hT.step_eq).2.2
  have hkept : t.LklKept := by
    refine Machine.visits_of_takes (P := LklKept) (r := KeepsLkl) ?_ ?_ h hT.visits_left
    · exact ⟨fun hm => absurd rfl hm, fun hh => by cases hh⟩
    · intro t a u hT ht hok
      exact ht.steps (reachable_of_visits hT.visits_left) (step_cases hT.step_eq).2.2 hok
  have hpos := ho.pos_of_lklCalls hs hcall
  have hm : t.main ≠ .initLkl := fun hm => absurd (next_eq_zero hr hm) hpos.ne'
  obtain ⟨hstarted, hconfigured⟩ := hkept.configured hm
  refine ⟨hstarted, hconfigured, Bool.eq_false_of_not_eq_true fun hhalted => hcall ?_⟩
  obtain ⟨-, hconn⟩ := hkept.halted hhalted
  cases a with
  | host c out => exact (hconn c).lklCalls_eq_nil (.host (t.useCount c) out)
  | remote c out => exact (hconn c).lklCalls_eq_nil (.remote (t.useCount c) out)
  | destructor c => exact (hconn c).lklCalls_eq_nil .destructor
  | _ => rfl

/-- The server of `drainedRun` when the destructor of the connection gets to its remote socket. -/
def closing : SocksServer :=
  (machine.exec (initial .little) (drainedRun.take 18)).getD (initial .little)

/-- The run goes on to the halt, after the remote socket is closed. -/
theorem lkl_running_drainedRun : closing.lklCalls (.destructor 0) = [.shutdown, .close] ∧
    closing.kernel.Running := by
  have hmeets : machine.Meets KeepsLkl (initial .little) (drainedRun ++ [.main, .main]) := by
    decide
  have hT : machine.Takes (initial .little) (drainedRun ++ [.main, .main]) closing (.destructor 0)
      ((closing.step (.destructor 0)).getD closing) :=
    ⟨drainedRun.take 18, ⟨drainedRun.drop 19 ++ [.main, .main], rfl⟩, rfl, rfl⟩
  have hcalls : closing.lklCalls (.destructor 0) = [.shutdown, .close] := rfl
  refine ⟨hcalls, ?_⟩
  exact lkl_running .little _ (fun _ _ _ hT => hmeets.takes hT) _ _ _ hT (by simp [hcalls])

/-- The run of `queuedRun` goes on to the halt, and to the handler that owns the connection. -/
def haltedRun : List Action := queuedRun ++ [.main, .main, .destructor 0]

/-- The destructor closes the remote socket after LKL was halted. -/
theorem not_running_haltedRun : ¬ ∀ t a u, machine.Takes (initial .little) haltedRun t a u →
    t.lklCalls a ≠ [] → t.kernel.Running := fun h =>
  have hrun := h ((machine.exec (initial .little) (queuedRun ++ [.main, .main])).getD
    (initial .little)) (.destructor 0) _
    ⟨queuedRun ++ [.main, .main], List.prefix_rfl, rfl, rfl⟩ (by decide)
  absurd hrun.halted (by decide)

/-- The state after `init_lkl`. -/
def booted (k : Kernel) : SocksServer := { initial .little with kernel := k, main := .construct }

/-- A client sends a request, which is read. -/
def requestRun : List Action :=
  (startRun (SocksConnection.sampleHeader ++ [0])).tail ++
    [.host 0 (.data SocksConnection.sampleHeader), .host 0 (.data [0])]

theorem exists_takes_booted (k : Kernel) :
    ∃ t u, machine.Takes (booted k) (requestRun ++ [.host 0 .ok]) t (.host 0 .ok) u ∧
      t.lklCalls (.host 0 .ok) = [.socket true] ∧ t.kernel = k := by
  obtain ⟨_ | _, _ | _, _ | _⟩ := k <;>
    exact ⟨_, _, ⟨requestRun, List.prefix_rfl, rfl, rfl⟩, rfl, rfl⟩

/-- **A failure of `init_lkl` is not noticed**: whichever call fails, the first request makes a
connection call LKL. -/
theorem not_running_of_failed {ret : InitStep → ℤ} (hret : ¬ ∀ step, 0 ≤ ret step) :
    ¬ ∀ t a u, machine.Takes (initial .little) (.init ret :: (requestRun ++ [.host 0 .ok])) t a u →
      t.lklCalls a ≠ [] → t.kernel.Running := by
  intro h
  obtain ⟨t, u, hT, hcalls, hk⟩ := exists_takes_booted (initLkl ret)
  have hrun := h t (.host 0 .ok) u (Machine.takes_cons.mpr (.inr ⟨_, rfl, hT⟩)) (by simp [hcalls])
  rw [hk, initLkl_running_iff] at hrun
  exact hret hrun

end SocksServer

end LklSocks
