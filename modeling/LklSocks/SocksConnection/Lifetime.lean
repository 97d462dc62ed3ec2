import LklSocks.SocksConnection.Streams

/-!
# The lifetime of a connection

The calls of `stopConnection` hold a strong reference for a while, and the release of the last
reference starts the destructor. The destructor closes the sockets and joins the threads; when the
main thread runs it, it ends with both threads finished, and when a thread of the connection runs
it, that thread is still joinable at the end and the program aborts.

## Main definitions

* `CallStep`: what a step of a thread does to its call of `stopConnection`
* `SocksConnection.Owned`: the destructor has started exactly when no reference is left
* `SocksConnection.Closing`: what the destructor has done at each of its points

## Main results

* `SocksConnection.Owned.hostStep`, `remoteStep`: the threads keep the ownership invariant
* `SocksConnection.closing`: the invariant of the destructor holds in every reachable state
-/

namespace LklSocks

/-! ## Calls of `stopConnection` -/

/-- What a step of a thread does to its call of `stopConnection`, when `useCount` strong references
exist: it makes the call, or takes a step of it, or neither. -/
inductive CallStep (useCount : ℕ) : Option StopCall → Option StopCall → Prop
  | none : CallStep useCount none none
  | share (hu : useCount ≠ 0) : CallStep useCount none (some .argument)
  | next {call next : StopCall} (hc : call.next useCount = some next) :
      CallStep useCount (some call) (some next)

/-- The references that a call holds. -/
def heldBy (call : Option StopCall) : ℕ := call.elim 0 StopCall.holds

/-- A step posts the handler of the call. -/
def posts (call : Option StopCall) : ℕ := if call = some .argument then 1 else 0

/-- A step of a call and the references: `n` are held elsewhere. The last reference is released
exactly by a step to the destructor. -/
theorem CallStep.owned {n : ℕ} {call call' : Option StopCall} {destroyed : Prop}
    (h : CallStep (n + heldBy call) call call') (ho : n + heldBy call = 0 ↔ destroyed) :
    n + posts call + heldBy call' = 0 ↔ destroyed ∨ call' = some .destroying := by
  cases h with
  | none => simpa [heldBy, posts] using ho
  | share hu => simp_all [heldBy, posts]
  | next hc =>
    rename_i call next
    cases call with
    | argument =>
      obtain rfl : StopCall.posted = next := by simpa [StopCall.next] using hc
      simp_all [heldBy, posts, StopCall.holds]
    | posted =>
      obtain rfl : _ = next := by simpa [StopCall.next] using hc
      simp only [heldBy, posts, Option.elim, StopCall.holds] at ho hc ⊢
      split <;> simp_all
    | destroying => cases hc
    | done => cases hc

/-- When no reference is left, no call reaches the destructor. -/
theorem CallStep.ne_destroying {call call' : Option StopCall} (h : CallStep 0 call call') :
    call' ≠ some .destroying := by
  cases h with
  | none => nofun
  | share hu => exact absurd rfl hu
  | next hc =>
    rename_i call next
    rintro ⟨⟩
    cases call <;> simp [StopCall.next] at hc

/-- A call that runs the destructor makes no step of its own. -/
theorem CallStep.of_destroying {useCount : ℕ} {call' : Option StopCall}
    (h : CallStep useCount (some .destroying) call') : False := by
  cases h with
  | next hc => cases hc

theorem Relay.Steps.not_finished {useCount : ℕ} {r r' : Relay} {out : Outcome}
    (h : r.Steps useCount out r') : ¬ r.point.Finished := by
  intro hfin
  cases h with
  | stop hp hc =>
    rw [hp] at hfin
    obtain rfl : _ = StopCall.done := hfin
    cases hc
  | _ hp =>
    rw [hp] at hfin
    exact hfin

theorem Relay.Steps.call {useCount : ℕ} {r r' : Relay} {out : Outcome}
    (h : r.Steps useCount out r') : CallStep useCount r.point.call r'.point.call := by
  cases h with
  | share hp hu =>
    rw [hp]
    exact .share hu
  | stop hp hc =>
    rw [hp]
    exact .next hc
  | write hp hw =>
    rw [hp]
    dsimp only
    split <;> exact .none
  | _ hp =>
    rw [hp]
    exact .none

namespace SocksConnection

variable {useCount n : ℕ} {c c' : SocksConnection} {out : Outcome}

theorem held_eq (c : SocksConnection) :
    c.held = heldBy c.hostThread.call + heldBy c.remoteThread.call := rfl

/-- What a step of the host thread does to the calls of `stopConnection`. -/
theorem HandshakeSteps.call (hs : c.HandshakeSteps useCount out c') (hf : c.Framed) :
    CallStep useCount c.hostThread.call c'.hostThread.call ∧
      c'.remoteThread.call = c.remoteThread.call ∧ c'.destructor = c.destructor := by
  cases hs with
  | relay hp hs =>
    rw [hp]
    exact ⟨hs.call, rfl, rfl⟩
  | share hp hu =>
    rw [hp]
    exact ⟨.share hu, rfl, rfl⟩
  | stop hp hc =>
    rw [hp]
    exact ⟨.next hc, rfl, rfl⟩
  | startRemote hp =>
    simp only [Framed, hp] at hf
    rw [hp, hf.1]
    exact ⟨.none, rfl, rfl⟩
  | endReply hp hw hr =>
    rename_i code rest n
    rw [hp]
    exact ⟨by cases code <;> exact .none, rfl, rfl⟩
  | _ hp =>
    rw [hp]
    exact ⟨.none, rfl, rfl⟩

theorem HandshakeSteps.joined (hs : c.HandshakeSteps useCount out c') :
    c'.hostJoined = c.hostJoined ∧ c'.remoteJoined = c.remoteJoined := by
  cases hs <;> exact ⟨rfl, rfl⟩

/-- What a step of the remote thread does to the calls of `stopConnection`. -/
theorem remoteStep_call {q : RelayPoint} {r : Relay} (hq : c.remoteThread = .relay q)
    (hs : Relay.Steps useCount ⟨c.remoteSocket, c.hostSocket, c.remoteBuffer, q⟩ out r) :
    CallStep useCount c.remoteThread.call (c.relayedRemote r).remoteThread.call := by
  rw [hq]
  exact hs.call

/-! ## Ownership -/

/-- `n` strong references are held outside the threads of the connection, and the destructor has
started exactly when no reference is left. -/
def Owned (n : ℕ) (c : SocksConnection) : Prop := n + c.held = 0 ↔ c.destructor ≠ none

/-- The host thread keeps ownership; a handler that it posts holds a reference. -/
theorem Owned.hostStep (h : c.Owned n) (hf : c.Framed)
    (hs : c.hostStep (n + c.held) out = some c') :
    c'.Owned (n + posts c.hostThread.call) := by
  obtain ⟨d, hd, rfl⟩ := Option.map_eq_some_iff.mp hs
  obtain ⟨hcall, hremote, hdtor⟩ := (handshake_cases hd).call hf
  have hcount : n + c.held = n + heldBy c.remoteThread.call + heldBy c.hostThread.call := by
    rw [held_eq]
    omega
  have hcount' : n + posts c.hostThread.call + d.held =
      n + heldBy c.remoteThread.call + posts c.hostThread.call + heldBy d.hostThread.call := by
    rw [held_eq, hremote]
    omega
  unfold Owned at h ⊢
  rw [hcount] at hcall h
  have hnew := hcall.owned h
  rw [← hcount', ← hdtor] at hnew
  unfold releaseHost
  split
  · next hlast => exact ⟨fun _ => nofun, fun _ => hnew.mpr (.inr hlast)⟩
  · next hlast => exact hnew.trans (or_iff_left hlast)

/-- The remote thread keeps ownership. -/
theorem Owned.remoteStep (h : c.Owned n) (hs : c.remoteStep (n + c.held) out = some c') :
    c'.Owned (n + posts c.remoteThread.call) := by
  obtain ⟨d, hd, rfl⟩ := Option.map_eq_some_iff.mp hs
  obtain ⟨q, r, hq, hr, rfl⟩ := receiveRemote_cases hd
  have hcall := remoteStep_call hq hr
  have hcount : n + c.held = n + heldBy c.hostThread.call + heldBy c.remoteThread.call := by
    rw [held_eq]
    omega
  have hcount' : n + posts c.remoteThread.call +
      (c.relayedRemote r).held =
      n + heldBy c.hostThread.call + posts c.remoteThread.call +
        heldBy (c.relayedRemote r).remoteThread.call := by
    rw [held_eq, show (c.relayedRemote r).hostThread = c.hostThread from rfl]
    omega
  unfold Owned at h ⊢
  rw [hcount] at hcall h
  have hnew := hcall.owned h
  rw [← hcount'] at hnew
  unfold releaseRemote
  split
  · next hlast => exact ⟨fun _ => nofun, fun _ => hnew.mpr (.inr hlast)⟩
  · next hlast => exact hnew.trans (or_iff_left hlast)

/-! ## The destructor -/

/-- The host thread was not started, or it has returned. -/
def HostOver (c : SocksConnection) : Prop := c.hostThread = .idle ∨ c.hostThread.Finished

def RemoteOver (c : SocksConnection) : Prop := c.remoteThread = .idle ∨ c.remoteThread.Finished

/-- A thread that is over makes no step. -/
theorem HandshakeSteps.not_over (hs : c.HandshakeSteps useCount out c') : ¬ c.HostOver := by
  rintro (hp' | hfin)
  · cases hs <;> simp_all
  · cases hs with
    | relay hp hs =>
      rw [hp] at hfin
      exact hs.not_finished hfin
    | stop hp hc =>
      rw [hp] at hfin
      obtain rfl : _ = StopCall.done := hfin
      cases hc
    | _ hp =>
      rw [hp] at hfin
      exact hfin

theorem not_remoteOver {q : RelayPoint} {r : Relay} (hq : c.remoteThread = .relay q)
    (hs : Relay.Steps useCount ⟨c.remoteSocket, c.hostSocket, c.remoteBuffer, q⟩ out r) :
    ¬ c.RemoteOver := by
  rintro (hp | hfin)
  · cases hq.symm.trans hp
  · rw [hq] at hfin
    exact hs.not_finished hfin

/-- What the destructor has done at `point` when the main thread runs it. -/
def ClosingMain (c : SocksConnection) : DtorPoint → Prop
  | .closeRemote => c.hostJoined = false ∧ c.remoteJoined = false
  | .closeHost => c.hostJoined = false ∧ c.remoteJoined = false
  | .joinHost => c.hostJoined = false ∧ c.remoteJoined = false
  | .joinRemote => c.HostOver ∧ ¬ c.hostJoinable ∧ c.remoteJoined = false
  | .members => c.HostOver ∧ ¬ c.hostJoinable ∧ c.RemoteOver ∧ ¬ c.remoteJoinable
  | .done => c.HostOver ∧ ¬ c.hostJoinable ∧ c.RemoteOver ∧ ¬ c.remoteJoinable
  | .aborted => False

/-- What the destructor has done. A thread of the connection that runs it stays in its call of
`stopConnection`, and is never joined. -/
def Closing (c : SocksConnection) : Prop :=
  match c.destructor with
  | none =>
    c.hostThread.call ≠ some .destroying ∧ c.remoteThread.call ≠ some .destroying ∧
      c.hostJoined = false ∧ c.remoteJoined = false
  | some (.main, point) =>
    c.hostThread.call ≠ some .destroying ∧ c.remoteThread.call ≠ some .destroying ∧
      c.ClosingMain point
  | some (.host, point) =>
    c.hostThread.call = some .destroying ∧ c.hostJoined = false ∧ point ≠ .done
  | some (.remote, point) =>
    c.remoteThread.call = some .destroying ∧ c.remoteJoined = false ∧ point ≠ .done

theorem releaseHost_of_ne (h : c.hostThread.call ≠ some .destroying) : c.releaseHost = c :=
  if_neg h

theorem releaseRemote_of_ne (h : c.remoteThread.call ≠ some .destroying) : c.releaseRemote = c :=
  if_neg h

/-- The host thread keeps the invariant of the destructor. -/
theorem Closing.handshake (h : c.Closing) (hf : c.Framed) (hu : c.destructor = none ∨ useCount = 0)
    (hs : c.HandshakeSteps useCount out c') : c'.releaseHost.Closing := by
  obtain ⟨hcall, hremote, hdtor⟩ := hs.call hf
  obtain ⟨hhj, hrj⟩ := hs.joined
  have hover := hs.not_over
  unfold Closing at h
  split at h
  · next hd =>
    obtain ⟨-, hr, hj, hj'⟩ := h
    unfold releaseHost
    split
    · next hlast => exact ⟨hlast, hhj.trans hj, nofun⟩
    · next hlast =>
      simp only [Closing, hdtor, hd]
      exact ⟨hlast, hremote ▸ hr, hhj.trans hj, hrj.trans hj'⟩
  · next point hd =>
    obtain rfl : useCount = 0 := hu.resolve_left (by simp [hd])
    -- the main thread runs it: no reference is left, and a thread that is joined makes no step
    obtain ⟨-, hr, hm⟩ := h
    rw [releaseHost_of_ne hcall.ne_destroying]
    simp only [Closing, hdtor, hd]
    refine ⟨hcall.ne_destroying, hremote ▸ hr, ?_⟩
    cases point with
    | closeRemote => exact ⟨hhj.trans hm.1, hrj.trans hm.2⟩
    | closeHost => exact ⟨hhj.trans hm.1, hrj.trans hm.2⟩
    | joinHost => exact ⟨hhj.trans hm.1, hrj.trans hm.2⟩
    | joinRemote => exact absurd hm.1 hover
    | members => exact absurd hm.1 hover
    | done => exact absurd hm.1 hover
    | aborted => exact hm.elim
  · next point hd =>
    rw [h.1] at hcall
    exact hcall.of_destroying.elim
  · next point hd =>
    obtain rfl : useCount = 0 := hu.resolve_left (by simp [hd])
    rw [releaseHost_of_ne hcall.ne_destroying]
    simp only [Closing, hdtor, hd]
    exact ⟨hremote ▸ h.1, hrj.trans h.2.1, h.2.2⟩

/-- The remote thread keeps the invariant of the destructor. -/
theorem Closing.receiveRemote {q : RelayPoint} {r : Relay} (h : c.Closing)
    (hu : c.destructor = none ∨ useCount = 0) (hq : c.remoteThread = .relay q)
    (hs : Relay.Steps useCount ⟨c.remoteSocket, c.hostSocket, c.remoteBuffer, q⟩ out r) :
    (c.relayedRemote r).releaseRemote.Closing := by
  have hcall := remoteStep_call hq hs
  have hover := not_remoteOver hq hs
  unfold Closing at h
  split at h
  · next hd =>
    obtain ⟨hh, -, hj, hj'⟩ := h
    unfold releaseRemote
    split
    · next hlast => exact ⟨hlast, hj', nofun⟩
    · next hlast =>
      simp only [Closing, relayedRemote, hd]
      exact ⟨hh, hlast, hj, hj'⟩
  · next point hd =>
    obtain rfl : useCount = 0 := hu.resolve_left (by simp [hd])
    obtain ⟨hh, -, hm⟩ := h
    rw [releaseRemote_of_ne hcall.ne_destroying]
    simp only [Closing, relayedRemote, hd]
    refine ⟨hh, hcall.ne_destroying, ?_⟩
    cases point with
    | closeRemote => exact hm
    | closeHost => exact hm
    | joinHost => exact hm
    | joinRemote => exact hm
    | members => exact absurd hm.2.2.1 hover
    | done => exact absurd hm.2.2.1 hover
    | aborted => exact hm.elim
  · next point hd =>
    obtain rfl : useCount = 0 := hu.resolve_left (by simp [hd])
    rw [releaseRemote_of_ne hcall.ne_destroying]
    simp only [Closing, relayedRemote, hd]
    exact h
  · next point hd =>
    rw [h.1] at hcall
    exact hcall.of_destroying.elim

theorem hostJoinable_of_call {call : StopCall} (hc : c.hostThread.call = some call)
    (hj : c.hostJoined = false) : c.hostJoinable :=
  ⟨fun hp => by simp [hp, HostPoint.call] at hc, hj⟩

theorem remoteJoinable_of_call {call : StopCall} (hc : c.remoteThread.call = some call)
    (hj : c.remoteJoined = false) : c.remoteJoinable :=
  ⟨fun hp => by simp [hp, RemotePoint.call] at hc, hj⟩

theorem hostOver_of_not_joinable (hj : ¬ c.hostJoinable) (hf : c.hostJoined = false) :
    c.HostOver :=
  .inl (by_contra fun hp => hj ⟨hp, hf⟩)

theorem remoteOver_of_not_joinable (hj : ¬ c.remoteJoinable) (hf : c.remoteJoined = false) :
    c.RemoteOver :=
  .inl (by_contra fun hp => hj ⟨hp, hf⟩)

/-- The destructor on the main thread. -/
theorem Closing.destroyMain (h : c.Closing) (hs : c.DestroySteps .main c') : c'.Closing := by
  cases hs with
  | closeRemote hd =>
    simp only [Closing, hd] at h
    exact h
  | closeHost hd =>
    simp only [Closing, hd] at h
    exact h
  | joinOwnHost hd hj hr => cases hr
  | joinHost hd hj hr hf =>
    simp only [Closing, hd] at h
    exact ⟨h.1, h.2.1, .inr hf, nofun, h.2.2.2⟩
  | skipHost hd hj =>
    simp only [Closing, hd] at h
    exact ⟨h.1, h.2.1, hostOver_of_not_joinable hj h.2.2.1, hj, h.2.2.2⟩
  | joinOwnRemote hd hj hr => cases hr
  | joinRemote hd hj hr hf =>
    simp only [Closing, hd] at h
    exact ⟨h.1, h.2.1, h.2.2.1, h.2.2.2.1, .inr hf, nofun⟩
  | skipRemote hd hj =>
    simp only [Closing, hd] at h
    exact ⟨h.1, h.2.1, h.2.2.1, h.2.2.2.1, remoteOver_of_not_joinable hj h.2.2.2.2, hj⟩
  | terminate hd hj =>
    simp only [Closing, hd] at h
    obtain ⟨-, -, -, hh, -, hr⟩ := h
    exact (hj.elim hh hr).elim
  | members hd hh hr =>
    simp only [Closing, hd] at h
    exact h

/-- The destructor on the host thread never joins it. -/
theorem Closing.destroyHost (h : c.Closing) (hs : c.DestroySteps .host c') : c'.Closing := by
  cases hs with
  | joinHost hd hj hr hf => exact absurd rfl hr
  | joinOwnRemote hd hj hr => cases hr
  | members hd hh hr =>
    simp only [Closing, hd] at h
    exact absurd (hostJoinable_of_call h.1 h.2.1) hh
  | _ hd =>
    simp only [Closing, hd] at h
    exact ⟨h.1, h.2.1, nofun⟩

/-- The destructor on the remote thread never joins it. -/
theorem Closing.destroyRemote (h : c.Closing) (hs : c.DestroySteps .remote c') : c'.Closing := by
  cases hs with
  | joinOwnHost hd hj hr => cases hr
  | joinRemote hd hj hr hf => exact absurd rfl hr
  | members hd hh hr =>
    simp only [Closing, hd] at h
    exact absurd (remoteJoinable_of_call h.1 h.2.1) hr
  | _ hd =>
    simp only [Closing, hd] at h
    exact ⟨h.1, h.2.1, nofun⟩

/-- Every step of a connection keeps the invariant of the destructor. -/
theorem Closing.steps {a : ConnectionAction} (h : c.Closing) (hf : c.Framed) (hs : c.Steps a c') :
    c'.Closing := by
  cases hs with
  | accept ho hd =>
    simp only [Closing, hd] at h ⊢
    exact h
  | start hp hd =>
    simp only [Closing, hd] at h ⊢
    exact ⟨nofun, h.2⟩
  | host hu hs => exact h.handshake hf hu hs
  | remote hu hq hs => exact h.receiveRemote hu hq hs
  | destroy hd =>
    simp only [Closing, hd] at h
    exact h
  | destructor hs =>
    rename_i runner
    cases runner with
    | main => exact h.destroyMain hs
    | host => exact h.destroyHost hs
    | remote => exact h.destroyRemote hs

/-- **The invariant of the destructor** holds in every reachable state of a connection. -/
theorem closing (h : machine.Reachable c) : c.Closing := by
  refine h.invariant (P := Closing) ?_ ?_
  · rintro _ ⟨order, a, rfl⟩
    exact ⟨nofun, nofun, rfl, rfl⟩
  · intro c a c' hr hc ha
    exact hc.steps (framed hr) (step_cases ha)

/-- The memory of the connection is free again. -/
def Freed (c : SocksConnection) : Prop := c.destructor.map Prod.snd = some .done

instance (c : SocksConnection) : Decidable c.Freed := inferInstanceAs (Decidable (_ = _))

theorem Freed.destructor_ne (h : c.Freed) : c.destructor ≠ none := by
  intro hd
  simp [Freed, hd] at h

/-- Only the main thread completes a destructor. -/
theorem Freed.destructor_eq (h : c.Freed) (hc : c.Closing) :
    c.destructor = some (.main, .done) := by
  unfold Freed at h
  obtain ⟨⟨runner, point⟩, hd, rfl⟩ := Option.map_eq_some_iff.mp h
  cases runner with
  | main => exact hd
  | host =>
    simp only [Closing, hd] at hc
    exact absurd rfl hc.2.2
  | remote =>
    simp only [Closing, hd] at hc
    exact absurd rfl hc.2.2

/-- After the destructor both threads are over. -/
theorem Freed.over (h : c.Freed) (hc : c.Closing) : c.HostOver ∧ c.RemoteOver := by
  have hd := h.destructor_eq hc
  simp only [Closing, hd] at hc
  exact ⟨hc.2.2.1, hc.2.2.2.2.1⟩

/-- Nothing happens to a connection after its destructor. -/
theorem Freed.not_steps {a : ConnectionAction} (h : c.Freed) (hc : c.Closing) :
    ¬ c.Steps a c' := by
  intro hs
  have hd := h.destructor_eq hc
  obtain ⟨hhost, hremote⟩ := h.over hc
  cases hs with
  | accept ho hd' => exact h.destructor_ne hd'
  | start hp hd' => exact h.destructor_ne hd'
  | host hu hs => exact hs.not_over hhost
  | remote hu hq hs => exact not_remoteOver hq hs hremote
  | destroy hd' => exact h.destructor_ne hd'
  | destructor hs => cases hs <;> simp_all

/-- A connection keeps its address. -/
theorem Steps.address {a : ConnectionAction} (hs : c.Steps a c') : c'.address = c.address := by
  cases hs with
  | host hu hs =>
    rename_i d
    obtain ⟨_, -, he⟩ := d.releaseHost_eq
    rw [he]
    cases hs <;> rfl
  | remote hu hq hs =>
    rename_i r
    obtain ⟨_, -, he⟩ := (c.relayedRemote r).releaseRemote_eq
    rw [he]
    rfl
  | destructor hs => cases hs <;> rfl
  | _ => rfl

theorem Owned.congr {m : ℕ} (h : c.Owned n) (hm : m = 0 ↔ n = 0) : c.Owned m := by
  unfold Owned at h ⊢
  rw [← h]
  omega

theorem Owned.of_ne (hn : n ≠ 0) (hd : c.destructor = none) : c.Owned n :=
  ⟨fun h0 => absurd (Nat.eq_zero_of_add_eq_zero_right h0) hn, fun hne => absurd hd hne⟩

/-- The destructor touches no reference. -/
theorem Owned.destroySteps {runner : Runner} (h : c.Owned n) (hs : c.DestroySteps runner c') :
    c'.Owned n := by
  have hd : c.destructor ≠ none ∧ c'.destructor ≠ none ∧ c'.held = c.held := by
    cases hs with
    | _ hd => simp [hd, held]
  obtain ⟨hd, hd', hheld⟩ := hd
  unfold Owned at h ⊢
  rw [hheld]
  exact ⟨fun _ => hd', fun _ => h.mpr hd⟩

/-- While a reference is held elsewhere, the destructor has not started. -/
theorem Owned.destructor_eq (h : c.Owned n) (hn : n ≠ 0) : c.destructor = none := by
  by_contra hd
  have := h.mpr hd
  omega

end SocksConnection

end LklSocks
