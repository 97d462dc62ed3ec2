import LklSocks.SocksConnection.Termination

/-!
# Threads that wait for a peer

A thread of a connection waits for a peer in a read, a write or a connect on an open socket, and
nowhere else. While the destructor joins the threads, each of them goes on or waits for a peer, so
a destructor that has closed both sockets for good depends on no peer.

## Main definitions

* `SocksConnection.HostWaits`, `SocksConnection.RemoteWaits`: a thread waits for a peer
* `SocksConnection.Sealed`: the destructor has closed the remote socket for good

## Main results

* `SocksConnection.Sealed.steps`: the remote socket is opened again only by a host thread at its
  `open`
* `SocksConnection.exists_ownStep`: where a destructor is under way, a thread waits for a peer or
  makes a step
-/

namespace LklSocks

/-- The loop waits for the peer of its source or of its sink. -/
def RelayPoint.Waits (src dst : Socket) : RelayPoint → Prop
  | read => src.isOpen = true
  | write _ _ => dst.isOpen = true
  | _ => False

instance (src dst : Socket) : DecidablePred (RelayPoint.Waits src dst)
  | .read => instDecidableEqBool src.isOpen true
  | .write _ _ => instDecidableEqBool dst.isOpen true
  | .caught _ => instDecidableFalse
  | .share => instDecidableFalse
  | .stop _ => instDecidableFalse
  | .returned => instDecidableFalse

/-- The host thread waits for the client or for the remote. `open` waits for neither. -/
def HostPoint.Waits (host remote : Socket) : HostPoint → Prop
  | readHeader _ => host.isOpen = true
  | readUserdata _ _ => host.isOpen = true
  | connectRemote _ => remote.isOpen = true
  | writeReply _ _ => host.isOpen = true
  | relay point => point.Waits host remote
  | _ => False

instance (host remote : Socket) : DecidablePred (HostPoint.Waits host remote)
  | .readHeader _ => instDecidableEqBool host.isOpen true
  | .readUserdata _ _ => instDecidableEqBool host.isOpen true
  | .connectRemote _ => instDecidableEqBool remote.isOpen true
  | .writeReply _ _ => instDecidableEqBool host.isOpen true
  | .relay point => inferInstanceAs (Decidable (point.Waits host remote))
  | .idle => instDecidableFalse
  | .openRemote _ => instDecidableFalse
  | .startRemote => instDecidableFalse
  | .catchAll => instDecidableFalse
  | .stop _ => instDecidableFalse
  | .escaped => instDecidableFalse

def RemotePoint.Waits (remote host : Socket) : RemotePoint → Prop
  | idle => False
  | relay point => point.Waits remote host

instance (remote host : Socket) : DecidablePred (RemotePoint.Waits remote host)
  | .idle => instDecidableFalse
  | .relay point => inferInstanceAs (Decidable (point.Waits remote host))

/-- A loop with closed sockets waits for no peer. -/
theorem RelayPoint.not_waits {src dst : Socket} (p : RelayPoint) (hsrc : src.isOpen = false)
    (hdst : dst.isOpen = false) : ¬ p.Waits src dst := by
  intro h
  cases p with
  | read => cases hsrc.symm.trans h
  | write length written => cases hdst.symm.trans h
  | _ => exact h

/-- A loop that has returned, or waits for a peer, holds no reference in a call of
`stopConnection`. -/
theorem RelayPoint.heldBy_call {src dst : Socket} {p : RelayPoint}
    (h : p.Finished ∨ p.Waits src dst) : heldBy p.call = 0 := by
  cases p with
  | stop call =>
    obtain rfl : call = .done := h.resolve_right id
    rfl
  | _ => rfl

namespace SocksConnection

variable {c c' : SocksConnection} {a : ConnectionAction} {useCount : ℕ} {out : Outcome}

def HostWaits (c : SocksConnection) : Prop := c.hostThread.Waits c.hostSocket c.remoteSocket

def RemoteWaits (c : SocksConnection) : Prop := c.remoteThread.Waits c.remoteSocket c.hostSocket

instance (c : SocksConnection) : Decidable c.HostWaits :=
  inferInstanceAs (Decidable (HostPoint.Waits _ _ _))

instance (c : SocksConnection) : Decidable c.RemoteWaits :=
  inferInstanceAs (Decidable (RemotePoint.Waits _ _ _))

/-- The threads of a connection with closed sockets wait for no peer. -/
theorem not_waits (hh : c.hostSocket.isOpen = false) (hr : c.remoteSocket.isOpen = false) :
    ¬ c.HostWaits ∧ ¬ c.RemoteWaits := by
  have hopen {x : Socket} (hx : x.isOpen = false) (h : x.isOpen = true) : False := by
    cases hx.symm.trans h
  constructor
  · unfold HostWaits
    intro h
    cases hp : c.hostThread with
    | relay point => exact point.not_waits hh hr (by rwa [hp] at h)
    | connectRemote request => exact hopen hr (by rwa [hp] at h)
    | readHeader header => exact hopen hh (by rwa [hp] at h)
    | readUserdata header userdata => exact hopen hh (by rwa [hp] at h)
    | writeReply code rest => exact hopen hh (by rwa [hp] at h)
    | _ => rwa [hp] at h
  · unfold RemoteWaits
    intro h
    cases hp : c.remoteThread with
    | relay point => exact point.not_waits hr hh (by rwa [hp] at h)
    | idle => rwa [hp] at h

/-- Threads that are over, or wait for a peer, hold no reference. -/
theorem held_of_waits (hh : c.HostOver ∨ c.HostWaits) (hr : c.RemoteOver ∨ c.RemoteWaits) :
    c.held = 0 := by
  have hhost : heldBy c.hostThread.call = 0 := by
    cases hp : c.hostThread with
    | relay point =>
      unfold HostOver HostWaits at hh
      rw [hp] at hh
      exact point.heldBy_call (hh.imp_left fun h => h.resolve_left nofun)
    | stop call =>
      unfold HostOver HostWaits at hh
      rw [hp] at hh
      obtain rfl : call = .done := (hh.resolve_right id).resolve_left nofun
      rfl
    | _ => rfl
  have hremote : heldBy c.remoteThread.call = 0 := by
    cases hp : c.remoteThread with
    | idle => rfl
    | relay point =>
      unfold RemoteOver RemoteWaits at hr
      rw [hp] at hr
      exact point.heldBy_call (hr.imp_left fun h => h.resolve_left nofun)
  rw [held_eq, hhost, hremote]

/-! ## The remote socket of a destructor -/

/-- The destructor has closed the remote socket, and it is closed. -/
def Sealed (c : SocksConnection) : Prop :=
  ∀ d ∈ c.destructor, d.2 ≠ .closeRemote → c.remoteSocket.isOpen = false

theorem Sealed.of_none (h : c.destructor = none) : c.Sealed := by
  intro d hd
  rw [h] at hd
  cases hd

/-- A host thread that is not at its `open` leaves a closed remote socket closed. -/
theorem HandshakeSteps.remoteSocket_closed (hs : c.HandshakeSteps useCount out c')
    (hopen : ∀ request, c.hostThread ≠ .openRemote request)
    (h : c.remoteSocket.isOpen = false) : c'.remoteSocket.isOpen = false := by
  cases hs with
  | openRemote hp => exact absurd hp (hopen _)
  | connected hp ho => cases h.symm.trans ho
  | relay hp hs => exact (congrArg Socket.isOpen hs.dst_eq).trans h
  | _ => exact h

/-- **A closed remote socket stays closed** while the host thread is not at its `open`. -/
theorem Sealed.steps (h : c.Sealed) (hf : c.Framed) (hs : c.Steps a c')
    (hopen : c.destructor ≠ none → ∀ request, c.hostThread ≠ .openRemote request) : c'.Sealed := by
  cases hs with
  | accept ho hd => exact .of_none hd
  | start hp hd => exact .of_none hd
  | @host useCount out e hu hs =>
    obtain ⟨hcall, -, hdtor⟩ := hs.call hf
    by_cases hd : c.destructor = none
    · obtain ⟨x, hx, he⟩ := e.releaseHost_eq
      intro d hd' hne
      rw [he] at hd'
      rcases hx with rfl | rfl
      · cases (hdtor.trans hd).symm.trans hd'
      · obtain rfl := Option.some.inj hd'
        exact absurd rfl hne
    · obtain rfl := hu.resolve_left hd
      rw [releaseHost_of_ne hcall.ne_destroying]
      intro d hd' hne
      exact hs.remoteSocket_closed (hopen hd) (h d (hdtor ▸ hd') hne)
  | @remote useCount out point r hu hp hs =>
    by_cases hd : c.destructor = none
    · obtain ⟨x, hx, he⟩ := (c.relayedRemote r).releaseRemote_eq
      intro d hd' hne
      rw [he] at hd'
      rcases hx with rfl | rfl
      · cases hd.symm.trans hd'
      · obtain rfl := Option.some.inj hd'
        exact absurd rfl hne
    · obtain rfl := hu.resolve_left hd
      rw [releaseRemote_of_ne (remoteStep_call hp hs).ne_destroying]
      intro d hd' hne
      exact hs.src_isOpen.trans (h d hd' hne)
  | destroy hd =>
    intro d hd' hne
    obtain rfl := Option.some.inj hd'
    exact absurd rfl hne
  | destructor hs =>
    intro d hd' hne
    cases hs with
    | closeRemote hd => rfl
    | members hd hh hr => rfl
    | _ hd => exact h _ hd fun he => by cases he

/-! ## The steps of a destructor -/

/-- Only a step of the destructor aborts it. -/
theorem Steps.aborted (hf : c.Framed) (hs : c.Steps a c')
    (h : c'.destructor.map Prod.snd = some .aborted) :
    c.destructor.map Prod.snd = some .aborted ∨ a = .destructor := by
  cases hs with
  | accept ho hd => exact .inl h
  | start hp hd => exact .inl h
  | @host useCount out e hu hs =>
    obtain ⟨-, -, hdtor⟩ := hs.call hf
    obtain ⟨x, hx, he⟩ := e.releaseHost_eq
    rw [he] at h
    rcases hx with rfl | rfl
    · exact .inl (hdtor ▸ h)
    · cases h
  | @remote useCount out point r hu hp hs =>
    obtain ⟨x, hx, he⟩ := (c.relayedRemote r).releaseRemote_eq
    rw [he] at h
    rcases hx with rfl | rfl
    · exact .inl h
    · cases h
  | destroy hd => cases h
  | destructor hs => exact .inr rfl

/-- The step is made without a peer. -/
def Own (c : SocksConnection) : ConnectionAction → Prop
  | .host _ _ => ¬ c.HostWaits
  | .remote _ _ => ¬ c.RemoteWaits
  | .destructor => True
  | _ => False

/-- **A destructor waits for threads that go on**: while it is under way, it or a thread makes a
step without a peer, or a thread waits for a peer. -/
theorem exists_ownStep (hr : c.Runs) {runner : Runner} {point : DtorPoint}
    (hd : c.destructor = some (runner, point)) (hm : point ≠ .done) (ha : point ≠ .aborted)
    (he : c.hostThread ≠ .escaped) (hh : ¬ c.HostWaits) (hr' : ¬ c.RemoteWaits) :
    ∃ a d, c.Own a ∧ c.step a = some d := by
  obtain ⟨a, d, hl, hs⟩ := exists_step hr hd hm ha he
  refine ⟨a, d, ?_, hs⟩
  cases a with
  | host n out => exact hh
  | remote n out => exact hr'
  | destructor => trivial
  | accept stream => exact hl
  | start => exact hl
  | destroy => exact hl

end SocksConnection

end LklSocks
