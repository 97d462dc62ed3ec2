import LklSocks.SocksConnection.Threads

/-!
# What is written when a connection is torn down

The sockets of a connection stay open until the destructor closes them, so a relay loop that meets
EOF before has read everything its source sends, and has written everything it read. The loop of the
other direction is wherever it is.

## Main definitions

* `SocksConnection.BeforeClose`: the destructor has not yet closed a socket
* `SocksConnection.HostEnded`, `RemoteEnded`: a relay loop has met the end of its source
* `SocksConnection.HostComplete`, `RemoteComplete`: everything was written in one direction
* `ConnectionAction.Calm`: a relay loop fails only by EOF

## Main results

* `SocksConnection.isOpen`: the sockets that were used are open until the destructor closes them
* `SocksConnection.Drained.steps`: a calm step keeps the directions that have ended complete
-/

namespace LklSocks

/-- A calm step that leaves a relay loop, or makes a step outside it, moves nothing; it leaves the
loop only when its source has ended. -/
theorem Relay.Steps.ended {useCount : ℕ} {r r' : Relay} {out : Outcome}
    (h : r.Steps useCount out r') (hopen : r.src.isOpen = true)
    (hcalm : ∀ ec, out = .error ec → r.point = .read ∧ ec = .eof) (hm : ¬ r'.point.Moving) :
    r'.src = r.src ∧ r'.dst = r.dst ∧
      (¬ r.point.Moving ∨ r.point = .read ∧ r.src.incoming = []) := by
  cases h with
  | read hp hr hb => exact absurd trivial hm
  | write hp hw =>
    refine absurd ?_ hm
    dsimp only
    split <;> trivial
  | readError hp hf =>
    obtain ⟨-, rfl⟩ := hcalm _ rfl
    -- the socket is open, so EOF means that the peer has sent everything
    have hend := (hf.2 rfl).resolve_right (by simp [hopen])
    exact ⟨rfl, rfl, .inr ⟨hp, hend⟩⟩
  | writeError hp => cases hp.symm.trans (hcalm _ rfl).1
  | _ hp => exact ⟨rfl, rfl, .inl (by rw [hp]; exact id)⟩

/-- A loop that waits to read has written everything it read. -/
theorem Relays.output_eq {buf : Buffer} {input output : List UInt8}
    (h : Relays buf .read input output) : output = input := by
  simpa using h.moving trivial

/-- The program point inside a relay loop. -/
def HostPoint.relayPoint : HostPoint → Option RelayPoint
  | relay p => some p
  | _ => none

def RemotePoint.relayPoint : RemotePoint → Option RelayPoint
  | relay p => some p
  | idle => none

/-- If the step is an error in a relay loop, it is EOF of the read. -/
def ConnectionAction.Calm (c : SocksConnection) : ConnectionAction → Prop
  | host _ (.error ec) => ∀ p ∈ c.hostThread.relayPoint, p = .read ∧ ec = .eof
  | remote _ (.error ec) => ∀ p ∈ c.remoteThread.relayPoint, p = .read ∧ ec = .eof
  | _ => True

instance (c : SocksConnection) (a : ConnectionAction) : Decidable (a.Calm c) := by
  unfold ConnectionAction.Calm
  split <;> infer_instance

namespace SocksConnection

variable {c c' : SocksConnection} {a : ConnectionAction} {useCount : ℕ} {out : Outcome}

/-! ## Open sockets -/

/-- The destructor has not started, or not yet closed a socket. -/
def BeforeClose (c : SocksConnection) : Prop := ∀ d ∈ c.destructor, d.2 = .closeRemote

/-- The sockets that were used are open. -/
structure Open (c : SocksConnection) : Prop where
  host : c.requestBytes ≠ [] → c.hostSocket.isOpen = true
  remote : .success ∈ c.replies → c.remoteSocket.isOpen = true

/-- The first step of the destructor closes a socket. -/
theorem DestroySteps.not_beforeClose {runner : Runner} (hs : c.DestroySteps runner c') :
    ¬ c'.BeforeClose := by
  intro h
  cases hs <;> cases h _ rfl

/-- No step opens a socket again that the destructor has closed. -/
theorem Steps.beforeClose (hf : c.Framed) (hs : c.Steps a c') (h : c'.BeforeClose) :
    c.BeforeClose := by
  cases hs with
  | accept ho hd => exact h
  | start hp hd => exact h
  | host hu hs =>
    rename_i useCount out d
    obtain ⟨hcall, -, hdtor⟩ := hs.call hf
    unfold releaseHost at h
    split at h
    · next hlast =>
      rw [hlast] at hcall
      have hd := hu.resolve_right (by simp [hcall.destroying.2])
      intro e he
      rw [hd] at he
      cases he
    · exact fun e he => h e (hdtor ▸ he)
  | remote hu hq hs =>
    rename_i useCount out q r
    have hcall := remoteStep_call hq hs
    unfold releaseRemote at h
    split at h
    · next hlast =>
      rw [hlast] at hcall
      have hd := hu.resolve_right (by simp [hcall.destroying.2])
      intro e he
      rw [hd] at he
      cases he
    · exact h
  | destroy hd =>
    intro e he
    rw [hd] at he
    cases he
  | destructor hs => exact absurd h hs.not_beforeClose

/-- A step of the host thread keeps the sockets open that are used. -/
theorem Open.handshake (h : c.Open) (hs : c.HandshakeSteps useCount out c') : c'.Open := by
  obtain ⟨hhost, hremote⟩ := h
  cases hs with
  | readHeader hp hr hlen => exact ⟨fun _ => hr.1, hremote⟩
  | endHeader hp hr hlen => exact ⟨fun _ => hr.1, hremote⟩
  | readUserdata hp hr => exact ⟨fun _ => hr.1, hremote⟩
  | openRemote hp => exact ⟨hhost, fun _ => rfl⟩
  | openError hp => exact ⟨hhost, fun hm => hremote (by simpa [reply] using hm)⟩
  | connected hp ho => exact ⟨hhost, fun _ => rfl⟩
  | connectError hp => exact ⟨hhost, fun hm => hremote (by simpa [reply] using hm)⟩
  | relay hp hs =>
    constructor
    · intro hn
      exact hs.src_isOpen.trans (hhost hn)
    · intro hm
      exact (congrArg Socket.isOpen hs.dst_eq).trans (hremote hm)
  | _ => exact ⟨hhost, hremote⟩

/-- A step of the remote thread keeps the sockets open. -/
theorem Open.receiveRemote {q : RelayPoint} {r : Relay} (h : c.Open)
    (hs : Relay.Steps useCount ⟨c.remoteSocket, c.hostSocket, c.remoteBuffer, q⟩ out r) :
    (c.relayedRemote r).Open := by
  constructor
  · intro hn
    exact (congrArg Socket.isOpen hs.dst_eq).trans (h.host hn)
  · intro hm
    exact hs.src_isOpen.trans (h.remote hm)

theorem Open.steps (h : c.Open) (hs : c.Steps a c') (hc : c'.BeforeClose) : c'.Open := by
  cases hs with
  | accept ho hd => exact ⟨fun _ => rfl, h.remote⟩
  | start hp hd => exact ⟨h.host, h.remote⟩
  | host hu hs =>
    rename_i useCount out d
    obtain ⟨hhost, hremote⟩ := h.handshake hs
    obtain ⟨_, -, he⟩ := d.releaseHost_eq
    rw [he]
    exact ⟨hhost, hremote⟩
  | remote hu hq hs =>
    rename_i useCount out q r
    obtain ⟨hhost, hremote⟩ := h.receiveRemote hs
    obtain ⟨_, -, he⟩ := (c.relayedRemote r).releaseRemote_eq
    rw [he]
    exact ⟨hhost, hremote⟩
  | destroy hd => exact ⟨h.host, h.remote⟩
  | destructor hs => exact absurd hc hs.not_beforeClose

/-- **Open sockets**: in every reachable state, until the destructor closes them, the host socket
is open once it was read from, and the remote socket once it was connected. -/
theorem isOpen (h : machine.Reachable c) (hc : c.BeforeClose) : c.Open := by
  refine h.invariant (P := fun c => c.BeforeClose → c.Open) ?_ ?_ hc
  · rintro _ ⟨order, alloc, rfl⟩ -
    exact ⟨fun hn => absurd rfl hn, nofun⟩
  · intro c a c' hr ih ha hc
    have hs := step_cases ha
    exact (ih (hs.beforeClose (framed hr) hc)).steps hs hc

/-! ## The directions that have ended -/

/-- `receiveHost` has met the end of what the client sends. -/
def HostEnded (c : SocksConnection) : Prop := ∃ p ∈ c.hostThread.relayPoint, ¬ p.Moving

/-- `receiveRemote` has met the end of what the remote sends. -/
def RemoteEnded (c : SocksConnection) : Prop := ∃ p ∈ c.remoteThread.relayPoint, ¬ p.Moving

/-- Everything that the client sends after its request was written to the remote. -/
def HostComplete (c : SocksConnection) : Prop :=
  c.hostSocket.incoming = [] ∧
    c.remoteSocket.sent = c.hostSocket.received.drop c.requestBytes.length

/-- Everything that the remote sends was written to the client, after the reply. -/
def RemoteComplete (c : SocksConnection) : Prop :=
  c.remoteSocket.incoming = [] ∧
    c.hostSocket.sent = c.streams.replyBytes .success ++ c.remoteSocket.received

/-- The directions that have ended are complete. -/
structure Drained (c : SocksConnection) : Prop where
  host : c.HostEnded → c.HostComplete
  remote : c.RemoteEnded → c.RemoteComplete

/-- Outside the relay phase nothing has ended. -/
theorem Drained.of_not_relay (hh : c.hostThread.relayPoint = none) (hr : c.remoteThread = .idle) :
    c.Drained where
  host := by
    rintro ⟨p, hp, -⟩
    rw [hh] at hp
    cases hp
  remote := by
    rintro ⟨p, hp, -⟩
    rw [hr] at hp
    cases hp

theorem mem_hostPoint {p : RelayPoint} : p ∈ c.hostThread.relayPoint ↔ c.hostThread = .relay p := by
  cases c.hostThread <;> simp [HostPoint.relayPoint]

theorem mem_remotePoint {p : RelayPoint} :
    p ∈ c.remoteThread.relayPoint ↔ c.remoteThread = .relay p := by
  cases c.remoteThread <;> simp [RemotePoint.relayPoint]

/-- In the relay phase the request was read, and the remote is connected. -/
theorem Open.of_relaying {hostPoint remotePoint : RelayPoint} (ho : c.Open)
    (h : c.streams.Relaying c.hostBuffer hostPoint c.remoteBuffer remotePoint) :
    c.hostSocket.isOpen = true ∧ c.remoteSocket.isOpen = true := by
  refine ⟨ho.host ?_, ho.remote ?_⟩
  · intro hn
    have hlen : Socks4Request.size < c.requestBytes.length := h.complete
    rw [hn] at hlen
    cases hlen
  · rw [show c.replies = [.success] from h.replies]
    exact List.mem_singleton_self _

/-- A calm step of the host thread. -/
theorem Drained.handshake (h : c.Drained) (hf : c.Framed) (ho : c.Open)
    (hcalm : (ConnectionAction.host useCount out).Calm c)
    (hs : c.HandshakeSteps useCount out c') : c'.Drained := by
  cases hs with
  | relay hp hs =>
    rename_i point r
    simp only [Framed, hp] at hf
    obtain ⟨q, hq, hrelaying⟩ := hf
    have hopen := (ho.of_relaying hrelaying).1
    obtain ⟨⟨input, hin, hrel⟩, -⟩ := hrelaying
    have hcalm' : ∀ ec, out = .error ec → point = .read ∧ ec = .eof := by
      rintro ec rfl
      exact hcalm point (mem_hostPoint.mpr hp)
    obtain ⟨taken, given, -, hsent, hreceived, -, -⟩ := hs.relays hrel
    constructor
    · rintro ⟨p, hp', hm⟩
      obtain rfl : p = r.point := (Option.some.inj hp').symm
      obtain ⟨hsrc, hdst, hcase⟩ := hs.ended hopen hcalm' hm
      show r.src.incoming = [] ∧ r.dst.sent = r.src.received.drop c.requestBytes.length
      rw [hsrc, hdst]
      rcases hcase with hm' | ⟨rfl, hincoming⟩
      · exact h.host ⟨point, mem_hostPoint.mpr hp, hm'⟩
      · -- the loop met EOF at its read, with nothing left to write
        refine ⟨hincoming, hrel.output_eq.trans ?_⟩
        rw [show c.hostSocket.received = c.requestBytes ++ input from hin, List.drop_left]
    · intro hend
      obtain ⟨hincoming, hall⟩ := h.remote hend
      refine ⟨(congrArg Socket.incoming hs.dst_eq).trans hincoming, ?_⟩
      show r.src.sent = c.streams.replyBytes .success ++ r.dst.received
      rw [hsent, hreceived]
      exact hall
  | startRemote hp =>
    refine ⟨?_, ?_⟩ <;> rintro ⟨p, hp', hm⟩ <;> obtain rfl := Option.some.inj hp' <;>
      exact absurd trivial hm
  | endReply hp hw hr =>
    rename_i code rest n
    simp only [Framed, hp] at hf
    exact .of_not_relay (by cases code <;> rfl) hf.1
  | _ hp =>
    simp only [Framed, hp] at hf
    exact .of_not_relay rfl hf.1

/-- A calm step of the remote thread. -/
theorem Drained.receiveRemote {q : RelayPoint} {r : Relay} (h : c.Drained) (hf : c.Framed)
    (ho : c.Open) (hcalm : (ConnectionAction.remote useCount out).Calm c)
    (hq : c.remoteThread = .relay q)
    (hs : Relay.Steps useCount ⟨c.remoteSocket, c.hostSocket, c.remoteBuffer, q⟩ out r) :
    (c.relayedRemote r).Drained := by
  obtain ⟨point, hp, hrelaying⟩ := hf.exists_relaying hq
  have hopen := (ho.of_relaying hrelaying).2
  obtain ⟨-, ⟨output, hout, hrel⟩, -⟩ := hrelaying
  have hcalm' : ∀ ec, out = .error ec → q = .read ∧ ec = .eof := by
    rintro ec rfl
    exact hcalm q (mem_remotePoint.mpr hq)
  obtain ⟨taken, given, -, hsent, hreceived, -, -⟩ := hs.relays hrel
  constructor
  · intro hend
    obtain ⟨hincoming, hall⟩ := h.host hend
    refine ⟨(congrArg Socket.incoming hs.dst_eq).trans hincoming, ?_⟩
    show r.src.sent = r.dst.received.drop c.requestBytes.length
    rw [hsent, hreceived]
    exact hall
  · rintro ⟨p, hp', hm⟩
    obtain rfl : p = r.point := (Option.some.inj hp').symm
    obtain ⟨hsrc, hdst, hcase⟩ := hs.ended hopen hcalm' hm
    show r.src.incoming = [] ∧ r.dst.sent = c.streams.replyBytes .success ++ r.src.received
    rw [hsrc, hdst]
    rcases hcase with hm' | ⟨rfl, hincoming⟩
    · exact h.remote ⟨q, mem_remotePoint.mpr hq, hm'⟩
    · refine ⟨hincoming, hout.trans ?_⟩
      rw [hrel.output_eq]
      rfl

/-- **A calm step keeps complete what has ended**, until the destructor closes the sockets. -/
theorem Drained.steps (h : c.Drained) (hf : c.Framed) (ho : c.Open) (hcalm : a.Calm c)
    (hs : c.Steps a c') (hc : c'.BeforeClose) : c'.Drained := by
  cases hs with
  | accept hopen hd =>
    refine .of_not_relay ?_ ?_
    · by_contra hne
      obtain ⟨p, hp⟩ := Option.ne_none_iff_exists'.mp hne
      have hp' := mem_hostPoint.mp hp
      simp only [Framed, show c.hostThread = .relay p from hp'] at hf
      obtain ⟨q, -, hrelaying⟩ := hf
      cases hopen.symm.trans (ho.of_relaying hrelaying).1
    · cases hr : c.remoteThread with
      | idle => rfl
      | relay q =>
        obtain ⟨p, -, hrelaying⟩ := hf.exists_relaying hr
        cases hopen.symm.trans (ho.of_relaying hrelaying).1
  | start hp hd =>
    simp only [Framed, hp] at hf
    exact .of_not_relay rfl hf.1
  | host hu hs =>
    rename_i useCount out d
    obtain ⟨hhost, hremote⟩ := h.handshake hf ho hcalm hs
    obtain ⟨_, -, he⟩ := d.releaseHost_eq
    rw [he]
    exact ⟨hhost, hremote⟩
  | remote hu hq hs =>
    rename_i useCount out q r
    obtain ⟨hhost, hremote⟩ := h.receiveRemote hf ho hcalm hq hs
    obtain ⟨_, -, he⟩ := (c.relayedRemote r).releaseRemote_eq
    rw [he]
    exact ⟨hhost, hremote⟩
  | destroy hd => exact ⟨h.host, h.remote⟩
  | destructor hs => exact absurd hc hs.not_beforeClose

end SocksConnection

end LklSocks
