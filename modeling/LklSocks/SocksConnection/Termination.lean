import LklSocks.Machine.Progress
import LklSocks.SocksConnection.Joining
import LklSocks.SocksConnection.Threads

/-!
# The destructor terminates

The destructor closes the sockets and joins the threads. From then on a loop cannot both read and
write: the host socket is closed, so `receiveHost` reads nothing any more, and `receiveRemote`
writes nothing, even if the host thread opens the remote socket late. What the threads have still to
do is bounded, and a thread that is not over never waits for the destructor.

## Main definitions

* `SocksConnection.weight`: the steps that are left when the host socket is closed
* `SocksConnection.Shut`, `SocksConnection.Deaf`: the host socket is closed, or both sockets
* `Outcome.Local`, `ConnectionAction.Local`: the steps that need nothing from a peer

## Main results

* `SocksConnection.Shut.steps`: every step makes the weight smaller
* `SocksConnection.exists_step`: as long as the destructor is not done there is a step
* `SocksConnection.destructor_terminates`: the runs after the destructor has closed the sockets
-/

namespace LklSocks

/-! ## What is left to do -/

/-- The steps that a call of `stopConnection` has still to make. -/
def StopCall.weight : StopCall → ℕ
  | argument => 2
  | posted => 1
  | destroying => 0
  | done => 0

/-- The steps that a relay loop has still to make, of which `atRead` are those from a read on. -/
def RelayPoint.weight (atRead : ℕ) (buf : Buffer) : RelayPoint → ℕ
  | read => atRead
  | write length written => (buf.pending length written).length + 6
  | caught _ => 4
  | share => 3
  | stop call => call.weight
  | returned => 0

/-- The weight of a read of `receiveHost`, which fails. -/
def hostRead : ℕ := 5

/-- The weight of a read of `receiveRemote`, which may get one chunk that is not written. -/
def remoteRead : ℕ := bufferSize + 7

/-- The steps that the host thread has still to make. -/
def HostPoint.weight (buf : Buffer) : HostPoint → ℕ
  | idle => 0
  | readHeader _ => 4
  | readUserdata _ _ => 4
  | openRemote _ => 6
  | connectRemote _ => 5
  | writeReply _ _ => 4
  -- the remote thread that is started has steps of its own
  | startRemote => hostRead + remoteRead + 1
  | relay point => point.weight hostRead buf
  | catchAll => 3
  | stop call => call.weight
  | escaped => 0

def RemotePoint.weight (buf : Buffer) : RemotePoint → ℕ
  | idle => 0
  | relay point => point.weight remoteRead buf

/-- The steps of the destructor after the closing of the sockets. -/
def DtorPoint.weight : DtorPoint → ℕ
  | joinHost => 3
  | joinRemote => 2
  | members => 1
  | _ => 0

/-- The destructor has closed both sockets. -/
def DtorPoint.AfterClose : DtorPoint → Prop
  | closeRemote => False
  | closeHost => False
  | _ => True

theorem StopCall.weight_lt {useCount : ℕ} {call next : StopCall}
    (h : call.next useCount = some next) : next.weight < call.weight := by
  cases call with
  | argument =>
    obtain rfl := Option.some.inj h
    exact Nat.lt_succ_self 1
  | posted =>
    obtain rfl := Option.some.inj h
    split <;> exact Nat.zero_lt_one
  | destroying => cases h
  | done => cases h

theorem StopCall.weight_le (call : StopCall) : call.weight ≤ 2 := by cases call <;> decide

theorem RelayPoint.weight_le {n : ℕ} (p : RelayPoint) (buf : Buffer) (hn : n ≤ bufferSize + 7) :
    p.weight n buf ≤ bufferSize + 7 := by
  cases p with
  | read => exact hn
  | write length written =>
    have hlength := buf.length_eq
    have hle : (buf.pending length written).length ≤ bufferSize := by
      rw [Buffer.pending, List.length_drop, List.length_take]
      omega
    exact Nat.add_le_add hle (by decide)
  | caught ec => exact Nat.le_add_left_of_le (show 4 ≤ 7 by decide)
  | share => exact Nat.le_add_left_of_le (show 3 ≤ 7 by decide)
  | stop call => exact Nat.le_add_left_of_le (call.weight_le.trans (by decide))
  | returned => exact Nat.zero_le _

theorem HostPoint.weight_le (p : HostPoint) (buf : Buffer) : p.weight buf ≤ bufferSize + 13 := by
  cases p with
  | relay point =>
    exact (point.weight_le buf (show 5 ≤ _ by omega)).trans (Nat.add_le_add_left (by decide) _)
  | startRemote =>
    show 5 + (bufferSize + 7) + 1 ≤ _
    omega
  | stop call => exact Nat.le_add_left_of_le (call.weight_le.trans (by decide))
  | idle => exact Nat.zero_le _
  | escaped => exact Nat.zero_le _
  | openRemote request => exact Nat.le_add_left_of_le (show 6 ≤ 13 by decide)
  | connectRemote request => exact Nat.le_add_left_of_le (show 5 ≤ 13 by decide)
  | catchAll => exact Nat.le_add_left_of_le (show 3 ≤ 13 by decide)
  | _ => exact Nat.le_add_left_of_le (show 4 ≤ 13 by decide)

theorem RemotePoint.weight_le (p : RemotePoint) (buf : Buffer) :
    p.weight buf ≤ bufferSize + 7 := by
  cases p with
  | idle => exact Nat.zero_le _
  | relay point => exact point.weight_le buf le_rfl

theorem DtorPoint.weight_le (p : DtorPoint) : p.weight ≤ 3 := by cases p <;> decide

theorem Buffer.length_pending_add (b : Buffer) (length written n : ℕ) :
    (b.pending length (written + n)).length = (b.pending length written).length - n := by
  rw [pending, pending, List.length_drop, List.length_drop, Nat.sub_sub]

/-- A loop that cannot read, or cannot write, comes to its end. -/
theorem Relay.Steps.weight_lt {useCount n : ℕ} {r r' : Relay} {out : Outcome}
    (hs : r.Steps useCount out r') (hn : 4 < n) (hread : r.src.isOpen = true → bufferSize + 6 < n)
    (hwrite : r.dst.isOpen = true → n < 7) :
    r'.point.weight n r'.buf < r.point.weight n r.buf := by
  cases hs with
  | @read bs hp hr hb =>
    have hlt := hread hr.1
    rw [hp]
    show ((r.buf.fill bs hb).pending bs.length 0).length + 6 < n
    rw [Buffer.pending_fill]
    omega
  | readError hp hf =>
    rw [hp]
    exact hn
  | @write length written k hp hw =>
    obtain ⟨hopen, hpos, hle⟩ := hw
    have hlt := hwrite hopen
    rw [hp]
    dsimp only
    split
    · show n < (r.buf.pending length written).length + 6
      omega
    · show (r.buf.pending length (written + k)).length + 6 <
        (r.buf.pending length written).length + 6
      rw [Buffer.length_pending_add]
      omega
  | writeError hp =>
    rw [hp]
    show 4 < _ + 6
    omega
  | eof hp =>
    rw [hp]
    exact Nat.lt_succ_self 3
  | silent hp he =>
    rw [hp]
    exact Nat.zero_lt_succ 3
  | expired hp hu =>
    rw [hp]
    exact Nat.zero_lt_succ 2
  | share hp hu =>
    rw [hp]
    exact Nat.lt_succ_self 2
  | stop hp hc =>
    rw [hp]
    exact StopCall.weight_lt hc

/-! ## Steps that need no peer -/

/-- The call returns nothing that comes from a peer. -/
def Outcome.Local : Outcome → Prop
  | ok => True
  | error _ => True
  | _ => False

/-- The step needs nothing from a peer. -/
def ConnectionAction.Local : ConnectionAction → Prop
  | host _ out => out.Local
  | remote _ out => out.Local
  | destructor => True
  | _ => False

/-- A call of `stopConnection` that does not run the destructor goes on or has returned. -/
theorem StopCall.exists_next (useCount : ℕ) {call : StopCall} (hd : call ≠ destroying)
    (hf : call ≠ done) : ∃ next, call.next useCount = some next := by
  cases call with
  | argument => exact ⟨_, rfl⟩
  | posted => exact ⟨_, rfl⟩
  | destroying => exact absurd rfl hd
  | done => exact absurd rfl hf

/-- A relay loop that has not returned has a step, because its calls can fail. -/
theorem Relay.exists_step (useCount : ℕ) {r : Relay} (hf : ¬ r.point.Finished)
    (hd : r.point.call ≠ some .destroying) :
    ∃ out r', out.Local ∧ r.step useCount out = some r' := by
  obtain ⟨src, dst, buf, point⟩ := r
  have herror : src.CanFail .connectionReset := ⟨by decide, fun h => by cases h⟩
  cases point with
  | read => exact ⟨.error .connectionReset, _, trivial, if_pos (e := none) herror⟩
  | write length written => exact ⟨.error .connectionReset, _, trivial, rfl⟩
  | caught ec => exact ⟨.ok, _, trivial, rfl⟩
  | share => exact ⟨.ok, _, trivial, rfl⟩
  | stop call =>
    obtain ⟨next, hn⟩ := call.exists_next useCount (fun h => hd (congrArg some h)) hf
    exact ⟨.ok, _, trivial, congrArg (Option.map _) hn⟩
  | returned => exact absurd trivial hf

/-- A loop with closed sockets hears nothing from a peer. -/
theorem Relay.Steps.isLocal {useCount : ℕ} {r r' : Relay} {out : Outcome}
    (hs : r.Steps useCount out r')
    (hsrc : r.src.isOpen = false) (hdst : r.dst.isOpen = false) : out.Local := by
  cases hs with
  | read hp hr hb => cases hsrc.symm.trans hr.1
  | write hp hw => cases hdst.symm.trans hw.1
  | _ => trivial

namespace SocksConnection

variable {c c' : SocksConnection} {a : ConnectionAction} {out : Outcome}

/-- The steps that the threads and the destructor have still to make when the host socket is
closed. -/
def weight (c : SocksConnection) : ℕ :=
  c.hostThread.weight c.hostBuffer + c.remoteThread.weight c.remoteBuffer +
    c.destructor.elim 0 fun d => d.2.weight

/-- The destructor has closed the sockets. The remote socket may have been opened again. -/
structure Shut (c : SocksConnection) : Prop where
  socket : c.hostSocket.isOpen = false
  destructor : ∃ d ∈ c.destructor, d.2.AfterClose

/-- The weight is bounded by the sizes of the two buffers. -/
theorem weight_le (c : SocksConnection) : c.weight ≤ 2 * bufferSize + 23 := by
  have hhost := c.hostThread.weight_le c.hostBuffer
  have hremote := c.remoteThread.weight_le c.remoteBuffer
  have hdtor : (c.destructor.elim 0 fun d => d.2.weight) ≤ 3 := by
    cases c.destructor with
    | none => exact Nat.zero_le 3
    | some d => exact d.2.weight_le
  unfold weight
  omega

theorem weight_lt_of_host
    (hh : c'.hostThread.weight c'.hostBuffer < c.hostThread.weight c.hostBuffer)
    (hr : c'.remoteThread = c.remoteThread) (hb : c'.remoteBuffer = c.remoteBuffer)
    (hd : c'.destructor = c.destructor) : c'.weight < c.weight := by
  unfold weight
  rw [hr, hb, hd]
  omega

/-- The host thread comes to its end when the host socket is closed. -/
theorem HandshakeSteps.weight_lt {useCount : ℕ} (hs : c.HandshakeSteps useCount out c')
    (h : c.hostSocket.isOpen = false) : c'.weight < c.weight := by
  have hread {bs : List UInt8} (hr : c.hostSocket.CanRead bs) : False := by
    cases h.symm.trans hr.1
  have hwrite {bs : List UInt8} {n : ℕ} (hw : c.hostSocket.CanWrite bs n) : False := by
    cases h.symm.trans hw.1
  have hhost {p : HostPoint} {c' : SocksConnection} (hp : c.hostThread = p)
      (hlt : c'.hostThread.weight c'.hostBuffer < p.weight c.hostBuffer)
      (hr : c'.remoteThread = c.remoteThread) (hb : c'.remoteBuffer = c.remoteBuffer)
      (hd : c'.destructor = c.destructor) : c'.weight < c.weight :=
    weight_lt_of_host (hp ▸ hlt) hr hb hd
  cases hs with
  | readHeader hp hr hs => exact (hread hr).elim
  | endHeader hp hr hs => exact (hread hr).elim
  | readUserdata hp hr => exact (hread hr).elim
  | writeReply hp hw hr => exact (hwrite hw).elim
  | endReply hp hw hr => exact (hwrite hw).elim
  | startRemote hp =>
    have hstart : c.hostThread.weight c.hostBuffer = hostRead + remoteRead + 1 := by
      rw [hp]
      rfl
    unfold weight
    rw [hstart]
    show hostRead + remoteRead + (c.destructor.elim 0 fun d => d.2.weight) <
      hostRead + remoteRead + 1 + _ + _
    omega
  | relay hp hs =>
    refine hhost hp ?_ rfl rfl rfl
    refine hs.weight_lt (by decide) (fun hopen => ?_) fun _ => by decide
    cases h.symm.trans hopen
  | stop hp hc => exact hhost hp (StopCall.weight_lt hc) rfl rfl rfl
  | headerError hp hf => exact hhost hp (show 3 < 4 by decide) rfl rfl rfl
  | userdataError hp hf => exact hhost hp (show 3 < 4 by decide) rfl rfl rfl
  | openRemote hp => exact hhost hp (show 5 < 6 by decide) rfl rfl rfl
  | openError hp => exact hhost hp (show 4 < 6 by decide) rfl rfl rfl
  | connected hp ho => exact hhost hp (show 4 < 5 by decide) rfl rfl rfl
  | connectError hp => exact hhost hp (show 4 < 5 by decide) rfl rfl rfl
  | replyError hp => exact hhost hp (show 3 < 4 by decide) rfl rfl rfl
  | startError hp => exact hhost hp (show 3 < hostRead + remoteRead + 1 by decide) rfl rfl rfl
  | expired hp hu => exact hhost hp (show 0 < 3 by decide) rfl rfl rfl
  | share hp hu => exact hhost hp (show 2 < 3 by decide) rfl rfl rfl

/-- The remote thread comes to its end when the host socket is closed. -/
theorem weight_relayedRemote_lt {useCount : ℕ} {point : RelayPoint} {r : Relay}
    (hp : c.remoteThread = .relay point)
    (hs : Relay.Steps useCount ⟨c.remoteSocket, c.hostSocket, c.remoteBuffer, point⟩ out r)
    (h : c.hostSocket.isOpen = false) : (c.relayedRemote r).weight < c.weight := by
  have hlt : r.point.weight remoteRead r.buf < point.weight remoteRead c.remoteBuffer := by
    refine hs.weight_lt (by decide) (fun _ => by decide) fun hopen => ?_
    cases h.symm.trans hopen
  have hremote : c.remoteThread.weight c.remoteBuffer =
      point.weight remoteRead c.remoteBuffer := by
    rw [hp]
    rfl
  unfold weight
  rw [hremote]
  show _ + r.point.weight remoteRead r.buf + _ < _
  exact Nat.add_lt_add_right (Nat.add_lt_add_left hlt _) _

/-- The host thread leaves the host socket as it is. -/
theorem HandshakeSteps.hostSocket_isOpen {useCount : ℕ} (hs : c.HandshakeSteps useCount out c') :
    c'.hostSocket.isOpen = c.hostSocket.isOpen := by
  cases hs with
  | relay hp hs => exact hs.src_isOpen
  | _ => rfl

/-- After the closing of the sockets the destructor comes nearer to its end. -/
theorem DestroySteps.weight_lt {runner : Runner} (hs : c.DestroySteps runner c')
    (h : ∃ d ∈ c.destructor, d.2.AfterClose) :
    c'.weight < c.weight ∧ ∃ d ∈ c'.destructor, d.2.AfterClose := by
  have hweight {p : DtorPoint} (q : DtorPoint) (hd : c.destructor = some (runner, p))
      (hlt : q.weight < p.weight) :
      c.hostThread.weight c.hostBuffer + c.remoteThread.weight c.remoteBuffer + q.weight <
        c.weight := by
    unfold weight
    rw [hd]
    exact Nat.add_lt_add_left hlt _
  obtain ⟨e, he, hafter⟩ := h
  cases hs with
  | closeRemote hd =>
    obtain rfl := Option.some.inj (hd.symm.trans he)
    exact hafter.elim
  | closeHost hd =>
    obtain rfl := Option.some.inj (hd.symm.trans he)
    exact hafter.elim
  | joinOwnHost hd hj hr => exact ⟨hweight .members hd (by decide), _, rfl, trivial⟩
  | joinHost hd hj hr hf => exact ⟨hweight .joinRemote hd (by decide), _, rfl, trivial⟩
  | skipHost hd hj => exact ⟨hweight .joinRemote hd (by decide), _, rfl, trivial⟩
  | joinOwnRemote hd hj hr => exact ⟨hweight .members hd (by decide), _, rfl, trivial⟩
  | joinRemote hd hj hr hf => exact ⟨hweight .members hd (by decide), _, rfl, trivial⟩
  | skipRemote hd hj => exact ⟨hweight .members hd (by decide), _, rfl, trivial⟩
  | terminate hd hj => exact ⟨hweight .aborted hd (by decide), _, rfl, trivial⟩
  | members hd hh hr => exact ⟨hweight .done hd (by decide), _, rfl, trivial⟩

/-- The destructor opens no socket. -/
theorem DestroySteps.hostSocket_isOpen {runner : Runner} (hs : c.DestroySteps runner c')
    (h : c.hostSocket.isOpen = false) : c'.hostSocket.isOpen = false := by
  cases hs with
  | closeHost hd => rfl
  | members hd hh hr => rfl
  | _ hd => exact h

/-- **Every step makes the weight smaller** once the destructor has closed the sockets. -/
theorem Shut.steps (h : c.Shut) (hf : c.Framed) (hs : c.Steps a c') :
    c'.Shut ∧ c'.weight < c.weight := by
  obtain ⟨hsocket, d, hd, hafter⟩ := h
  have hne : c.destructor ≠ none := by
    rw [hd]
    intro h
    cases h
  cases hs with
  | accept ho hd' => exact absurd hd' hne
  | start hp hd' => exact absurd hd' hne
  | @host useCount out e hu hs =>
    obtain rfl := hu.resolve_left hne
    -- without a reference the destructor does not start again
    obtain ⟨hcall, -, hdtor⟩ := hs.call hf
    rw [releaseHost_of_ne hcall.ne_destroying]
    exact ⟨⟨hs.hostSocket_isOpen.trans hsocket, d, hdtor ▸ hd, hafter⟩, hs.weight_lt hsocket⟩
  | @remote useCount out point r hu hp hs =>
    obtain rfl := hu.resolve_left hne
    have hcall := remoteStep_call hp hs
    rw [releaseRemote_of_ne hcall.ne_destroying]
    refine ⟨⟨?_, d, hd, hafter⟩, weight_relayedRemote_lt hp hs hsocket⟩
    show r.dst.isOpen = false
    rw [hs.dst_eq]
    exact hsocket
  | destroy hd' => exact absurd hd' hne
  | destructor hs =>
    obtain ⟨hlt, hafter'⟩ := hs.weight_lt ⟨d, hd, hafter⟩
    exact ⟨⟨hs.hostSocket_isOpen hsocket, hafter'⟩, hlt⟩

/-! ## Closed sockets -/

/-- No step opens the host socket again. -/
theorem Steps.hostSocket_closed (hf : c.Framed) (hs : c.Steps a c')
    (ih : (∃ d ∈ c.destructor, d.2.AfterClose) → c.hostSocket.isOpen = false)
    (h : ∃ d ∈ c'.destructor, d.2.AfterClose) : c'.hostSocket.isOpen = false := by
  obtain ⟨d, hd, hafter⟩ := h
  cases hs with
  | accept ho hd' => cases hd'.symm.trans hd
  | start hp hd' => cases hd'.symm.trans hd
  | @host useCount out e hu hs =>
    obtain ⟨-, -, hdtor⟩ := hs.call hf
    obtain ⟨x, hx, he⟩ := e.releaseHost_eq
    rw [he] at hd ⊢
    rcases hx with rfl | rfl
    · exact hs.hostSocket_isOpen.trans (ih ⟨d, hdtor ▸ hd, hafter⟩)
    · obtain rfl := Option.some.inj hd
      exact hafter.elim
  | @remote useCount out point r hu hp hs =>
    obtain ⟨x, hx, he⟩ := (c.relayedRemote r).releaseRemote_eq
    rw [he] at hd ⊢
    rcases hx with rfl | rfl
    · show r.dst.isOpen = false
      rw [hs.dst_eq]
      exact ih ⟨d, hd, hafter⟩
    · obtain rfl := Option.some.inj hd
      exact hafter.elim
  | destroy hd' =>
    obtain rfl := Option.some.inj hd
    exact hafter.elim
  | destructor hs =>
    cases hs with
    | closeRemote hd' =>
      obtain rfl := Option.some.inj hd
      exact hafter.elim
    | closeHost hd' => rfl
    | members hd' hh hr => rfl
    | _ hd' => exact ih ⟨_, hd', trivial⟩

/-- A destructor that has closed the sockets leaves the host socket closed. -/
theorem shut (h : machine.Reachable c) (hd : ∃ d ∈ c.destructor, d.2.AfterClose) : c.Shut := by
  refine ⟨?_, hd⟩
  refine h.invariant (P := fun c => (∃ d ∈ c.destructor, d.2.AfterClose) →
    c.hostSocket.isOpen = false) ?_ ?_ hd
  · rintro _ ⟨order, alloc, rfl⟩ ⟨d, hd, -⟩
    cases hd
  · intro c a c' hr ih hs
    exact (step_cases hs).hostSocket_closed (framed hr) ih

/-! ## Nothing waits for the destructor -/

/-- A thread that stands in its call with the destructor is the one that runs it. -/
structure Runs (c : SocksConnection) : Prop where
  host : c.hostThread.call = some .destroying → ∃ p, c.destructor = some (.host, p)
  remote : c.remoteThread.call = some .destroying → ∃ p, c.destructor = some (.remote, p)

theorem DestroySteps.runner {runner r : Runner} {p : DtorPoint} (hs : c.DestroySteps runner c')
    (hd : c.destructor = some (r, p)) : ∃ q, c'.destructor = some (r, q) := by
  cases hs with
  | _ hd' =>
    obtain ⟨rfl, -⟩ := Prod.mk.inj (Option.some.inj (hd.symm.trans hd'))
    exact ⟨_, rfl⟩

theorem Runs.steps (h : c.Runs) (hf : c.Framed) (hs : c.Steps a c') : c'.Runs := by
  obtain ⟨hhost, hremote⟩ := h
  have hnone {r : Runner} (hd : c.destructor = none) (hp : ∃ p, c.destructor = some (r, p)) :
      False := by
    obtain ⟨p, hp⟩ := hp
    cases hd.symm.trans hp
  cases hs with
  | accept ho hd => exact ⟨hhost, hremote⟩
  | start hp hd =>
    refine ⟨fun hc => ?_, hremote⟩
    cases hc
  | @host useCount out e hu hs =>
    obtain ⟨hcall, hr, hdtor⟩ := hs.call hf
    unfold releaseHost
    split
    · next hlast =>
      -- the reference that is released was the last one, so no destructor was running
      rw [hlast] at hcall
      have hd := hu.resolve_right (by rw [hcall.destroying.2]; exact Nat.one_ne_zero)
      exact ⟨fun _ => ⟨_, rfl⟩, fun hc => (hnone hd (hremote (hr ▸ hc))).elim⟩
    · next hlast =>
      exact ⟨fun hc => absurd hc hlast, fun hc => hdtor ▸ hremote (hr ▸ hc)⟩
  | @remote useCount out point r hu hp hs =>
    have hcall := remoteStep_call hp hs
    unfold releaseRemote
    split
    · next hlast =>
      rw [hlast] at hcall
      have hd := hu.resolve_right (by rw [hcall.destroying.2]; exact Nat.one_ne_zero)
      exact ⟨fun hc => (hnone hd (hhost hc)).elim, fun _ => ⟨_, rfl⟩⟩
    · next hlast => exact ⟨hhost, fun hc => absurd hc hlast⟩
  | destroy hd =>
    exact ⟨fun hc => (hnone hd (hhost hc)).elim, fun hc => (hnone hd (hremote hc)).elim⟩
  | destructor hs =>
    obtain ⟨hh, hr⟩ := hs.threads
    refine ⟨fun hc => ?_, fun hc => ?_⟩
    · obtain ⟨p, hp⟩ := hhost (hh ▸ hc)
      exact hs.runner hp
    · obtain ⟨p, hp⟩ := hremote (hr ▸ hc)
      exact hs.runner hp

theorem runs (h : machine.Reachable c) : c.Runs := by
  refine h.invariant (P := Runs) ?_ ?_
  · rintro _ ⟨order, alloc, rfl⟩
    constructor
    · intro hc
      cases hc
    · intro hc
      cases hc
  · intro c a c' hr ih hs
    exact ih.steps (framed hr) (step_cases hs)

/-- A host thread that is neither over nor runs the destructor has a step, because its calls can
fail. -/
theorem exists_hostStep (useCount : ℕ) (ho : ¬ c.HostOver) (he : c.hostThread ≠ .escaped)
    (hd : c.hostThread.call ≠ some .destroying) :
    ∃ out d, out.Local ∧ c.hostStep useCount out = some d := by
  suffices hs : ∃ out d, out.Local ∧ c.handshake useCount out = some d by
    obtain ⟨out, d, hl, hs⟩ := hs
    exact ⟨out, _, hl, congrArg (Option.map releaseHost) hs⟩
  have herror : c.hostSocket.CanFail .connectionReset := ⟨by decide, fun h => by cases h⟩
  unfold handshake
  cases hp : c.hostThread with
  | idle => exact absurd (.inl hp) ho
  | readHeader header => exact ⟨.error .connectionReset, _, trivial, if_pos herror⟩
  | readUserdata header userdata => exact ⟨.error .connectionReset, _, trivial, if_pos herror⟩
  | openRemote request => exact ⟨.ok, _, trivial, rfl⟩
  | connectRemote request => exact ⟨.error .connectionReset, _, trivial, rfl⟩
  | writeReply code rest => exact ⟨.error .connectionReset, _, trivial, rfl⟩
  | startRemote => exact ⟨.ok, _, trivial, rfl⟩
  | relay point =>
    rw [hp] at hd
    have hf : ¬ point.Finished := fun hf => ho (.inr (by rw [hp]; exact hf))
    obtain ⟨out, r, hl, hs⟩ := Relay.exists_step useCount (r := ⟨c.hostSocket, c.remoteSocket,
      c.hostBuffer, point⟩) hf hd
    exact ⟨out, _, hl, congrArg (Option.map c.relayedHost) hs⟩
  | catchAll => exact ⟨.ok, _, trivial, rfl⟩
  | stop call =>
    rw [hp] at hd
    obtain ⟨next, hn⟩ := call.exists_next useCount (fun h => hd (congrArg some h))
      (fun hf => ho (.inr (by rw [hp]; exact hf)))
    exact ⟨.ok, _, trivial, congrArg (Option.map _) hn⟩
  | escaped => exact absurd hp he

theorem exists_remoteStep (useCount : ℕ) (ho : ¬ c.RemoteOver)
    (hd : c.remoteThread.call ≠ some .destroying) :
    ∃ out d, out.Local ∧ c.remoteStep useCount out = some d := by
  suffices hs : ∃ out d, out.Local ∧ c.receiveRemote useCount out = some d by
    obtain ⟨out, d, hl, hs⟩ := hs
    exact ⟨out, _, hl, congrArg (Option.map releaseRemote) hs⟩
  unfold receiveRemote
  cases hp : c.remoteThread with
  | idle => exact absurd (.inl hp) ho
  | relay point =>
    rw [hp] at hd
    have hf : ¬ point.Finished := fun hf => ho (.inr (by rw [hp]; exact hf))
    obtain ⟨out, r, hl, hs⟩ := Relay.exists_step useCount (r := ⟨c.remoteSocket, c.hostSocket,
      c.remoteBuffer, point⟩) hf hd
    exact ⟨out, _, hl, congrArg (Option.map c.relayedRemote) hs⟩

/-- **Nothing waits for the destructor**: where the destructor has no step of its own, the thread
that it joins has one. -/
theorem exists_step (hr : c.Runs) {runner : Runner} {point : DtorPoint}
    (hd : c.destructor = some (runner, point)) (hm : point ≠ .done) (ha : point ≠ .aborted)
    (he : c.hostThread ≠ .escaped) : ∃ a d, a.Local ∧ c.step a = some d := by
  have hrun {d : SocksConnection} (hs : c.destroyStep = some d) :
      ∃ a d, a.Local ∧ c.step a = some d := ⟨.destructor, d, trivial, hs⟩
  unfold destroyStep at hrun
  rw [hd] at hrun
  cases point with
  | closeRemote => exact hrun rfl
  | closeHost => exact hrun rfl
  | joinHost =>
    by_cases hj : c.hostJoinable
    · by_cases hown : runner = .host
      · exact hrun ((if_pos hj).trans (if_pos hown))
      · by_cases hf : c.hostThread.Finished
        · exact hrun ((if_pos hj).trans ((if_neg hown).trans (if_pos hf)))
        · have hnot : ¬ c.HostOver := fun ho => ho.elim hj.1 hf
          obtain ⟨out, d, hl, hs⟩ := exists_hostStep 0 hnot he fun hcall => by
            obtain ⟨p, hp⟩ := hr.host hcall
            cases hd.symm.trans hp
            exact hown rfl
          exact ⟨.host 0 out, d, hl, (if_pos (.inr rfl)).trans hs⟩
    · exact hrun (if_neg hj)
  | joinRemote =>
    by_cases hj : c.remoteJoinable
    · by_cases hown : runner = .remote
      · exact hrun ((if_pos hj).trans (if_pos hown))
      · by_cases hf : c.remoteThread.Finished
        · exact hrun ((if_pos hj).trans ((if_neg hown).trans (if_pos hf)))
        · obtain ⟨out, d, hl, hs⟩ := exists_remoteStep 0 (fun ho => ho.elim hj.1 hf) fun hcall => by
            obtain ⟨p, hp⟩ := hr.remote hcall
            cases hd.symm.trans hp
            exact hown rfl
          exact ⟨.remote 0 out, d, hl, (if_pos (.inr rfl)).trans hs⟩
    · exact hrun (if_neg hj)
  | members =>
    by_cases hj : c.hostJoinable ∨ c.remoteJoinable
    · exact hrun (if_pos hj)
    · exact hrun (if_neg hj)
  | done => exact absurd rfl hm
  | aborted => exact absurd rfl ha

/-- Both sockets are closed, and the host thread is past the opening of the remote socket. -/
structure Deaf (c : SocksConnection) : Prop extends c.Shut where
  remote : c.remoteSocket.isOpen = false
  opened : ∀ request, c.hostThread ≠ .openRemote request

/-- A connection with closed sockets hears nothing from a peer. -/
theorem Deaf.steps (h : c.Deaf) (hf : c.Framed) (hs : c.Steps a c') : a.Local ∧ c'.Deaf := by
  obtain ⟨hsocket, d, hd, hafter⟩ := h.toShut
  have hshut := (h.toShut.steps hf hs).1
  have hne {p : Prop} (hd' : c.destructor = none) : p := by cases hd'.symm.trans hd
  have hread {bs : List UInt8} {p : Prop} (hr : c.hostSocket.CanRead bs) : p := by
    cases hsocket.symm.trans hr.1
  have hwrite {bs : List UInt8} {n : ℕ} {p : Prop} (hw : c.hostSocket.CanWrite bs n) : p := by
    cases hsocket.symm.trans hw.1
  cases hs with
  | accept ho hd' => exact hne hd'
  | start hp hd' => exact hne hd'
  | @host useCount out e hu hs =>
    suffices out.Local ∧ e.remoteSocket.isOpen = false ∧
        ∀ request, e.hostThread ≠ .openRemote request by
      obtain ⟨x, -, he⟩ := e.releaseHost_eq
      rw [he] at hshut ⊢
      exact ⟨this.1, hshut, this.2.1, this.2.2⟩
    cases hs with
    | readHeader hp hr hs => exact hread hr
    | endHeader hp hr hs => exact hread hr
    | readUserdata hp hr => exact hread hr
    | openRemote hp => exact absurd hp (h.opened _)
    | connected hp ho => cases h.remote.symm.trans ho
    | writeReply hp hw hr => exact hwrite hw
    | endReply hp hw hr => exact hwrite hw
    | relay hp hs =>
      refine ⟨hs.isLocal hsocket h.remote, ?_, fun request hr => by cases hr⟩
      exact (congrArg Socket.isOpen hs.dst_eq).trans h.remote
    | _ => exact ⟨trivial, h.remote, fun request hr => by cases hr⟩
  | @remote useCount out point r hu hp hs =>
    obtain ⟨x, -, he⟩ := (c.relayedRemote r).releaseRemote_eq
    rw [he] at hshut ⊢
    exact ⟨hs.isLocal h.remote hsocket, hshut, hs.src_isOpen.trans h.remote, h.opened⟩
  | destroy hd' => exact hne hd'
  | destructor hs =>
    refine ⟨trivial, hshut, ?_, fun request => hs.threads.1 ▸ h.opened request⟩
    cases hs with
    | closeRemote hd' => rfl
    | members hd' hh hr => rfl
    | _ hd' => exact h.remote

/-- The threads leave a destructor alone that has started. -/
theorem Steps.destructor_eq (hf : c.Framed) (hs : c.Steps a c') (hne : c.destructor ≠ none) :
    a = .destructor ∨ c'.destructor = c.destructor := by
  cases hs with
  | accept ho hd => exact absurd hd hne
  | start hp hd => exact absurd hd hne
  | host hu hs =>
    obtain rfl := hu.resolve_left hne
    obtain ⟨hcall, -, hdtor⟩ := hs.call hf
    rw [releaseHost_of_ne hcall.ne_destroying]
    exact .inr hdtor
  | remote hu hp hs =>
    obtain rfl := hu.resolve_left hne
    rw [releaseRemote_of_ne (remoteStep_call hp hs).ne_destroying]
    exact .inr rfl
  | destroy hd => exact absurd hd hne
  | destructor hs => exact .inl rfl

/-- The thread that runs the destructor stays the same. -/
theorem Steps.runner_eq {runner : Runner} {p : DtorPoint} (hf : c.Framed) (hs : c.Steps a c')
    (hd : c.destructor = some (runner, p)) : ∃ q, c'.destructor = some (runner, q) := by
  rcases hs.destructor_eq hf (by rw [hd]; exact Option.some_ne_none _) with rfl | he
  · cases hs with
    | destructor hs => exact hs.runner hd
  · exact ⟨p, he.trans hd⟩

/-- The end of a destructor that has no step any more. -/
theorem eq_done_of_stuck (hr : machine.Reachable c) (hs : machine.Stuck c) {runner : Runner}
    {point : DtorPoint} (hd : c.destructor = some (runner, point))
    (he : c.hostThread ≠ .escaped) : point = if runner = .main then .done else .aborted := by
  have hclosing := closing hr
  unfold Closing at hclosing
  rw [hd] at hclosing
  have hend : point = .done ∨ point = .aborted := by
    by_contra hne
    obtain ⟨hm, ha⟩ := not_or.mp hne
    obtain ⟨a, d, -, hstep⟩ := exists_step (runs hr) hd hm ha he
    cases (hs a).symm.trans hstep
  cases runner with
  | main =>
    refine hend.resolve_right ?_
    rintro rfl
    exact hclosing.2.2
  | host => exact hend.resolve_left hclosing.2.2
  | remote => exact hend.resolve_left hclosing.2.2

/-- **The destructor terminates.** Once the destructor has closed the sockets, in any run of the
connection, a continuation has at most `2 * bufferSize + 23` steps. Where it cannot go on, the main
thread has completed the destructor, a thread of the connection that ran it has aborted the program,
or an exception has left `handshake`. And unless the host thread opens the remote socket again, no
step waits for a peer. -/
theorem destructor_terminates {runner : Runner} {point : DtorPoint} {as : List ConnectionAction}
    (h : machine.Reachable c) (hd : c.destructor = some (runner, point)) (ha : point.AfterClose)
    (he : machine.exec c as = some c') :
    as.length ≤ 2 * bufferSize + 23 ∧
    (machine.Stuck c' → c'.hostThread = .escaped ∨
      c'.destructor = some (runner, if runner = .main then .done else .aborted)) ∧
    (c.remoteSocket.isOpen = false → (∀ request, c.hostThread ≠ .openRemote request) →
      ∀ a ∈ as, a.Local) := by
  have hshut := shut h ⟨_, hd, ha⟩
  refine ⟨?_, fun hstuck => ?_, fun hclosed hopened => ?_⟩
  · obtain ⟨-, hle⟩ := Machine.length_le_of_decreases
      (P := fun c => machine.Reachable c ∧ c.Shut) (μ := weight)
      (fun c a d hc hs => by
        obtain ⟨hd, hlt⟩ := hc.2.steps (framed hc.1) (step_cases hs)
        exact ⟨⟨hc.1.step hs, hd⟩, hlt⟩) ⟨h, hshut⟩ he
    exact (Nat.le_of_add_right_le hle).trans c.weight_le
  · refine or_iff_not_imp_left.mpr fun hne => ?_
    have hrunner : ∃ q, c'.destructor = some (runner, q) := by
      refine machine.exec_induction (P := fun _ d => ∃ q, d.destructor = some (runner, q))
        ⟨point, hd⟩ ?_ he
      rintro as d a e hc ⟨q, hq⟩ hs
      exact (step_cases hs).runner_eq (framed (h.exec hc)) hq
    obtain ⟨q, hq⟩ := hrunner
    rw [hq, eq_done_of_stuck (h.exec he) hstuck hq hne]
  · have hdeaf : c'.Deaf ∧ ∀ a ∈ as, a.Local := by
      refine machine.exec_induction (P := fun as d => d.Deaf ∧ ∀ a ∈ as, a.Local)
        ⟨⟨hshut, hclosed, hopened⟩, fun a ha => absurd ha List.not_mem_nil⟩ ?_ he
      rintro as d a e hc ⟨hdeaf, has⟩ hs
      obtain ⟨hlocal, hdeaf'⟩ := hdeaf.steps (framed (h.exec hc)) (step_cases hs)
      refine ⟨hdeaf', fun b hb => ?_⟩
      rcases List.mem_append.mp hb with hb | hb
      · exact has b hb
      · exact List.mem_singleton.mp hb ▸ hlocal
    exact hdeaf.2

/-- The connection of the late run when the destructor has closed the sockets: the remote socket is
open, and the remote thread is at its first read. -/
def closed : SocksConnection := (machine.exec sample (lateRun.take 11)).getD sample

theorem destructor_terminates_late : (lateRun.drop 11).length ≤ 2 * bufferSize + 23 ∧
    (machine.Stuck late → late.hostThread = .escaped ∨ late.destructor = some (.main, .done)) := by
  have hreach : machine.Reachable closed := ⟨sample, lateRun.take 11, ⟨_, _, rfl⟩, rfl⟩
  have hd : closed.destructor = some (.main, .joinHost) := rfl
  have hrun : machine.exec closed (lateRun.drop 11) = some late := rfl
  obtain ⟨hlength, hstuck, -⟩ := destructor_terminates hreach hd trivial hrun
  exact ⟨hlength, hstuck⟩

end SocksConnection

end LklSocks
