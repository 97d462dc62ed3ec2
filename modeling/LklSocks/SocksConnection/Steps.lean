import LklSocks.SocksConnection.Basic

/-!
# The steps of a connection

Each step function is inverted once: a step is one of the rules of a relation, and every rule says
its guard and its result. The invariants of a connection are case analyses on these rules.

## Main definitions

* `SocksConnection.HandshakeSteps`: the steps of the host thread
* `SocksConnection.DestroySteps`: the steps of the destructor
* `SocksConnection.Steps`: the steps of a connection

## Main results

* `SocksConnection.handshake_cases`, `receiveRemote_cases`, `destroyStep_cases`,
  `step_cases`: inversion
-/

namespace LklSocks

namespace SocksConnection

/-- The steps of the host thread, one rule for each branch. -/
inductive HandshakeSteps (useCount : ℕ) (c : SocksConnection) : Outcome → SocksConnection → Prop
  | readHeader {header bs : List UInt8} (hp : c.hostThread = .readHeader header)
      (hr : c.hostSocket.CanRead bs) (hs : (header ++ bs).length < Socks4Request.size) :
      HandshakeSteps useCount c (.data bs)
        { c with
          hostSocket := c.hostSocket.read bs
          requestBytes := c.requestBytes ++ bs
          hostThread := .readHeader (header ++ bs) }
  | endHeader {header bs : List UInt8} (hp : c.hostThread = .readHeader header)
      (hr : c.hostSocket.CanRead bs) (hs : (header ++ bs).length = Socks4Request.size) :
      HandshakeSteps useCount c (.data bs)
        { c with
          hostSocket := c.hostSocket.read bs
          requestBytes := c.requestBytes ++ bs
          hostThread := .readUserdata (header ++ bs) [] }
  | headerError {header : List UInt8} {ec : ErrorCode} (hp : c.hostThread = .readHeader header)
      (hf : c.hostSocket.CanFail ec) :
      HandshakeSteps useCount c (.error ec) { c with hostThread := .catchAll }
  | readUserdata {header userdata bs : List UInt8}
      (hp : c.hostThread = .readUserdata header userdata) (hr : c.hostSocket.CanRead bs) :
      HandshakeSteps useCount c (.data bs)
        { c with
          hostSocket := c.hostSocket.read bs
          requestBytes := c.requestBytes ++ bs
          hostThread := .openRemote ((Socks4Request.load c.order header).toHost c.order)
          connects :=
            c.connects ++ [((Socks4Request.load c.order header).toHost c.order).endpoint] }
  | userdataError {header userdata : List UInt8} {ec : ErrorCode}
      (hp : c.hostThread = .readUserdata header userdata) (hf : c.hostSocket.CanFail ec) :
      HandshakeSteps useCount c (.error ec) { c with hostThread := .catchAll }
  | openRemote {request : Socks4Request} (hp : c.hostThread = .openRemote request) :
      HandshakeSteps useCount c .ok
        { c with
          remoteSocket := { c.remoteSocket with isOpen := true }
          hostThread := .connectRemote request }
  | openError {request : Socks4Request} {ec : ErrorCode} (hp : c.hostThread = .openRemote request) :
      HandshakeSteps useCount c (.error ec) (c.reply .failed request)
  | connected {request : Socks4Request} {incoming : List UInt8}
      (hp : c.hostThread = .connectRemote request) (ho : c.remoteSocket.isOpen = true) :
      HandshakeSteps useCount c (.connected incoming)
        ({ c with remoteSocket := c.remoteSocket.connect incoming }.reply .success request)
  | connectError {request : Socks4Request} {ec : ErrorCode}
      (hp : c.hostThread = .connectRemote request) :
      HandshakeSteps useCount c (.error ec) (c.reply .failed request)
  | writeReply {code : Socks4Reply} {rest : List UInt8} {n : ℕ}
      (hp : c.hostThread = .writeReply code rest) (hw : c.hostSocket.CanWrite rest n)
      (hr : rest.drop n ≠ []) :
      HandshakeSteps useCount c (.wrote n)
        { c with
          hostSocket := c.hostSocket.write (rest.take n)
          hostThread := .writeReply code (rest.drop n) }
  | endReply {code : Socks4Reply} {rest : List UInt8} {n : ℕ}
      (hp : c.hostThread = .writeReply code rest) (hw : c.hostSocket.CanWrite rest n)
      (hr : rest.drop n = []) :
      HandshakeSteps useCount c (.wrote n)
        { c with hostSocket := c.hostSocket.write rest, hostThread := afterReply code }
  | replyError {code : Socks4Reply} {rest : List UInt8} {ec : ErrorCode}
      (hp : c.hostThread = .writeReply code rest) :
      HandshakeSteps useCount c (.error ec) { c with hostThread := .catchAll }
  | startRemote (hp : c.hostThread = .startRemote) :
      HandshakeSteps useCount c .ok
        { c with hostThread := .relay .read, remoteThread := .relay .read }
  | startError {ec : ErrorCode} (hp : c.hostThread = .startRemote) :
      HandshakeSteps useCount c (.error ec) { c with hostThread := .catchAll }
  | relay {point : RelayPoint} {out : Outcome} {r : Relay} (hp : c.hostThread = .relay point)
      (hs : Relay.Steps useCount ⟨c.hostSocket, c.remoteSocket, c.hostBuffer, point⟩ out r) :
      HandshakeSteps useCount c out (c.relayedHost r)
  | expired (hp : c.hostThread = .catchAll) (hu : useCount = 0) :
      HandshakeSteps useCount c .ok { c with hostThread := .escaped }
  | share (hp : c.hostThread = .catchAll) (hu : useCount ≠ 0) :
      HandshakeSteps useCount c .ok { c with hostThread := .stop .argument }
  | stop {call next : StopCall} (hp : c.hostThread = .stop call)
      (hc : call.next useCount = some next) :
      HandshakeSteps useCount c .ok { c with hostThread := .stop next }

variable {useCount : ℕ} {c c' : SocksConnection} {out : Outcome}

theorem receiveHost_cases {point : RelayPoint} (h : c.receiveHost useCount point out = some c') :
    ∃ r, Relay.Steps useCount ⟨c.hostSocket, c.remoteSocket, c.hostBuffer, point⟩ out r ∧
      c' = c.relayedHost r := by
  obtain ⟨r, hr, rfl⟩ := Option.map_eq_some_iff.mp h
  exact ⟨r, Relay.step_cases hr, rfl⟩

/-- Inversion of a step of the remote thread. -/
theorem receiveRemote_cases (h : c.receiveRemote useCount out = some c') :
    ∃ point r, c.remoteThread = .relay point ∧
      Relay.Steps useCount ⟨c.remoteSocket, c.hostSocket, c.remoteBuffer, point⟩ out r ∧
      c' = c.relayedRemote r := by
  unfold receiveRemote at h
  split at h
  · cases h
  · next point hp =>
    obtain ⟨r, hr, rfl⟩ := Option.map_eq_some_iff.mp h
    exact ⟨point, r, hp, Relay.step_cases hr, rfl⟩

/-- Inversion of a step of the host thread. -/
theorem handshake_cases (h : c.handshake useCount out = some c') :
    c.HandshakeSteps useCount out c' := by
  unfold handshake at h
  split at h
  · next header bs hp =>
    split at h
    · next hr =>
      obtain rfl := Option.some.inj h
      by_cases hs : (header ++ bs).length = Socks4Request.size
      · rw [if_pos hs]
        exact .endHeader hp hr.1 hs
      · rw [if_neg hs]
        exact .readHeader hp hr.1 (lt_of_le_of_ne hr.2 hs)
    · cases h
  · next hp =>
    split at h
    · next hf =>
      obtain rfl := Option.some.inj h
      exact .headerError hp hf
    · cases h
  · next header userdata bs hp =>
    split at h
    · next hr =>
      -- the buffer is nonempty, which is all the delimiter asks for
      have hd : ReadUntilDone delimiter (userdata ++ bs) :=
        (readUntilDone_delimiter _).mpr (List.append_ne_nil_of_right_ne_nil userdata hr.2.1)
      rw [if_pos hd] at h
      obtain rfl := Option.some.inj h
      exact .readUserdata hp hr
    · cases h
  · next hp =>
    split at h
    · next hf =>
      obtain rfl := Option.some.inj h
      exact .userdataError hp hf
    · cases h
  · next hp =>
    obtain rfl := Option.some.inj h
    exact .openRemote hp
  · next hp =>
    obtain rfl := Option.some.inj h
    exact .openError hp
  · next hp =>
    split at h
    · next ho =>
      obtain rfl := Option.some.inj h
      exact .connected hp ho
    · cases h
  · next hp =>
    obtain rfl := Option.some.inj h
    exact .connectError hp
  · next code rest n hp =>
    split at h
    · next hw =>
      obtain rfl := Option.some.inj h
      by_cases hr : rest.drop n = []
      · rw [if_pos hr, List.take_of_length_le (List.drop_eq_nil_iff.mp hr)]
        exact .endReply hp hw hr
      · rw [if_neg hr]
        exact .writeReply hp hw hr
    · cases h
  · next hp =>
    obtain rfl := Option.some.inj h
    exact .replyError hp
  · next hp =>
    obtain rfl := Option.some.inj h
    exact .startRemote hp
  · next hp =>
    obtain rfl := Option.some.inj h
    exact .startError hp
  · next hp =>
    obtain ⟨r, hr, rfl⟩ := receiveHost_cases h
    exact .relay hp hr
  · next hp =>
    obtain rfl := Option.some.inj h
    by_cases hu : useCount = 0
    · rw [if_pos hu]
      exact .expired hp hu
    · rw [if_neg hu]
      exact .share hp hu
  · next hp =>
    obtain ⟨k, hk, rfl⟩ := Option.map_eq_some_iff.mp h
    exact .stop hp hk
  · cases h

/-! ## The destructor -/

/-- The steps of the destructor on the thread `runner`, one rule for each branch. -/
inductive DestroySteps (c : SocksConnection) (runner : Runner) : SocksConnection → Prop
  | closeRemote (hd : c.destructor = some (runner, .closeRemote)) :
      DestroySteps c runner
        { c with remoteSocket := c.remoteSocket.close, destructor := some (runner, .closeHost) }
  | closeHost (hd : c.destructor = some (runner, .closeHost)) :
      DestroySteps c runner
        { c with hostSocket := c.hostSocket.close, destructor := some (runner, .joinHost) }
  | joinOwnHost (hd : c.destructor = some (runner, .joinHost)) (hj : c.hostJoinable)
      (hr : runner = .host) :
      DestroySteps c runner { c with destructor := some (runner, .members) }
  | joinHost (hd : c.destructor = some (runner, .joinHost)) (hj : c.hostJoinable)
      (hr : runner ≠ .host) (hf : c.hostThread.Finished) :
      DestroySteps c runner
        { c with hostJoined := true, destructor := some (runner, .joinRemote) }
  | skipHost (hd : c.destructor = some (runner, .joinHost)) (hj : ¬ c.hostJoinable) :
      DestroySteps c runner { c with destructor := some (runner, .joinRemote) }
  | joinOwnRemote (hd : c.destructor = some (runner, .joinRemote)) (hj : c.remoteJoinable)
      (hr : runner = .remote) :
      DestroySteps c runner { c with destructor := some (runner, .members) }
  | joinRemote (hd : c.destructor = some (runner, .joinRemote)) (hj : c.remoteJoinable)
      (hr : runner ≠ .remote) (hf : c.remoteThread.Finished) :
      DestroySteps c runner
        { c with remoteJoined := true, destructor := some (runner, .members) }
  | skipRemote (hd : c.destructor = some (runner, .joinRemote)) (hj : ¬ c.remoteJoinable) :
      DestroySteps c runner { c with destructor := some (runner, .members) }
  | terminate (hd : c.destructor = some (runner, .members))
      (hj : c.hostJoinable ∨ c.remoteJoinable) :
      DestroySteps c runner { c with destructor := some (runner, .aborted) }
  | members (hd : c.destructor = some (runner, .members)) (hh : ¬ c.hostJoinable)
      (hr : ¬ c.remoteJoinable) :
      DestroySteps c runner
        { c with
          remoteSocket := c.remoteSocket.close, hostSocket := c.hostSocket.close
          destructor := some (runner, .done) }

/-- Inversion of a step of the destructor. -/
theorem destroyStep_cases (h : c.destroyStep = some c') : ∃ runner, c.DestroySteps runner c' := by
  unfold destroyStep at h
  split at h
  · next hd =>
    obtain rfl := Option.some.inj h
    exact ⟨_, .closeRemote hd⟩
  · next hd =>
    obtain rfl := Option.some.inj h
    exact ⟨_, .closeHost hd⟩
  · next hd =>
    split at h
    · next hj =>
      split at h
      · next hr =>
        obtain rfl := Option.some.inj h
        exact ⟨_, .joinOwnHost hd hj hr⟩
      · next hr =>
        split at h
        · next hf =>
          obtain rfl := Option.some.inj h
          exact ⟨_, .joinHost hd hj hr hf⟩
        · cases h
    · next hj =>
      obtain rfl := Option.some.inj h
      exact ⟨_, .skipHost hd hj⟩
  · next hd =>
    split at h
    · next hj =>
      split at h
      · next hr =>
        obtain rfl := Option.some.inj h
        exact ⟨_, .joinOwnRemote hd hj hr⟩
      · next hr =>
        split at h
        · next hf =>
          obtain rfl := Option.some.inj h
          exact ⟨_, .joinRemote hd hj hr hf⟩
        · cases h
    · next hj =>
      obtain rfl := Option.some.inj h
      exact ⟨_, .skipRemote hd hj⟩
  · next hd =>
    split at h
    · next hj =>
      obtain rfl := Option.some.inj h
      exact ⟨_, .terminate hd hj⟩
    · next hj =>
      obtain rfl := Option.some.inj h
      exact ⟨_, .members hd (fun hh => hj (.inl hh)) (fun hr => hj (.inr hr))⟩
  · cases h

/-! ## The connection -/

/-- The steps of a connection, one rule for each action. -/
inductive Steps (c : SocksConnection) : ConnectionAction → SocksConnection → Prop
  | accept {stream : List UInt8} (ho : c.hostSocket.isOpen = false) (hd : c.destructor = none) :
      Steps c (.accept stream) { c with hostSocket := c.hostSocket.connect stream }
  | start (hp : c.hostThread = .idle) (hd : c.destructor = none) :
      Steps c .start { c with hostThread := .readHeader [] }
  | host {useCount : ℕ} {out : Outcome} {d : SocksConnection}
      (hu : c.destructor = none ∨ useCount = 0) (hs : c.HandshakeSteps useCount out d) :
      Steps c (.host useCount out) d.releaseHost
  | remote {useCount : ℕ} {out : Outcome} {point : RelayPoint} {r : Relay}
      (hu : c.destructor = none ∨ useCount = 0) (hp : c.remoteThread = .relay point)
      (hs : Relay.Steps useCount ⟨c.remoteSocket, c.hostSocket, c.remoteBuffer, point⟩ out r) :
      Steps c (.remote useCount out) (c.relayedRemote r).releaseRemote
  | destroy (hd : c.destructor = none) :
      Steps c .destroy { c with destructor := some (.main, .closeRemote) }
  | destructor {runner : Runner} {d : SocksConnection} (hs : c.DestroySteps runner d) :
      Steps c .destructor d

/-- Inversion of a step of a connection. -/
theorem step_cases {a : ConnectionAction} (h : c.step a = some c') : c.Steps a c' := by
  cases a with
  | accept stream =>
    obtain ⟨⟨ho, hd⟩, he⟩ := Option.ite_none_right_eq_some.mp h
    obtain rfl := Option.some.inj he
    exact .accept ho hd
  | start =>
    obtain ⟨⟨hp, hd⟩, he⟩ := Option.ite_none_right_eq_some.mp h
    obtain rfl := Option.some.inj he
    exact .start hp hd
  | host useCount out =>
    obtain ⟨hu, he⟩ := Option.ite_none_right_eq_some.mp h
    obtain ⟨d, hd, rfl⟩ := Option.map_eq_some_iff.mp he
    exact .host hu (handshake_cases hd)
  | remote useCount out =>
    obtain ⟨hu, he⟩ := Option.ite_none_right_eq_some.mp h
    obtain ⟨d, hd, rfl⟩ := Option.map_eq_some_iff.mp he
    obtain ⟨point, r, hp, hs, rfl⟩ := receiveRemote_cases hd
    exact .remote hu hp hs
  | destroy =>
    obtain ⟨hd, he⟩ := Option.ite_none_right_eq_some.mp h
    obtain rfl := Option.some.inj he
    exact .destroy hd
  | destructor =>
    obtain ⟨runner, hs⟩ := destroyStep_cases h
    exact .destructor hs

end SocksConnection

end LklSocks
