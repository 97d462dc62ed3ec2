import LklSocks.SocksConnection.Relay
import LklSocks.Socks4

/-!
# One connection

A `SocksConnection` has two sockets and two threads. The host thread runs `handshake`, which
reads the request, connects to the remote, replies, starts the remote thread and goes on with
`receiveHost`; the remote thread runs `receiveRemote`. The destructor closes the sockets and joins
the threads, on whatever thread released the last strong reference.

The state keeps what the sockets received and sent, and the history of what `handshake` did.

## Main definitions

* `HostPoint`, `RemotePoint`, `DtorPoint`: the program points
* `SocksConnection`: the object
* `SocksConnection.handshake`, `receiveHost`, `receiveRemote`, `destroyStep`: the steps
* `SocksConnection.machine`: a connection under every order of its steps
-/

namespace LklSocks

/-! ## Program points -/

/-- The program points of the host thread. A local variable that is still used is part of the
point. -/
inductive HostPoint
  | idle
  | readHeader (header : List UInt8)
  | readUserdata (header userdata : List UInt8)
  | openRemote (request : Socks4Request)
  | connectRemote (request : Socks4Request)
  | writeReply (code : Socks4Reply) (rest : List UInt8)
  | startRemote
  | relay (point : RelayPoint)
  | catchAll
  | stop (call : StopCall)
  | escaped
  deriving DecidableEq, Repr

/-- The program points of the remote thread. -/
inductive RemotePoint
  | idle
  | relay (point : RelayPoint)
  deriving DecidableEq, Repr

/-- The threads on which a destructor can run: `main`, which is also the thread of the
`io_service`, and the two threads of the connection. -/
inductive Runner
  | main
  | host
  | remote
  deriving DecidableEq, Repr

/-- The program points of the destructor: `members` is the destruction of the members after its
body, which calls `std::terminate` if a thread is still joinable. -/
inductive DtorPoint
  | closeRemote
  | closeHost
  | joinHost
  | joinRemote
  | members
  | done
  | aborted
  deriving DecidableEq, Repr

/-- The call of `stopConnection` in which a relay loop stands. -/
def RelayPoint.call : RelayPoint → Option StopCall
  | stop call => some call
  | _ => none

/-- The loop has returned. -/
def RelayPoint.Finished : RelayPoint → Prop
  | returned => True
  | stop call => call = .done
  | _ => False

instance : DecidablePred RelayPoint.Finished := fun p => by
  unfold RelayPoint.Finished
  split <;> infer_instance

namespace HostPoint

def call : HostPoint → Option StopCall
  | stop call => some call
  | relay point => point.call
  | _ => none

/-- The thread function has returned. -/
def Finished : HostPoint → Prop
  | stop call => call = .done
  | relay point => point.Finished
  | _ => False

instance : DecidablePred Finished := fun p => by
  unfold Finished
  split <;> infer_instance

end HostPoint

namespace RemotePoint

def call : RemotePoint → Option StopCall
  | relay point => point.call
  | idle => none

def Finished : RemotePoint → Prop
  | relay point => point.Finished
  | idle => False

instance : DecidablePred Finished := fun p => by
  unfold Finished
  split <;> infer_instance

end RemotePoint

/-! ## The object -/

/-- What an allocation chooses: the address of the object, and the bytes that lie where the
relay loops will have their arrays. -/
structure Allocation where
  address : ℕ
  hostBuffer : Buffer
  remoteBuffer : Buffer

/-- A connection. The last three fields are history: the bytes the reads of `handshake` took, the
calls of `remoteSocket.connect`, and the replies it began to write. -/
structure SocksConnection where
  order : ByteOrder
  address : ℕ
  hostSocket : Socket
  remoteSocket : Socket
  hostThread : HostPoint
  remoteThread : RemotePoint
  hostBuffer : Buffer
  remoteBuffer : Buffer
  hostJoined : Bool
  remoteJoined : Bool
  destructor : Option (Runner × DtorPoint)
  requestBytes : List UInt8
  connects : List Endpoint
  replies : List Socks4Reply

namespace SocksConnection

def create (order : ByteOrder) (a : Allocation) : SocksConnection where
  order := order
  address := a.address
  hostSocket := .closed
  remoteSocket := .closed
  hostThread := .idle
  remoteThread := .idle
  hostBuffer := a.hostBuffer
  remoteBuffer := a.remoteBuffer
  hostJoined := false
  remoteJoined := false
  destructor := none
  requestBytes := []
  connects := []
  replies := []

def hostJoinable (c : SocksConnection) : Prop := c.hostThread ≠ .idle ∧ c.hostJoined = false

def remoteJoinable (c : SocksConnection) : Prop :=
  c.remoteThread ≠ .idle ∧ c.remoteJoined = false

instance (c : SocksConnection) : Decidable c.hostJoinable := inferInstanceAs (Decidable (_ ∧ _))

instance (c : SocksConnection) : Decidable c.remoteJoinable := inferInstanceAs (Decidable (_ ∧ _))

/-- The strong references that calls of `stopConnection` on the threads of the connection hold. -/
def held (c : SocksConnection) : ℕ :=
  c.hostThread.call.elim 0 StopCall.holds + c.remoteThread.call.elim 0 StopCall.holds

/-! ## The threads -/

/-- A reply to `request` is about to be written. -/
def reply (c : SocksConnection) (code : Socks4Reply) (request : Socks4Request) :
    SocksConnection :=
  { c with
    hostThread := .writeReply code ((request.response c.order code).store c.order)
    replies := c.replies ++ [code] }

/-- Where `handshake` goes on when a reply is written: the failure is rethrown. -/
def afterReply : Socks4Reply → HostPoint
  | .success => .startRemote
  | _ => .catchAll

/-- The connection when `receiveHost` has reached `r`. -/
def relayedHost (c : SocksConnection) (r : Relay) : SocksConnection :=
  { c with
    hostSocket := r.src, remoteSocket := r.dst, hostBuffer := r.buf, hostThread := .relay r.point }

/-- The connection when `receiveRemote` has reached `r`. -/
def relayedRemote (c : SocksConnection) (r : Relay) : SocksConnection :=
  { c with
    remoteSocket := r.src, hostSocket := r.dst, remoteBuffer := r.buf
    remoteThread := .relay r.point }

/-- `receiveHost`: the relay loop from the host socket to the remote socket. -/
def receiveHost (useCount : ℕ) (c : SocksConnection) (point : RelayPoint) (out : Outcome) :
    Option SocksConnection :=
  (Relay.step useCount ⟨c.hostSocket, c.remoteSocket, c.hostBuffer, point⟩ out).map c.relayedHost

/-- `receiveRemote`: the relay loop from the remote socket to the host socket. -/
def receiveRemote (useCount : ℕ) (c : SocksConnection) (out : Outcome) : Option SocksConnection :=
  match c.remoteThread with
  | .idle => none
  | .relay point =>
    (Relay.step useCount ⟨c.remoteSocket, c.hostSocket, c.remoteBuffer, point⟩ out).map
      c.relayedRemote

/-- One step of `handshake`, when `useCount` strong references to the connection exist. -/
def handshake (useCount : ℕ) (c : SocksConnection) (out : Outcome) : Option SocksConnection :=
  match c.hostThread, out with
  | .readHeader header, .data bs =>
    if c.hostSocket.CanRead bs ∧ (header ++ bs).length ≤ Socks4Request.size then
      some { c with
        hostSocket := c.hostSocket.read bs
        requestBytes := c.requestBytes ++ bs
        hostThread :=
          if (header ++ bs).length = Socks4Request.size then .readUserdata (header ++ bs) []
          else .readHeader (header ++ bs) }
    else none
  | .readHeader _, .error ec =>
    if c.hostSocket.CanFail ec then some { c with hostThread := .catchAll } else none
  | .readUserdata header userdata, .data bs =>
    if c.hostSocket.CanRead bs then
      let request := (Socks4Request.load c.order header).toHost c.order
      let read := { c with
        hostSocket := c.hostSocket.read bs
        requestBytes := c.requestBytes ++ bs }
      if ReadUntilDone delimiter (userdata ++ bs) then
        -- the call of `remoteSocket.connect`, which opens the socket first
        some { read with
          hostThread := .openRemote request, connects := c.connects ++ [request.endpoint] }
      else some { read with hostThread := .readUserdata header (userdata ++ bs) }
    else none
  | .readUserdata _ _, .error ec =>
    if c.hostSocket.CanFail ec then some { c with hostThread := .catchAll } else none
  | .openRemote request, .ok =>
    some { c with
      remoteSocket := { c.remoteSocket with isOpen := true }, hostThread := .connectRemote request }
  | .openRemote request, .error _ => some (c.reply .failed request)
  | .connectRemote request, .connected incoming =>
    if c.remoteSocket.isOpen then
      some ({ c with remoteSocket := c.remoteSocket.connect incoming }.reply .success request)
    else none
  | .connectRemote request, .error _ => some (c.reply .failed request)
  | .writeReply code rest, .wrote n =>
    if c.hostSocket.CanWrite rest n then
      some { c with
        hostSocket := c.hostSocket.write (rest.take n)
        hostThread :=
          if rest.drop n = [] then afterReply code else .writeReply code (rest.drop n) }
    else none
  | .writeReply _ _, .error _ => some { c with hostThread := .catchAll }
  | .startRemote, .ok => some { c with hostThread := .relay .read, remoteThread := .relay .read }
  -- `std::thread` throws `std::system_error`
  | .startRemote, .error _ => some { c with hostThread := .catchAll }
  | .relay point, out => c.receiveHost useCount point out
  -- `shared_from_this` throws `bad_weak_ptr` out of the handler
  | .catchAll, .ok =>
    some { c with hostThread := if useCount = 0 then .escaped else .stop .argument }
  | .stop call, .ok => (call.next useCount).map fun k => { c with hostThread := .stop k }
  | _, _ => none

/-- If the release of the argument of `stopConnection` was the last one, the destructor starts on
the host thread. -/
def releaseHost (c : SocksConnection) : SocksConnection :=
  if c.hostThread.call = some .destroying then { c with destructor := some (.host, .closeRemote) }
  else c

def releaseRemote (c : SocksConnection) : SocksConnection :=
  if c.remoteThread.call = some .destroying then
    { c with destructor := some (.remote, .closeRemote) }
  else c

theorem releaseHost_eq (c : SocksConnection) :
    ∃ d, (d = c.destructor ∨ d = some (.host, .closeRemote)) ∧
      c.releaseHost = { c with destructor := d } := by
  unfold releaseHost
  split
  · exact ⟨_, .inr rfl, rfl⟩
  · exact ⟨c.destructor, .inl rfl, rfl⟩

theorem releaseRemote_eq (c : SocksConnection) :
    ∃ d, (d = c.destructor ∨ d = some (.remote, .closeRemote)) ∧
      c.releaseRemote = { c with destructor := d } := by
  unfold releaseRemote
  split
  · exact ⟨_, .inr rfl, rfl⟩
  · exact ⟨c.destructor, .inl rfl, rfl⟩

/-! ## The destructor -/

/-- One step of the destructor and of the destruction of the members. Closing a socket that is not
open does nothing. -/
def destroyStep (c : SocksConnection) : Option SocksConnection :=
  match c.destructor with
  | some (runner, .closeRemote) =>
    some { c with remoteSocket := c.remoteSocket.close, destructor := some (runner, .closeHost) }
  | some (runner, .closeHost) =>
    some { c with hostSocket := c.hostSocket.close, destructor := some (runner, .joinHost) }
  | some (runner, .joinHost) =>
    if c.hostJoinable then
      -- a thread that joins itself gets an exception, which ends the body
      if runner = .host then some { c with destructor := some (runner, .members) }
      else if c.hostThread.Finished then
        some { c with hostJoined := true, destructor := some (runner, .joinRemote) }
      else none
    else some { c with destructor := some (runner, .joinRemote) }
  | some (runner, .joinRemote) =>
    if c.remoteJoinable then
      if runner = .remote then some { c with destructor := some (runner, .members) }
      else if c.remoteThread.Finished then
        some { c with remoteJoined := true, destructor := some (runner, .members) }
      else none
    else some { c with destructor := some (runner, .members) }
  | some (runner, .members) =>
    if c.hostJoinable ∨ c.remoteJoinable then
      some { c with destructor := some (runner, .aborted) }
    else
      some { c with
        remoteSocket := c.remoteSocket.close, hostSocket := c.hostSocket.close
        destructor := some (runner, .done) }
  | _ => none

/-! ## The machine of one connection -/

/-- One step of the host thread, when `useCount` strong references exist. -/
def hostStep (useCount : ℕ) (c : SocksConnection) (out : Outcome) : Option SocksConnection :=
  (c.handshake useCount out).map releaseHost

/-- One step of the remote thread. -/
def remoteStep (useCount : ℕ) (c : SocksConnection) (out : Outcome) : Option SocksConnection :=
  (c.receiveRemote useCount out).map releaseRemote

end SocksConnection

/-- What can happen to a connection: its host socket is accepted, `start` runs, a thread makes a
step, or the main thread releases the last reference; and the steps of the destructor. -/
inductive ConnectionAction
  | accept (stream : List UInt8)
  | start
  | host (useCount : ℕ) (out : Outcome)
  | remote (useCount : ℕ) (out : Outcome)
  | destroy
  | destructor

namespace SocksConnection

/-- One step of a connection. No strong reference exists once the destructor has started. -/
def step (c : SocksConnection) : ConnectionAction → Option SocksConnection
  | .accept stream =>
    if c.hostSocket.isOpen = false ∧ c.destructor = none then
      some { c with hostSocket := c.hostSocket.connect stream }
    else none
  | .start =>
    if c.hostThread = .idle ∧ c.destructor = none then
      some { c with hostThread := .readHeader [] }
    else none
  | .host useCount out =>
    if c.destructor = none ∨ useCount = 0 then c.hostStep useCount out else none
  | .remote useCount out =>
    if c.destructor = none ∨ useCount = 0 then c.remoteStep useCount out else none
  | .destroy =>
    if c.destructor = none then some { c with destructor := some (.main, .closeRemote) } else none
  | .destructor => c.destroyStep

/-- A connection under every order of its steps and every number of strong references. -/
def machine : Machine SocksConnection ConnectionAction where
  init c := ∃ order a, c = create order a
  step := step

end SocksConnection

end LklSocks
