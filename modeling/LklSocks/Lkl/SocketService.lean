import LklSocks.Lkl.SocketOps
import LklSocks.Machine.Runs

/-!
# The socket service on LKL

`reactive_socket_service` keeps an implementation for each socket object: the descriptor, the state
bits of `socket_ops`, the data of the reactor, and the protocol. The service was adapted from
Boost.Asio: it opens and closes the descriptors of LKL, and the calls that register a descriptor
with the reactor are commented out. The descriptor of a new socket passes through a
`socket_holder`, whose destructor closes what it still holds in the kernel of the host.

The results of the calls of LKL are the choices of the environment. What an operation obtains,
closes and hands to the reactor are its events.

## Main definitions

* `Lkl.accept`, `Lkl.syncAccept`, `Lkl.close`, `Lkl.setsockopt`: the operations of `socket_ops`
* `Lkl.Reactor`: what the service relies on in the reactor
* `Lkl.SocketHolder`, `Lkl.Impl`: a holder and an implementation, with their operations
* `Lkl.SocketService`: the implementations
* `Lkl.SocketService.machine`: the service under every sequence of operations
-/

namespace LklSocks

namespace ErrorCode

def connectionAborted : ErrorCode := .system Errno.ECONNABORTED.value
def invalidArgument : ErrorCode := .system Errno.EINVAL.value

end ErrorCode

namespace Lkl

open ErrorCode

/-! ## The state bits -/

def userSetNonBlocking : UInt8 := 1
def internalNonBlocking : UInt8 := 2
def nonBlocking : UInt8 := userSetNonBlocking ||| internalNonBlocking
def enableConnectionAborted : UInt8 := 4
def userSetLinger : UInt8 := 8
def streamOriented : UInt8 := 16
def datagramOriented : UInt8 := 32
def possibleDup : UInt8 := 64

/-- One of the bits is set. -/
def HasBits (state bits : UInt8) : Prop := state &&& bits ≠ 0

instance (state bits : UInt8) : Decidable (HasBits state bits) :=
  inferInstanceAs (Decidable (_ ≠ _))

/-- The types of a socket that `do_open` and `do_assign` tell apart. -/
inductive SocketType
  | stream
  | datagram
  | other
  deriving DecidableEq, Repr

/-- The state of a new socket. -/
def SocketType.state : SocketType → UInt8
  | stream => streamOriented
  | datagram => datagramOriented
  | other => 0

/-! ## The operations of `socket_ops` -/

def accept (errno s r : ℤ) : ℤ × ErrorCode :=
  if s = invalidSocket then (invalidSocket, badDescriptor)
  else
    let (result, ec) := call errno r
    let newSocket := toInt result
    if newSocket = invalidSocket then (newSocket, ec) else (newSocket, success)

/-- `sync_accept` waits and tries again after the error. -/
def AcceptsAgain (state : UInt8) (ec : ErrorCode) : Prop :=
  if ec = wouldBlock ∨ ec = tryAgain then ¬ HasBits state userSetNonBlocking
  else if ec = connectionAborted then ¬ HasBits state enableConnectionAborted
  else if ec = .system Errno.EPROTO.value then ¬ HasBits state enableConnectionAborted
  else False

instance (state : UInt8) (ec : ErrorCode) : Decidable (AcceptsAgain state ec) := by
  unfold AcceptsAgain
  infer_instance

/-- The loop of `sync_accept`, for the results of the `accept` and the `poll` of each round, or
nothing if it goes on after the last one. -/
def syncAccept (errno s : ℤ) (state : UInt8) : List (ℤ × ℤ) → Option (ℤ × ErrorCode)
  | [] => none
  | (r, p) :: rounds =>
    let (newSocket, ec) := accept errno s r
    if newSocket ≠ invalidSocket then some (newSocket, ec)
    else if AcceptsAgain state ec then
      -- the error asks for another round
      let (ready, ec) := pollRead errno s false p
      if ready < 0 then some (invalidSocket, ec) else syncAccept errno s state rounds
    else some (invalidSocket, ec)

/-- The options that `setsockopt` tells apart. The value of `enable_connection_aborted` is missing
if it does not have the size of an `int`. -/
inductive SocketOption
  | alwaysFail
  | enableConnectionAborted (value : Option ℤ)
  | linger
  | other
  deriving DecidableEq, Repr

/-- `setsockopt`: the result, the error code and the state after it. -/
def setsockopt (errno s : ℤ) (state : UInt8) (option : SocketOption) (r : ℤ) :
    ℤ × ErrorCode × UInt8 :=
  let native (state : UInt8) :=
    let (result, ec) := call errno r
    let result := toInt result
    (result, if result = 0 then success else ec, state)
  if s = invalidSocket then (socketErrorRetval, badDescriptor, state)
  else
    match option with
    | .alwaysFail => (socketErrorRetval, invalidArgument, state)
    | .enableConnectionAborted none => (socketErrorRetval, invalidArgument, state)
    | .enableConnectionAborted (some value) =>
      (0, success,
        -- the option is one of Boost.Asio, and LKL is not called
        if value ≠ 0 then state ||| Lkl.enableConnectionAborted
        else state &&& ~~~Lkl.enableConnectionAborted)
    | .linger => native (state ||| userSetLinger)
    | .other => native state

/-- `set_user_non_blocking`: whether it succeeded, the error code and the state after it. -/
def setUserNonBlocking (errno s : ℤ) (state : UInt8) (value : Bool) (r : ℤ) :
    Bool × ErrorCode × UInt8 :=
  if s = invalidSocket then (false, badDescriptor, state)
  else
    let (result, ec) := call errno r
    if 0 ≤ toInt result then
      (true, success,
        if value = true then state ||| userSetNonBlocking
        else state &&& ~~~(userSetNonBlocking ||| internalNonBlocking))
    else (false, ec, state)

/-- `set_internal_non_blocking`, in the same form. -/
def setInternalNonBlocking (errno s : ℤ) (state : UInt8) (value : Bool) (r : ℤ) :
    Bool × ErrorCode × UInt8 :=
  if s = invalidSocket then (false, badDescriptor, state)
  else if value = false ∧ HasBits state userSetNonBlocking then (false, invalidArgument, state)
  else
    let (result, ec) := call errno r
    if 0 ≤ toInt result then
      (true, success,
        if value = true then state ||| internalNonBlocking else state &&& ~~~internalNonBlocking)
    else (false, ec, state)

/-! ## The reactor and the holder -/

/-- What the service relies on in the reactor of Boost.Asio. `fresh` is the `per_descriptor_data` of
a new object. `moveDescriptor` gives the data of the target and of the source after the move. Only
`register_descriptor`, or a move from registered data, registers data for a descriptor. -/
structure Reactor (δ : Type) where
  fresh : δ
  moveDescriptor : ℤ → δ → δ → δ × δ
  Registered : δ → ℤ → Prop
  not_registered_fresh : ∀ d, ¬ Registered fresh d
  registered_of_move : ∀ d target source e,
    Registered (moveDescriptor d target source).1 e ∨
      Registered (moveDescriptor d target source).2 e → Registered source e

/-- The data of `epoll_reactor` points to the state of one descriptor, and a move leaves the source
without one. -/
def Reactor.epoll : Reactor (Option ℤ) where
  fresh := none
  moveDescriptor _ _ source := (source, none)
  Registered data d := data = some d
  not_registered_fresh := nofun
  registered_of_move := by
    rintro d target source e (h | h)
    · exact h
    · cases h

/-- The queues of the reactor. -/
inductive OpType
  | read
  | write
  | connect
  | except
  deriving DecidableEq, Repr

/-- The error codes of the service, of which `already_open` is one of Boost.Asio's own. -/
inductive ServiceCode
  | alreadyOpen
  | code (ec : ErrorCode)
  deriving DecidableEq, Repr

/-- What an operation of the service does: it gets a descriptor from LKL or from its caller, closes
one in LKL or in the kernel of the host, hands one to the reactor, or completes an asynchronous
operation at once. `lkl_close` has a result, and `closeAgain` is its second call. -/
inductive ServiceEvent (δ : Type)
  | obtained (d : ℤ)
  | close (d r : ℤ)
  | closeAgain (d r : ℤ)
  | hostClose (d : ℤ)
  | cancelOps (d : ℤ) (data : δ)
  | startOp (type : OpType) (d : ℤ) (data : δ)
  | completed (ec : ServiceCode)
  deriving DecidableEq, Repr

section

variable {δ : Type}

/-- The results of the two calls of `lkl_close`. -/
structure CloseCalls where
  first : ℤ
  again : ℤ
  deriving DecidableEq, Repr

/-- A close with the result `r` is repeated. -/
def WouldBlock (errno r : ℤ) : Prop :=
  toInt (call errno r).1 ≠ 0 ∧ ((call errno r).2 = wouldBlock ∨ (call errno r).2 = tryAgain)

instance (errno r : ℤ) : Decidable (WouldBlock errno r) := inferInstanceAs (Decidable (_ ∧ _))

/-- The option that `close` turns off before it closes the socket: the destructor must not block. -/
def closeOption (state : UInt8) (destruction : Bool) : Option SocketOption :=
  if destruction = true ∧ HasBits state userSetLinger then some .linger else none

/-- `socket_ops::close`: the error code and the state after it, and the calls of `lkl_close`. The
results of `lkl_setsockopt` and of `lkl_ioctl` are ignored. -/
def close (errno s : ℤ) (state : UInt8) (destruction : Bool) (calls : CloseCalls) :
    ErrorCode × UInt8 × List (ServiceEvent δ) :=
  if s = invalidSocket then (success, state, [])
  else
    let state :=
      match closeOption state destruction with
      | some option => (setsockopt errno s state option 0).2.2
      | none => state
    if WouldBlock errno calls.first then
      let (result, ec) := call errno calls.again
      -- the descriptor is put back into blocking mode
      (if toInt result = 0 then success else ec, state &&& ~~~nonBlocking,
        [.close s calls.first, .closeAgain s calls.again])
    else
      let (result, ec) := call errno calls.first
      (if toInt result = 0 then success else ec, state, [.close s calls.first])

/-- `boost::asio::detail::socket_holder`. -/
structure SocketHolder where
  socket : ℤ

namespace SocketHolder

def get (sock : SocketHolder) : ℤ := sock.socket

/-- The holder gives up its socket. -/
def release (sock : SocketHolder) : ℤ × SocketHolder := (sock.socket, ⟨invalidSocket⟩)

/-- The destructor, which calls the `close` of the host. -/
def destructor (sock : SocketHolder) : List (ServiceEvent δ) :=
  if sock.socket ≠ invalidSocket then [.hostClose sock.socket] else []

end SocketHolder

/-! ## One implementation -/

/-- An implementation, with the type of its `protocol_`. -/
structure Impl (δ : Type) where
  socket : ℤ
  state : UInt8
  reactorData : δ
  protocol : SocketType
  deriving DecidableEq, Repr

/-- What an operation on an implementation gives. -/
structure Result (δ : Type) where
  impl : Impl δ
  ec : ServiceCode
  events : List (ServiceEvent δ)

namespace Impl

/-- The memory of a new object. Its socket and its state are indeterminate, and its protocol is that
of a default endpoint. -/
def uninitialized (reactor : Reactor δ) : Impl δ := ⟨0, 0, reactor.fresh, .stream⟩

def IsOpen (impl : Impl δ) : Prop := impl.socket ≠ invalidSocket

instance (impl : Impl δ) : Decidable impl.IsOpen := inferInstanceAs (Decidable (_ ≠ _))

/-- `construct` leaves the data of the reactor alone. -/
def construct (impl : Impl δ) : Impl δ := { impl with socket := invalidSocket, state := 0 }

/-- `base_move_construct` and the protocol: the new object and the source after it. -/
def moveConstruct (reactor : Reactor δ) (impl other : Impl δ) : Impl δ × Impl δ :=
  let data := reactor.moveDescriptor other.socket impl.reactorData other.reactorData
  (⟨other.socket, other.state, data.1, other.protocol⟩, ⟨invalidSocket, 0, data.2, .stream⟩)

/-- `destroy`. The registration is not removed. -/
def destroy (impl : Impl δ) (calls : CloseCalls) : Impl δ × List (ServiceEvent δ) :=
  if impl.socket ≠ invalidSocket then
    let (_, state, events) := Lkl.close 0 impl.socket impl.state true calls
    ({ impl with state := state }, events)
  else (impl, [])

/-- `base_move_assign` and the protocol, for different objects. -/
def moveAssign (reactor : Reactor δ) (impl other : Impl δ) (calls : CloseCalls) :
    Impl δ × Impl δ × List (ServiceEvent δ) :=
  -- the descriptor of the target is closed, but stays in its field until the move
  let (impl, events) := impl.destroy calls
  let (impl, other) := moveConstruct reactor impl other
  (impl, other, events)

/-- `base_move_assign` to the object itself: of the two assignments to each member, the second one
stands. -/
def moveAssignSelf (reactor : Reactor δ) (impl : Impl δ) (calls : CloseCalls) :
    Impl δ × List (ServiceEvent δ) :=
  let (impl, events) := impl.destroy calls
  let data := reactor.moveDescriptor invalidSocket impl.reactorData impl.reactorData
  (⟨invalidSocket, 0, data.2, .stream⟩, events)

def close (impl : Impl δ) (calls : CloseCalls) : Result δ :=
  let (ec, state, events) := Lkl.close 0 impl.socket impl.state false calls
  ⟨construct { impl with state := state }, .code ec, events⟩

def cancel (impl : Impl δ) : Result δ :=
  if ¬ impl.IsOpen then ⟨impl, .code badDescriptor, []⟩
  else ⟨impl, .code success, [.cancelOps impl.socket impl.reactorData]⟩

/-- `do_open`, for the result of `lkl_socket`. -/
def doOpen (impl : Impl δ) (type : SocketType) (r : ℤ) : Result δ :=
  if impl.IsOpen then ⟨impl, .alreadyOpen, []⟩
  else
    let (result, ec) := Lkl.socket 0 r
    let sock : SocketHolder := ⟨result⟩
    if sock.get = invalidSocket then ⟨impl, .code ec, sock.destructor⟩
    else
      -- the registration with the reactor is commented out
      let (socket, sock) := sock.release
      ⟨{ impl with socket := socket, state := type.state }, .code success,
        .obtained result :: sock.destructor⟩

def doAssign (impl : Impl δ) (type : SocketType) (d : ℤ) : Result δ :=
  if impl.IsOpen then ⟨impl, .alreadyOpen, []⟩
  else ⟨{ impl with socket := d, state := type.state ||| possibleDup }, .code success, []⟩

/-- The protocol of an implementation that was opened. -/
def withProtocol (result : Result δ) (protocol : SocketType) : Result δ :=
  if result.ec = .code success then
    { result with impl := { result.impl with protocol := protocol } }
  else result

/-- `open`. -/
def openSocket (impl : Impl δ) (protocol : SocketType) (r : ℤ) : Result δ :=
  withProtocol (impl.doOpen protocol r) protocol

def assign (impl : Impl δ) (protocol : SocketType) (d : ℤ) : Result δ :=
  withProtocol (impl.doAssign protocol d) protocol

/-- `accept`, from the implementation into the peer, or nothing if it does not return. -/
def accept (impl peer : Impl δ) (rounds : List (ℤ × ℤ)) : Option (Result δ) :=
  if peer.IsOpen then some ⟨peer, .alreadyOpen, []⟩
  else
    (syncAccept 0 impl.socket impl.state rounds).map fun (result, ec) =>
      let newSocket : SocketHolder := ⟨result⟩
      if newSocket.get ≠ invalidSocket then
        let assigned := peer.assign impl.protocol newSocket.get
        let newSocket := if assigned.ec = .code success then newSocket.release.2 else newSocket
        { assigned with events := .obtained result :: (assigned.events ++ newSocket.destructor) }
      else ⟨peer, .code ec, newSocket.destructor⟩

/-- `start_op`, for the result of `lkl_ioctl`. -/
def startOp (impl : Impl δ) (type : OpType) (noop : Bool) (r : ℤ) : Result δ :=
  if noop = false then
    if HasBits impl.state nonBlocking then
      ⟨impl, .code success, [.startOp type impl.socket impl.reactorData]⟩
    else
      let (ok, ec, state) := setInternalNonBlocking 0 impl.socket impl.state true r
      let impl := { impl with state := state }
      if ok = true then ⟨impl, .code success, [.startOp type impl.socket impl.reactorData]⟩
      else ⟨impl, .code ec, [.completed (.code ec)]⟩
  else ⟨impl, .code success, [.completed (.code success)]⟩

def startAcceptOp (impl : Impl δ) (peerIsOpen : Bool) (r : ℤ) : Result δ :=
  if peerIsOpen = false then impl.startOp .read false r
  else ⟨impl, .alreadyOpen, [.completed .alreadyOpen]⟩

/-- The connect of `start_connect_op`, for the result of `lkl_connect`. -/
def connectOp (impl : Impl δ) (r : ℤ) : Result δ :=
  let (result, ec) := Lkl.connect 0 impl.socket r
  if result ≠ 0 ∧ (ec = inProgress ∨ ec = wouldBlock) then
    ⟨impl, .code success, [.startOp .connect impl.socket impl.reactorData]⟩
  else ⟨impl, .code ec, [.completed (.code ec)]⟩

/-- `start_connect_op`, for the results of `lkl_ioctl` and `lkl_connect`. -/
def startConnectOp (impl : Impl δ) (r connect : ℤ) : Result δ :=
  if HasBits impl.state nonBlocking then impl.connectOp connect
  else
    let (ok, ec, state) := setInternalNonBlocking 0 impl.socket impl.state true r
    let impl := { impl with state := state }
    if ok = true then impl.connectOp connect else ⟨impl, .code ec, [.completed (.code ec)]⟩

/-- `non_blocking`, which sets the mode. -/
def setNonBlocking (impl : Impl δ) (mode : Bool) (r : ℤ) : Result δ :=
  let (_, ec, state) := setUserNonBlocking 0 impl.socket impl.state mode r
  ⟨{ impl with state := state }, .code ec, []⟩

/-- `native_non_blocking`, which sets the mode. -/
def setNativeNonBlocking (impl : Impl δ) (mode : Bool) (r : ℤ) : Result δ :=
  let (_, ec, state) := setInternalNonBlocking 0 impl.socket impl.state mode r
  ⟨{ impl with state := state }, .code ec, []⟩

def setOption (impl : Impl δ) (option : SocketOption) (r : ℤ) : Result δ :=
  let (_, ec, state) := setsockopt 0 impl.socket impl.state option r
  ⟨{ impl with state := state }, .code ec, []⟩

end Impl

/-! ## The service -/

/-- The implementations that exist. The objects are numbered in the order of their creation, so a
number stands for a fresh object, an implementation, and at last a destroyed one. -/
structure SocketService (δ : Type) where
  next : ℕ
  impl : ℕ → Option (Impl δ)

/-- The operations on the implementations. -/
inductive ServiceAction
  | construct
  | openSocket (i : ℕ) (protocol : SocketType) (r : ℤ)
  | assign (i : ℕ) (protocol : SocketType) (d : ℤ)
  | accept (i peer : ℕ) (rounds : List (ℤ × ℤ))
  | close (i : ℕ) (calls : CloseCalls)
  | moveConstruct (other : ℕ)
  | moveAssign (i other : ℕ) (calls : CloseCalls)
  | destroy (i : ℕ) (calls : CloseCalls)
  | cancel (i : ℕ)
  | startOp (i : ℕ) (type : OpType) (noop : Bool) (r : ℤ)
  | startAcceptOp (i : ℕ) (peerIsOpen : Bool) (r : ℤ)
  | startConnectOp (i : ℕ) (r connect : ℤ)
  | setNonBlocking (i : ℕ) (mode : Bool) (r : ℤ)
  | setNativeNonBlocking (i : ℕ) (mode : Bool) (r : ℤ)
  | setOption (i : ℕ) (option : SocketOption) (r : ℤ)
  deriving DecidableEq, Repr

namespace SocketService

def empty : SocketService δ := ⟨0, fun _ => none⟩

def set (s : SocketService δ) (i : ℕ) (x : Option (Impl δ)) : SocketService δ :=
  { s with impl := Function.update s.impl i x }

/-- A new object. -/
def create (s : SocketService δ) (x : Impl δ) : SocketService δ :=
  ⟨s.next + 1, Function.update s.impl s.next (some x)⟩

@[simp] theorem set_impl (s : SocketService δ) (i : ℕ) (x : Option (Impl δ)) :
    (s.set i x).impl = Function.update s.impl i x := rfl

@[simp] theorem create_impl (s : SocketService δ) (x : Impl δ) :
    (s.create x).impl = Function.update s.impl s.next (some x) := rfl

/-- What an operation on one implementation leads to. -/
def apply (s : SocketService δ) (i : ℕ) (result : Result δ) :
    SocketService δ × List (ServiceEvent δ) :=
  (s.set i (some result.impl), result.events)

/-- No other implementation owns the descriptor. -/
def Unowned (s : SocketService δ) (i : ℕ) (d : ℤ) : Prop :=
  ∀ j < s.next, j ≠ i → ∀ x ∈ s.impl j, x.IsOpen → x.socket ≠ d

/-- A result of `lkl_socket` or `lkl_accept`: a descriptor that is not in use, or an error. -/
def LklResult (s : SocketService δ) (r : ℤ) : Prop :=
  r < 0 ∨ r < 2 ^ 31 ∧ ∀ j < s.next, ∀ x ∈ s.impl j, x.IsOpen → x.socket ≠ r

instance (s : SocketService δ) (i : ℕ) (d : ℤ) : Decidable (s.Unowned i d) :=
  inferInstanceAs (Decidable (∀ j < s.next, _ → ∀ x ∈ s.impl j, _ → _))

instance (s : SocketService δ) (r : ℤ) : Decidable (s.LklResult r) :=
  inferInstanceAs (Decidable (_ ∨ _ ∧ ∀ j < s.next, ∀ x ∈ s.impl j, _ → _))

/-- One operation. -/
def perform (reactor : Reactor δ) (s : SocketService δ) :
    ServiceAction → Option (SocketService δ × List (ServiceEvent δ))
  | .construct => some (s.create (Impl.uninitialized reactor).construct, [])
  | .openSocket i protocol r =>
    if s.LklResult r then (s.impl i).map fun x => s.apply i (x.openSocket protocol r) else none
  | .assign i protocol d =>
    if s.Unowned i d then
      (s.impl i).map fun x =>
        let (t, events) := s.apply i (x.assign protocol d)
        -- the caller has handed its descriptor over
        (t, if x.IsOpen ∨ d = invalidSocket then events else .obtained d :: events)
    else none
  | .accept i peer rounds =>
    if ∀ q ∈ rounds, s.LklResult q.1 then
      (s.impl i).bind fun x => (s.impl peer).bind fun y => (x.accept y rounds).map (s.apply peer)
    else none
  | .close i calls => (s.impl i).map fun x => s.apply i (x.close calls)
  | .moveConstruct other =>
    (s.impl other).map fun y =>
      -- the target is a fresh object
      let (x, y) := Impl.moveConstruct reactor (Impl.uninitialized reactor) y
      ((s.set other (some y)).create x, [])
  | .moveAssign i other calls =>
    if i = other then
      (s.impl i).map fun x =>
        let (x, events) := x.moveAssignSelf reactor calls
        (s.set i (some x), events)
    else
      (s.impl i).bind fun x => (s.impl other).map fun y =>
        let (x, y, events) := x.moveAssign reactor y calls
        ((s.set i (some x)).set other (some y), events)
  | .destroy i calls => (s.impl i).map fun x => (s.set i none, (x.destroy calls).2)
  | .cancel i => (s.impl i).map fun x => s.apply i x.cancel
  | .startOp i type noop r => (s.impl i).map fun x => s.apply i (x.startOp type noop r)
  | .startAcceptOp i peerIsOpen r =>
    (s.impl i).map fun x => s.apply i (x.startAcceptOp peerIsOpen r)
  | .startConnectOp i r connect => (s.impl i).map fun x => s.apply i (x.startConnectOp r connect)
  | .setNonBlocking i mode r => (s.impl i).map fun x => s.apply i (x.setNonBlocking mode r)
  | .setNativeNonBlocking i mode r =>
    (s.impl i).map fun x => s.apply i (x.setNativeNonBlocking mode r)
  | .setOption i option r => (s.impl i).map fun x => s.apply i (x.setOption option r)

/-- The events of an operation. -/
def events (reactor : Reactor δ) (s : SocketService δ) (a : ServiceAction) :
    List (ServiceEvent δ) :=
  (s.perform reactor a).elim [] Prod.snd

/-- The service under every sequence of operations and all results of the calls of LKL. -/
def machine (reactor : Reactor δ) : Machine (SocketService δ) ServiceAction where
  init s := s = empty
  step s a := (s.perform reactor a).map Prod.fst

end SocketService

end

end Lkl

end LklSocks
