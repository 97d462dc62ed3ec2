import LklSocks.SocksConnection.Lifetime

/-!
# The server

`main` initialises LKL, runs the handlers of the `io_service` one at a time until a signal stops
it, destroys the `SocksServer`, halts LKL, and destroys the `io_service` with the handlers that
are still queued. Every connection is owned by strong references: the list of the server, the
handlers, the accept operation, the handler that runs, and the calls of `stopConnection` on its
threads.

## Main definitions

* `Handler`: what is posted to the `io_service`
* `MainPoint`: the program points of the main thread
* `SocksServer`: the state of the program
* `SocksServer.useCount`: the strong references to a connection
* `SocksServer.machine`: the program under every order of its steps
-/

namespace LklSocks

/-- The calls of `init_lkl` that return a result. -/
inductive InitStep
  | netdevAdd
  | startKernel
  | netdevGetIfindex
  | ifSetIpv4
  | ifUp
  deriving DecidableEq, Repr

/-- The LKL kernel: whether `lkl_start_kernel` was called, whether every call of `init_lkl`
succeeded, and whether the kernel was halted. -/
structure Kernel where
  started : Bool
  configured : Bool
  halted : Bool
  deriving DecidableEq, Repr

/-- `init_lkl`, for given results of its calls. It returns after a failure, and reports nothing to
its caller. -/
def initLkl (ret : InitStep → ℤ) : Kernel :=
  if ret .netdevAdd < 0 then ⟨false, false, false⟩
  else if ret .netdevGetIfindex < 0 then ⟨true, false, false⟩
  else if ret .ifSetIpv4 < 0 then ⟨true, false, false⟩
  else if ret .ifUp < 0 then ⟨true, false, false⟩
  -- the result of `lkl_start_kernel` is not looked at
  else ⟨true, 0 ≤ ret .startKernel, false⟩

/-- The handlers of the `io_service` that own a connection: the completion of an accept, and the
handlers that `handleAccept` and `stopConnection` post. -/
inductive Handler
  | accepted (conn : ℕ) (error : Option ℕ)
  | start (conn : ℕ)
  | stop (conn : ℕ)
  deriving DecidableEq, Repr

/-- The connection that a handler owns. -/
def Handler.conn : Handler → ℕ
  | accepted conn _ => conn
  | start conn => conn
  | stop conn => conn

@[simp] theorem Handler.conn_accepted (c : ℕ) (error : Option ℕ) :
    (accepted c error).conn = c := rfl
@[simp] theorem Handler.conn_start (c : ℕ) : (start c).conn = c := rfl
@[simp] theorem Handler.conn_stop (c : ℕ) : (stop c).conn = c := rfl

/-- The error of an accept that is cancelled (`operation_aborted`). -/
def operationAborted : ℕ := 125

/-- The program points of the main thread. -/
inductive MainPoint
  | initLkl
  | construct
  | loop
  | rearm (conn : ℕ)
  | startThread (conn : ℕ)
  | sleep (conn : ℕ)
  | remove (conn : ℕ)
  | finish (conn : ℕ)
  | closeAcceptor
  | dropConnections
  | haltLkl
  | dropHandlers
  | exited
  deriving DecidableEq, Repr

/-- The connection that the running handler owns. -/
def MainPoint.conn : MainPoint → Option ℕ
  | rearm conn => some conn
  | startThread conn => some conn
  | sleep conn => some conn
  | remove conn => some conn
  | finish conn => some conn
  | _ => none

/-- The state of the program. Connections are numbered in the order of their creation. `posted`
and `ran` are history: the handlers that were posted, and those that have had their effect. -/
structure SocksServer where
  order : ByteOrder
  kernel : Kernel
  main : MainPoint
  destroying : Option ℕ
  queue : List Handler
  connections : List ℕ
  accepting : Option ℕ
  next : ℕ
  conn : ℕ → SocksConnection
  posted : List Handler
  ran : List Handler
  terminated : Bool

namespace SocksServer

/-- Before `main`. The connections that were not yet created are irrelevant. -/
def initial (order : ByteOrder) : SocksServer where
  order := order
  kernel := ⟨false, false, false⟩
  main := .initLkl
  destroying := none
  queue := []
  connections := []
  accepting := none
  next := 0
  conn _ := .create order ⟨0, .zeros, .zeros⟩
  posted := []
  ran := []
  terminated := false

/-- The strong references outside the threads of the connections. -/
def owners (s : SocksServer) : List ℕ :=
  s.connections ++ s.queue.map Handler.conn ++ s.accepting.toList ++ s.main.conn.toList

/-- The strong references to a connection. -/
def useCount (s : SocksServer) (c : ℕ) : ℕ := s.owners.count c + (s.conn c).held

def setConn (s : SocksServer) (c : ℕ) (x : SocksConnection) : SocksServer :=
  { s with conn := Function.update s.conn c x }

/-- `io_service.post`. -/
def post (s : SocksServer) (handlers : List Handler) : SocksServer :=
  { s with queue := s.queue ++ handlers, posted := s.posted ++ handlers }

/-- After the main thread has released a reference: if it was the last one, the main thread runs the
destructor before it goes on. -/
def release (s : SocksServer) (c : ℕ) : SocksServer :=
  if s.useCount c = 0 ∧ (s.conn c).destructor = none then
    { s.setConn c { s.conn c with destructor := some (.main, .closeRemote) } with
      destroying := some c }
  else s

section Fields

variable (s : SocksServer) (c : ℕ) (x : SocksConnection) (handlers : List Handler)

@[simp] theorem setConn_main : (s.setConn c x).main = s.main := rfl
@[simp] theorem setConn_queue : (s.setConn c x).queue = s.queue := rfl
@[simp] theorem setConn_connections : (s.setConn c x).connections = s.connections := rfl
@[simp] theorem setConn_accepting : (s.setConn c x).accepting = s.accepting := rfl
@[simp] theorem setConn_next : (s.setConn c x).next = s.next := rfl
@[simp] theorem setConn_posted : (s.setConn c x).posted = s.posted := rfl
@[simp] theorem setConn_ran : (s.setConn c x).ran = s.ran := rfl
@[simp] theorem setConn_conn : (s.setConn c x).conn = Function.update s.conn c x := rfl
@[simp] theorem post_main : (s.post handlers).main = s.main := rfl
@[simp] theorem post_connections : (s.post handlers).connections = s.connections := rfl
@[simp] theorem post_accepting : (s.post handlers).accepting = s.accepting := rfl
@[simp] theorem post_next : (s.post handlers).next = s.next := rfl
@[simp] theorem post_conn : (s.post handlers).conn = s.conn := rfl
@[simp] theorem post_ran : (s.post handlers).ran = s.ran := rfl
@[simp] theorem post_queue : (s.post handlers).queue = s.queue ++ handlers := rfl
@[simp] theorem post_posted : (s.post handlers).posted = s.posted ++ handlers := rfl
@[simp] theorem release_kernel : (s.release c).kernel = s.kernel := by
  unfold release
  split <;> rfl
@[simp] theorem release_main : (s.release c).main = s.main := by
  unfold release
  split <;> rfl
@[simp] theorem release_queue : (s.release c).queue = s.queue := by
  unfold release
  split <;> rfl
@[simp] theorem release_connections : (s.release c).connections = s.connections := by
  unfold release
  split <;> rfl
@[simp] theorem release_accepting : (s.release c).accepting = s.accepting := by
  unfold release
  split <;> rfl
@[simp] theorem release_next : (s.release c).next = s.next := by
  unfold release
  split <;> rfl
@[simp] theorem release_posted : (s.release c).posted = s.posted := by
  unfold release
  split <;> rfl
@[simp] theorem release_ran : (s.release c).ran = s.ran := by
  unfold release
  split <;> rfl

end Fields

/-! ## The main thread -/

/-- `startAccept`: a new connection, at an address that no other one has, and the accept operation
that owns it. -/
def startAccept (s : SocksServer) (a : Allocation) (main : MainPoint) : Option SocksServer :=
  if ∀ c < s.next, (s.conn c).address = a.address → (s.conn c).Freed then
    some { s.setConn s.next (.create s.order a) with
      accepting := some s.next, next := s.next + 1, main := main }
  else none

/-- `handleAccept`, up to its call of `startAccept`. -/
def handleAccept (s : SocksServer) (c : ℕ) (error : Option ℕ) : SocksServer :=
  { s.post (if error = none then [.start c] else []) with
    main := .rearm c, ran := s.ran ++ [.accepted c error] }

/-- `run` takes the next handler. -/
def runHandler (s : SocksServer) : Option SocksServer :=
  match s.queue with
  | [] => none
  | .accepted c error :: rest => some ({ s with queue := rest }.handleAccept c error)
  | .start c :: rest =>
    some { s with
      queue := rest, connections := s.connections ++ [c], main := .startThread c
      ran := s.ran ++ [.start c] }
  | .stop c :: rest => some { s with queue := rest, main := .sleep c }

/-- The end of `SocksConnection::start`: the assignment to a joinable thread terminates the
program. -/
def startThread (s : SocksServer) (c : ℕ) : SocksServer :=
  match (s.conn c).step .start with
  | some x => { s.setConn c x with main := .finish c }
  | none => { s with terminated := true }

/-- `connections.remove(conn)`, which compares addresses. -/
def remove (s : SocksServer) (c : ℕ) : SocksServer :=
  { s with
    connections := s.connections.filter fun d => (s.conn d).address ≠ (s.conn c).address
    main := .finish c, ran := s.ran ++ [.stop c] }

/-- The first part of `~SocksServer`: the outstanding accept completes with an error, and its
handler is queued but not run. -/
def closeAcceptor (s : SocksServer) : SocksServer :=
  { s with
    queue := s.queue ++ s.accepting.toList.map fun c => .accepted c (some operationAborted)
    accepting := none, main := .dropConnections }

/-- The next step of the main thread, where it needs no choice of the environment. -/
def mainStep (s : SocksServer) : Option SocksServer :=
  match s.main with
  | .loop => s.runHandler
  | .startThread c => some (s.startThread c)
  | .sleep c => some { s with main := .remove c }
  | .remove c => some (s.remove c)
  -- the handler is destroyed, with the reference it owns
  | .finish c => some ({ s with main := .loop }.release c)
  | .closeAcceptor => some s.closeAcceptor
  | .dropConnections =>
    match s.connections with
    | [] => some { s with main := .haltLkl }
    | c :: rest => some ({ s with connections := rest }.release c)
  | .haltLkl => some { s with kernel.halted := true, main := .dropHandlers }
  | .dropHandlers =>
    match s.queue with
    | [] => some { s with main := .exited }
    | h :: rest => some ({ s with queue := rest }.release h.conn)
  | _ => none

/-- The accept operation completes, when `run` polls the reactor. -/
def accept (s : SocksServer) (error : Option ℕ) (stream : List UInt8) : Option SocksServer :=
  match s.accepting with
  | none => none
  | some c =>
    let handled := { s with queue := s.queue ++ [.accepted c error], accepting := none }
    if error = none then ((s.conn c).step (.accept stream)).map fun x => handled.setConn c x
    else some handled

/-! ## The threads of the connections -/

/-- The handler that a step of a thread posts: the one of the call of `stopConnection` it is in. -/
def posting (c : ℕ) (call : Option StopCall) : List Handler :=
  if call = some .argument then [.stop c] else []

def hostStep (s : SocksServer) (c : ℕ) (out : Outcome) : Option SocksServer :=
  ((s.conn c).hostStep (s.useCount c) out).map fun x =>
    { (s.setConn c x).post (posting c (s.conn c).hostThread.call) with
      terminated := x.hostThread = .escaped }

def remoteStep (s : SocksServer) (c : ℕ) (out : Outcome) : Option SocksServer :=
  ((s.conn c).remoteStep (s.useCount c) out).map fun x =>
    (s.setConn c x).post (posting c (s.conn c).remoteThread.call)

/-- A step of a destructor. The main thread goes on when the one it runs is done. -/
def destroyStep (s : SocksServer) (c : ℕ) : Option SocksServer :=
  (s.conn c).destroyStep.map fun x =>
    { s.setConn c x with
      destroying := if x.destructor = some (.main, .done) then none else s.destroying
      terminated := x.destructor.map Prod.snd = some .aborted }

/-! ## The machine -/

/-- The steps of the program, with the choices of the environment. -/
inductive Action
  | init (ret : InitStep → ℤ)
  | alloc (a : Allocation)
  | main
  | startFails
  | accept (error : Option ℕ) (stream : List UInt8)
  | signal
  | host (c : ℕ) (out : Outcome)
  | remote (c : ℕ) (out : Outcome)
  | destructor (c : ℕ)

/-- The steps of the main thread. -/
def serverStep (s : SocksServer) : Action → Option SocksServer
  | .init ret =>
    if s.main = .initLkl then some { s with kernel := initLkl ret, main := .construct } else none
  | .alloc a =>
    match s.main with
    | .construct => s.startAccept a .loop
    | .rearm c => s.startAccept a (.finish c)
    | _ => none
  | .main => s.mainStep
  -- `std::thread` throws, and the exception leaves `run` and `main`
  | .startFails =>
    match s.main with
    | .startThread _ => some { s with terminated := true }
    | _ => none
  | .accept error stream => if s.main = .loop then s.accept error stream else none
  -- the signal handler stops the `io_service`, and `run` returns
  | .signal => if s.main = .loop then some { s with main := .closeAcceptor } else none
  | _ => none

def step (s : SocksServer) (a : Action) : Option SocksServer :=
  if s.terminated = true ∨ s.main = .exited then none
  else
    match a with
    | .host c out => s.hostStep c out
    | .remote c out => s.remoteStep c out
    | .destructor c => s.destroyStep c
    -- the main thread is not in a destructor
    | a => if s.destroying = none then s.serverStep a else none

def machine : Machine SocksServer Action where
  init s := ∃ order, s = initial order
  step := step

end SocksServer

end LklSocks
