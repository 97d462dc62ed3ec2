import LklSocks.SocksConnection.RemoteSocket
import LklSocks.SocksServer.Shutdown

/-!
# The program on the socket service

The connections of the server share one socket service. A connection is created with an
implementation for its remote socket, so the implementations have the numbers of the connections,
and every step of the program makes the operations of its connection on the service. The program
together with the service owns the descriptors of LKL: the service carries out every step, the
remote sockets share no descriptor, and a descriptor is closed or belongs to a connection that is
not freed yet.

## Main definitions

* `SocksServer.serviceCalls`: the operations that a step of the program makes on the service
* `Program`, `Program.machine`: the program with the service

## Main results

* `Program.backed`: every remote socket is backed by the implementation of its number
* `Program.implements_service`: the program runs the service
* `Program.descriptors_of_connections`: the descriptors of LKL in every run of the program
-/

namespace LklSocks

open Lkl (Impl Reactor ServiceAction ServiceEvent SocketService)

namespace SocksServer

/-- The operations of a step on the service. A new connection constructs its remote socket. -/
def serviceCalls (s : SocksServer) (r : LklResults) : Action → List ServiceAction
  | .alloc _ => [.construct]
  | .host c out => (s.conn c).serviceCalls c r (.host (s.useCount c) out)
  | .remote c out => (s.conn c).serviceCalls c r (.remote (s.useCount c) out)
  | .destructor c => (s.conn c).serviceCalls c r .destructor
  | _ => []

/-- A step that opens a remote socket makes no other operation. -/
theorem serviceCalls_eq_of_mem {s : SocksServer} {r : LklResults} {a : Action} {i : ℕ} {d : ℤ}
    (h : .openSocket i .stream d ∈ s.serviceCalls r a) :
    s.serviceCalls r a = [.openSocket i .stream d] := by
  unfold serviceCalls at h ⊢
  split at h
  · cases List.mem_singleton.mp h
  · exact SocksConnection.serviceCalls_eq_of_mem h
  · exact SocksConnection.serviceCalls_eq_of_mem h
  · exact SocksConnection.serviceCalls_eq_of_mem h
  · cases h

/-- The outcome of the opening of a remote socket. -/
def opening (s : SocksServer) : Action → Option Outcome
  | .host c out => (s.conn c).opening (.host (s.useCount c) out)
  | _ => none

/-- The outcome of a step is that of LKL. -/
def Agrees (s : SocksServer) (r : LklResults) (a : Action) : Prop :=
  ∀ out ∈ s.opening a, (out = .ok ↔ 0 ≤ r.socket)

instance (s : SocksServer) (r : LklResults) (a : Action) : Decidable (s.Agrees r a) :=
  inferInstanceAs (Decidable (∀ out ∈ s.opening a, _))

end SocksServer

/-- The program and the socket service of LKL. -/
structure Program (δ : Type) where
  server : SocksServer
  service : SocketService δ

namespace Program

variable {δ : Type} {reactor : Reactor δ}

/-- Before `main`. -/
def initial (order : ByteOrder) : Program δ := ⟨.initial order, .empty⟩

/-- The program under every order of its steps and all results of LKL. -/
def machine (reactor : Reactor δ) : Machine (Program δ) (SocksServer.Action × LklResults) where
  init p := ∃ order, p = initial order
  step p a :=
    if p.server.Agrees a.2 a.1 then
      (p.server.step a.1).bind fun t =>
        ((SocketService.machine reactor).exec p.service (p.server.serviceCalls a.2 a.1)).map
          (⟨t, ·⟩)
    else none

/-- What the service does in a step. -/
def events (reactor : Reactor δ) (p : Program δ) (a : SocksServer.Action × LklResults) :
    List (ServiceEvent δ) :=
  (SocketService.machine reactor).trace (SocketService.events reactor) p.service
    (p.server.serviceCalls a.2 a.1)

variable {p q : Program δ} {a : SocksServer.Action × LklResults}

/-- Inversion of a step. -/
theorem step_cases (h : (machine reactor).step p a = some q) :
    p.server.Agrees a.2 a.1 ∧ p.server.step a.1 = some q.server ∧
      (SocketService.machine reactor).exec p.service (p.server.serviceCalls a.2 a.1) =
        some q.service := by
  obtain ⟨hagrees, h⟩ := Option.ite_none_right_eq_some.mp h
  obtain ⟨t, ht, h⟩ := Option.bind_eq_some_iff.mp h
  obtain ⟨w, hw, rfl⟩ := Option.map_eq_some_iff.mp h
  exact ⟨hagrees, ht, hw⟩

theorem server_reachable (h : (machine reactor).Reachable p) :
    SocksServer.machine.Reachable p.server := by
  refine h.invariant (P := fun p => SocksServer.machine.Reachable p.server) ?_ ?_
  · rintro _ ⟨order, rfl⟩
    exact .of_init ⟨order, rfl⟩
  · intro p a q _ hp hs
    exact hp.step (step_cases hs).2.1

/-- **The program runs the service.** -/
theorem implements_service (reactor : Reactor δ) :
    Machine.Implements (machine reactor) (SocketService.machine reactor) service
      (events reactor) (SocketService.events reactor) where
  init := by
    rintro _ ⟨order, rfl⟩
    rfl
  step := by
    intro p a q _ hs
    exact ⟨_, (step_cases hs).2.2, rfl⟩

/-- The implementations have the numbers of the connections, and back their remote sockets. -/
structure Backed (p : Program δ) : Prop where
  next : p.service.next = p.server.next
  conn : ∀ c < p.server.next, (p.server.conn c).Backed (p.service.impl c)

/-- A step of the main thread that the service does not see. -/
theorem Backed.unseen (reactor : Reactor δ) {t : SocksServer} {b : SocksServer.Action}
    (h : p.Backed) (ho : p.server.OwnedBy) (hs : p.server.Steps b t)
    (hnext : t.next = p.server.next)
    (hcalls : ∀ c b' r, p.server.Causes c b b' →
      (p.server.conn c).serviceCalls c r b' = [] ∧ (p.server.conn c).Agrees r b') :
    (⟨t, p.service⟩ : Program δ).Backed := by
  refine ⟨h.next.trans hnext.symm, fun c hc => ?_⟩
  have hc' : c < p.server.next := hnext ▸ hc
  have hback := h.conn c hc'
  rcases ho.connSteps hs c with hsame | ⟨hnew, -, -⟩ | ⟨b', hb, hx⟩
  · rw [show (⟨t, p.service⟩ : Program δ).server.conn c = p.server.conn c from hsame]
    exact hback
  · exact absurd hnew hc'.ne
  · obtain ⟨hnil, hagrees⟩ := hcalls c b' ⟨0, 0, 0⟩ hb
    obtain ⟨w, hw⟩ := hback.steps reactor (ho.reachable c)
      (SocksConnection.step_cases hx) hagrees (fun hm => by rw [hnil] at hm; cases hm)
    have hexec := hw.exec
    rw [hnil] at hexec
    obtain rfl := Option.some.inj hexec
    exact hw.backed

/-- A step of one connection. -/
theorem Backed.update {t : SocksServer} {c : ℕ} {b : ConnectionAction} {x : SocksConnection}
    {r : LklResults} (h : p.Backed) (ho : p.server.OwnedBy) (hc : c < p.server.next)
    (hx : (p.server.conn c).step b = some x) (hconn : t.conn = Function.update p.server.conn c x)
    (hnext : t.next = p.server.next) (hagrees : (p.server.conn c).Agrees r b)
    (hfresh : .openSocket c .stream r.socket ∈ (p.server.conn c).serviceCalls c r b →
      p.service.LklResult r.socket) :
    ∃ w, (SocketService.machine reactor).exec p.service ((p.server.conn c).serviceCalls c r b) =
      some w ∧ (⟨t, w⟩ : Program δ).Backed := by
  obtain ⟨w, hw⟩ := (h.conn c hc).steps reactor (ho.reachable c)
    (SocksConnection.step_cases hx) hagrees hfresh
  refine ⟨w, hw.exec, (hw.next.trans h.next).trans hnext.symm, fun d hd => ?_⟩
  show (t.conn d).Backed (w.impl d)
  rw [hconn]
  by_cases hdc : d = c
  · subst hdc
    rw [Function.update_self]
    exact hw.backed
  · rw [Function.update_of_ne hdc, hw.others d hdc]
    exact h.conn d (hnext ▸ hd)

/-- A new connection constructs its remote socket, which has the next number of the service. -/
theorem Backed.create {t : SocksServer} {alloc : Allocation} (h : p.Backed)
    (hconn : t.conn = Function.update p.server.conn p.server.next (.create p.server.order alloc))
    (hnext : t.next = p.server.next + 1) :
    ∃ w, (SocketService.machine reactor).exec p.service [.construct] = some w ∧
      (⟨t, w⟩ : Program δ).Backed := by
  refine ⟨_, rfl, (congrArg (· + 1) h.next).trans hnext.symm, fun d hd => ?_⟩
  have hd' : d < p.server.next + 1 := hnext ▸ hd
  show (t.conn d).Backed (Function.update p.service.impl p.service.next _ d)
  rw [hconn, h.next]
  by_cases hdn : d = p.server.next
  · subst hdn
    rw [Function.update_self, Function.update_self]
    exact ⟨nofun, fun _ => ⟨_, rfl, iff_of_false (fun hopen => hopen rfl) nofun⟩⟩
  · rw [Function.update_of_ne hdn, Function.update_of_ne hdn]
    exact h.conn d (by omega)

/-- **The service carries out every step of the program.** -/
theorem Backed.steps (reactor : Reactor δ) {t : SocksServer} {b : SocksServer.Action}
    {r : LklResults} (h : p.Backed) (ho : p.server.OwnedBy) (hs : p.server.Steps b t)
    (hagrees : p.server.Agrees r b)
    (hfresh : ∀ c, .openSocket c .stream r.socket ∈ p.server.serviceCalls r b →
      p.service.LklResult r.socket) :
    ∃ w, (SocketService.machine reactor).exec p.service (p.server.serviceCalls r b) = some w ∧
      (⟨t, w⟩ : Program δ).Backed := by
  cases hs with
  | server hb hs =>
    have hsteps : p.server.Steps b t := .server hb hs
    cases hs with
    | construct hm ha => exact h.create rfl rfl
    | rearm hm ha => exact h.create rfl rfl
    | accepted hm ha hx =>
      refine ⟨_, rfl, h.unseen reactor ho hsteps rfl ?_⟩
      rintro c b' r (_ | _)
      exact ⟨rfl, SocksConnection.agrees_of_opening rfl⟩
    | _ =>
      refine ⟨_, rfl, h.unseen reactor ho hsteps
        (by simp [SocksServer.handleAccept, SocksServer.remove, SocksServer.closeAcceptor]) ?_⟩
      rintro c b' r (_ | _) <;> exact ⟨rfl, SocksConnection.agrees_of_opening rfl⟩
  | host hx =>
    exact h.update ho (ho.lt_of_host hx) (ho.host_step hx) rfl rfl hagrees (hfresh _)
  | remote hx =>
    exact h.update ho (ho.lt_of_remote hx) (ho.remote_step hx) rfl rfl
      (SocksConnection.agrees_of_opening rfl) (hfresh _)
  | @destructor c x hx =>
    have hx' : (p.server.conn c).step .destructor = some x := hx
    exact h.update ho (ho.lt_of_destroy hx) hx' rfl rfl (SocksConnection.agrees_of_opening rfl)
      (hfresh c)

/-- The service opens a socket with a descriptor that is not in use. -/
theorem lklResult_of_exec {b : SocksServer.Action} {r : LklResults} {w : SocketService δ} {c : ℕ}
    (hexec : (SocketService.machine reactor).exec p.service (p.server.serviceCalls r b) = some w)
    (hm : .openSocket c .stream r.socket ∈ p.server.serviceCalls r b) :
    p.service.LklResult r.socket := by
  rw [SocksServer.serviceCalls_eq_of_mem hm, Machine.exec_cons] at hexec
  obtain ⟨v, hv, -⟩ := Option.bind_eq_some_iff.mp hexec
  obtain ⟨⟨u, evs⟩, hp, -⟩ := Option.map_eq_some_iff.mp hv
  exact (Option.ite_none_right_eq_some.mp hp).1

/-- **Every remote socket is backed by the implementation of its number.** -/
theorem backed (h : (machine reactor).Reachable p) : p.Backed := by
  refine h.invariant (P := Backed) ?_ ?_
  · rintro _ ⟨order, rfl⟩
    exact ⟨rfl, fun c hc => absurd hc (Nat.not_lt_zero c)⟩
  · intro p a q hr hp hs
    obtain ⟨hagrees, ht, hexec⟩ := step_cases hs
    obtain ⟨w, hw, hback⟩ := hp.steps reactor
      (SocksServer.ownedBy (server_reachable hr)) (SocksServer.step_cases ht).2.2 hagrees
      fun c hm => lklResult_of_exec hexec hm
    obtain rfl := Option.some.inj (hw.symm.trans hexec)
    exact hback

/-- A connection has a descriptor of LKL while its remote socket is open. -/
theorem Backed.isOpen_iff (h : p.Backed) (ho : p.server.OwnedBy) {c : ℕ}
    (hc : c < p.server.next) :
    (p.server.conn c).remoteSocket.isOpen = true ↔ ∃ d, p.service.Holds c d := by
  have hback := h.conn c hc
  by_cases hf : (p.server.conn c).Freed
  · have hclosed := SocksConnection.closed_of_freed (ho.reachable c) hf
    have hnone := hback.freed hf
    refine iff_of_false (by simp [hclosed]) ?_
    rintro ⟨d, x, hx, -⟩
    cases hnone.symm.trans hx
  · obtain ⟨y, hy, hiff⟩ := hback.alive hf
    rw [← hiff]
    constructor
    · exact fun hopen => ⟨y.socket, y, hy, hopen, rfl⟩
    · rintro ⟨d, x, hx, hopen, -⟩
      obtain rfl := Option.some.inj (hy.symm.trans hx)
      exact hopen

/-- A descriptor that is held belongs to a connection that was created and is not freed. -/
theorem Backed.of_holds (h : p.Backed) (hn : p.service.Numbered) {c : ℕ} {d : ℤ}
    (hd : p.service.Holds c d) : c < p.server.next ∧ ¬ (p.server.conn c).Freed := by
  obtain ⟨x, hx, -⟩ := hd
  have hc : c < p.server.next := by
    by_contra hle
    rw [hn c (h.next ▸ not_lt.mp hle)] at hx
    cases hx
  refine ⟨hc, fun hf => ?_⟩
  cases ((h.conn c hc).freed hf).symm.trans hx

/-- **The descriptors of LKL in every run of the program**, for all results of LKL. A connection has
a descriptor exactly while its remote socket is open, and no two connections have the same. Every
descriptor that was obtained was closed since, or belongs to a connection that is not freed. The
kernel of the host closes none. And the service refuses no step of the program. -/
theorem descriptors_of_connections {order : ByteOrder}
    {as : List (SocksServer.Action × LklResults)}
    (h : (machine reactor).exec (initial order) as = some p) :
    (∀ c < p.server.next,
      (p.server.conn c).remoteSocket.isOpen = true ↔ ∃ d, p.service.Holds c d) ∧
    (∀ c c' d, p.service.Holds c d → p.service.Holds c' d → c = c') ∧
    (∀ pre d post,
      (machine reactor).trace (events reactor) (initial order) as = pre ++ .obtained d :: post →
        (∃ r, .close d r ∈ post) ∨
          ∃ c < p.server.next, p.service.Holds c d ∧ ¬ (p.server.conn c).Freed) ∧
    (∀ d, .hostClose d ∉ (machine reactor).trace (events reactor) (initial order) as) ∧
    ∀ a r t, p.server.step a = some t → p.server.Agrees r a → p.service.LklResult r.socket →
      ∃ w, (machine reactor).step p (a, r) = some ⟨t, w⟩ := by
  have hr : (machine reactor).Reachable p := ⟨initial order, as, ⟨order, rfl⟩, h⟩
  have hback := backed hr
  have howned := SocksServer.ownedBy (server_reachable hr)
  obtain ⟨bs, hb, htrace⟩ := (implements_service reactor).exec ⟨order, rfl⟩ h
  have hservice : (SocketService.machine reactor).Reachable p.service := ⟨.empty, bs, rfl, hb⟩
  have hnumbered := SocketService.numbered_of_reachable hservice
  rw [← htrace]
  refine ⟨fun c hc => hback.isOpen_iff howned hc, ?_, ?_, ?_, ?_⟩
  · intro c c' d hc hc'
    exact SocketService.owners_exclusive hservice c c' d
      (SocketService.owners_eq_some.mpr hc) (SocketService.owners_eq_some.mpr hc')
  · intro pre d post hpost
    refine (SocketService.held_or_closed hb hpost).imp_right ?_
    rintro ⟨c, hc⟩
    obtain ⟨hlt, hf⟩ := hback.of_holds hnumbered hc
    exact ⟨c, hlt, hc, hf⟩
  · intro d hd
    obtain ⟨v, a, w, hT, hmem⟩ := Machine.exists_takes_of_mem_trace _ _ hb hd
    have hv := hT.visits_left.reachable rfl
    exact (SocketService.steps_of_step hv hT.step_eq).hostClose_notMem d hmem
  · intro a r t ht hagrees hfresh
    obtain ⟨w, hw, -⟩ := hback.steps reactor howned
      (SocksServer.step_cases ht).2.2 hagrees fun _ _ => hfresh
    refine ⟨w, (if_pos hagrees).trans ?_⟩
    rw [ht, Option.bind_some, hw]
    rfl

/-- The remote socket of the first connection is opened with the descriptor 7. -/
def openedRun : List (SocksServer.Action × LklResults) :=
  let run : List SocksServer.Action :=
    SocksServer.startRun (SocksConnection.sampleHeader ++ [0]) ++
      [.host 0 (.data SocksConnection.sampleHeader), .host 0 (.data [0]), .host 0 .ok]
  run.map (·, ⟨7, 0, 0⟩)

theorem descriptors_of_connections_openedRun :
    ∃ p, (machine Reactor.epoll).exec (initial .little) openedRun = some p ∧
      ∃ d, p.service.Holds 0 d := by
  obtain ⟨p, hp, hopen⟩ : ∃ p, (machine Reactor.epoll).exec (initial .little) openedRun = some p ∧
      0 < p.server.next ∧ (p.server.conn 0).remoteSocket.isOpen = true := by
    obtain ⟨p, hp⟩ : ∃ p, (machine Reactor.epoll).exec (initial .little) openedRun = some p :=
      Option.isSome_iff_exists.mp rfl
    obtain rfl := Option.some.inj hp
    exact ⟨_, rfl, by decide, rfl⟩
  exact ⟨p, hp, ((descriptors_of_connections hp).1 0 hopen.1).mp hopen.2⟩

end Program

end LklSocks
