import LklSocks.SocksServer.Order
import LklSocks.SocksServer.Termination
import Mathlib.Algebra.BigOperators.Intervals

/-!
# The server goes on serving

A client that is accepted gives the `io_service` at most four handlers: the completion of its
accept, its start handler and a stop handler of each thread, and it sends finitely many bytes, as
its remote does. So only the accepts keep the program busy: every other step uses up a handler, or
brings a thread, a destructor or `main` nearer to its end. In a run without end accepts complete
again and again, with a client or with an error, and every handler that was handed to the
`io_service` runs in it.

## Main definitions

* `SocksServer.handlersLeft`: the handlers that can still run without a new client
* `SocksServer.work`: what the program has still to do without a new client

## Main results

* `SocksServer.Steps.work_lt`: every step but an accept makes it smaller
* `SocksServer.ran_of_accept`: between two accepts the handlers run
* `SocksServer.every_handler_runs`: in a run without end every handler runs
-/

namespace LklSocks

/-! ## The handlers that a connection can still post -/

/-- The handlers that a call of `stopConnection` has still to post. -/
def StopCall.handlersLeft : StopCall → ℕ
  | argument => 1
  | _ => 0

def RelayPoint.handlersLeft : RelayPoint → ℕ
  | stop call => call.handlersLeft
  | returned => 0
  | _ => 1

/-- The handlers that the host thread can still post, and the remote thread that it starts. -/
def HostPoint.handlersLeft : HostPoint → ℕ
  | idle => 0
  | relay point => point.handlersLeft
  | catchAll => 1
  | stop call => call.handlersLeft
  | escaped => 0
  | _ => 2

def RemotePoint.handlersLeft : RemotePoint → ℕ
  | idle => 0
  | relay point => point.handlersLeft

theorem StopCall.handlersLeft_next {useCount : ℕ} {call next : StopCall}
    (h : call.next useCount = some next) :
    next.handlersLeft + posts (some call) ≤ call.handlersLeft := by
  cases call with
  | argument =>
    obtain rfl := Option.some.inj h
    exact le_rfl
  | posted =>
    obtain rfl := Option.some.inj h
    split <;> exact le_rfl
  | destroying => cases h
  | done => cases h

/-- A loop posts one handler at most. -/
theorem Relay.Steps.handlersLeft {useCount : ℕ} {r r' : Relay} {out : Outcome}
    (hs : r.Steps useCount out r') :
    r'.point.handlersLeft + posts r.point.call ≤ r.point.handlersLeft := by
  cases hs with
  | write hp hw =>
    rw [hp]
    dsimp only
    split <;> exact le_rfl
  | silent hp he =>
    rw [hp]
    exact Nat.zero_le 1
  | expired hp hu =>
    rw [hp]
    exact Nat.zero_le 1
  | stop hp hc =>
    rw [hp]
    exact StopCall.handlersLeft_next hc
  | _ hp =>
    rw [hp]
    exact le_rfl

namespace SocksConnection

variable {c c' : SocksConnection} {a : ConnectionAction} {useCount : ℕ} {out : Outcome}

/-- The handlers that the threads of a connection can still post. -/
def handlersLeft (c : SocksConnection) : ℕ :=
  c.hostThread.handlersLeft + c.remoteThread.handlersLeft

theorem HandshakeSteps.handlersLeft (hf : c.Framed) (hs : c.HandshakeSteps useCount out c') :
    c'.handlersLeft + posts c.hostThread.call ≤ c.handlersLeft := by
  have hhost {p : HostPoint} {c' : SocksConnection} (hp : c.hostThread = p)
      (hle : c'.hostThread.handlersLeft + posts p.call ≤ p.handlersLeft)
      (hr : c'.remoteThread = c.remoteThread) :
      c'.handlersLeft + posts c.hostThread.call ≤ c.handlersLeft := by
    rw [← hp] at hle
    unfold SocksConnection.handlersLeft
    rw [hr]
    omega
  cases hs with
  | headerError hp hf => exact hhost hp (show 1 ≤ 2 by decide) rfl
  | userdataError hp hf => exact hhost hp (show 1 ≤ 2 by decide) rfl
  | @endReply code rest n hp hw hr =>
    refine hhost hp ?_ rfl
    cases code with
    | success => exact show 2 ≤ 2 from le_rfl
    | _ => exact show 1 ≤ 2 by decide
  | replyError hp => exact hhost hp (show 1 ≤ 2 by decide) rfl
  | startRemote hp =>
    have hidle : c.remoteThread = .idle := by
      simp only [Framed, hp] at hf
      exact hf.1
    unfold SocksConnection.handlersLeft
    rw [hp, hidle]
    exact show 2 ≤ 2 from le_rfl
  | startError hp => exact hhost hp (show 1 ≤ 2 by decide) rfl
  | relay hp hs => exact hhost hp hs.handlersLeft rfl
  | expired hp hu => exact hhost hp (show 0 ≤ 1 by decide) rfl
  | stop hp hc => exact hhost hp (StopCall.handlersLeft_next hc) rfl
  | _ hp => exact hhost hp le_rfl rfl

/-- A step hands over what the connection has one handler less to post of. -/
theorem Steps.handlersLeft (hf : c.Framed) (hs : c.Steps a c') (ha : a ≠ .start) :
    c'.handlersLeft + posts (a.call c) ≤ c.handlersLeft := by
  cases hs with
  | accept ho hd => exact le_rfl
  | start hp hd => exact absurd rfl ha
  | @host useCount out d hu hs =>
    unfold SocksConnection.handlersLeft
    rw [d.releaseHost_threads.1, d.releaseHost_threads.2]
    exact hs.handlersLeft hf
  | @remote useCount out q r hu hq hs =>
    have hle := hs.handlersLeft
    have hcall : c.remoteThread.call = q.call := by
      rw [hq]
      rfl
    unfold SocksConnection.handlersLeft
    rw [(c.relayedRemote r).releaseRemote_threads.1, (c.relayedRemote r).releaseRemote_threads.2]
    show _ + r.point.handlersLeft + posts c.remoteThread.call ≤ _
    rw [hcall, hq, Nat.add_assoc]
    exact Nat.add_le_add_left hle _
  | destroy hd => exact le_rfl
  | destructor hs =>
    unfold SocksConnection.handlersLeft
    rw [hs.threads.1, hs.threads.2]
    exact le_rfl

end SocksConnection

/-! ## The handlers that can still run -/

/-- A handler and those that come of it: the start handler of a client that was accepted, and the
stop handlers of both threads. -/
def Handler.handlersLeft : Handler → ℕ
  | accepted _ error => if error = none then 4 else 1
  | start _ => 3
  | stop _ => 1

/-- The thread that `start` is about to create, and the handler of the accept that `~SocksServer`
cancels. -/
def MainPoint.handlersLeft : MainPoint → ℕ
  | startThread _ => 3
  | dropConnections => 0
  | haltLkl => 0
  | dropHandlers => 0
  | exited => 0
  | _ => 1

namespace SocksServer

variable {s t : SocksServer} {a : Action} {c : ℕ}

/-- The handlers that are queued or run, with those that come of them. -/
def handlersQueued (s : SocksServer) : ℕ :=
  (s.queue.map Handler.handlersLeft).sum + s.main.handlersLeft

/-- The handlers that can still run without a new client. -/
def handlersLeft (s : SocksServer) : ℕ :=
  s.handlersQueued + ∑ c ∈ Finset.range s.next, (s.conn c).handlersLeft

/-- What the program has still to do without a new client. -/
def work (s : SocksServer) : ℕ ×ₗ ℕ ×ₗ (ℕ ×ₗ ℕ) ×ₗ ℕ := toLex (s.handlersLeft, s.remaining)

theorem handlersLeft_posting (c : ℕ) (call : Option StopCall) :
    ((posting c call).map Handler.handlersLeft).sum = posts call := by
  unfold posting posts
  split <;> rfl

/-- A connection is changed. -/
theorem sum_update (f : ℕ → SocksConnection) (x : SocksConnection) {n : ℕ} (hc : c < n) :
    ∑ d ∈ Finset.range n, (Function.update f c x d).handlersLeft + (f c).handlersLeft =
      ∑ d ∈ Finset.range n, (f d).handlersLeft + x.handlersLeft := by
  have hmem : c ∈ Finset.range n := Finset.mem_range.mpr hc
  rw [← Finset.add_sum_erase _ _ hmem, ← Finset.add_sum_erase (Finset.range n)
    (fun d => (f d).handlersLeft) hmem, Function.update_self]
  have hrest : ∑ d ∈ (Finset.range n).erase c, (Function.update f c x d).handlersLeft =
      ∑ d ∈ (Finset.range n).erase c, (f d).handlersLeft := by
    apply Finset.sum_congr rfl
    intro d hd
    rw [Function.update_of_ne (Finset.ne_of_mem_erase hd)]
  rw [hrest]
  omega

/-- A connection is created. -/
theorem sum_create (f : ℕ → SocksConnection) (n : ℕ) (order : ByteOrder) (alloc : Allocation) :
    ∑ d ∈ Finset.range (n + 1),
      (Function.update f n (SocksConnection.create order alloc) d).handlersLeft =
      ∑ d ∈ Finset.range n, (f d).handlersLeft := by
  have hnew : (SocksConnection.create order alloc).handlersLeft = 0 := rfl
  rw [Finset.sum_range_succ, Function.update_self, hnew, Nat.add_zero]
  apply Finset.sum_congr rfl
  intro d hd
  rw [Function.update_of_ne (Finset.mem_range.mp hd).ne]

theorem release_handlersLeft (m : SocksServer) (c : ℕ) :
    (m.release c).handlersLeft = m.handlersLeft := by
  unfold handlersLeft handlersQueued
  rw [release_queue, release_main, release_next]
  refine congrArg _ (Finset.sum_congr rfl fun d _ => ?_)
  unfold release
  split
  · show (Function.update m.conn c _ d).handlersLeft = _
    by_cases hdc : d = c
    · subst hdc
      rw [Function.update_self]
      rfl
    · rw [Function.update_of_ne hdc]
  · rfl

/-- A step of a thread. -/
theorem handlersLeft_le_of_update {b : ConnectionAction} {x : SocksConnection}
    (hf : (s.conn c).Framed) (hc : c < s.next) (hx : (s.conn c).step b = some x) (hb : b ≠ .start)
    (hconn : t.conn = Function.update s.conn c x) (hnext : t.next = s.next)
    (hmain : t.main = s.main) (hq : t.queue = s.queue ++ posting c (b.call (s.conn c))) :
    t.handlersLeft ≤ s.handlersLeft := by
  have hle := (SocksConnection.step_cases hx).handlersLeft hf hb
  have hsum := sum_update s.conn x hc
  have hpost := handlersLeft_posting c (b.call (s.conn c))
  unfold handlersLeft handlersQueued
  rw [hconn, hnext, hmain, hq, List.map_append, List.sum_append, hpost]
  omega

theorem handlersLeft_le_of_queued (hconn : t.conn = s.conn) (hnext : t.next = s.next)
    (hle : t.handlersQueued ≤ s.handlersQueued) : t.handlersLeft ≤ s.handlersLeft := by
  unfold handlersLeft
  rw [hconn, hnext]
  exact Nat.add_le_add_right hle _

/-- The loop uses up a handler. -/
theorem ServerSteps.handlersLeft_lt (hs : s.ServerSteps .main t) (hm : s.main = .loop) :
    t.handlersLeft < s.handlersLeft := by
  have hqueued (hconn : t.conn = s.conn) (hnext : t.next = s.next)
      (hlt : t.handlersQueued < (s.queue.map Handler.handlersLeft).sum + 1) :
      t.handlersLeft < s.handlersLeft := by
    unfold handlersLeft
    rw [hconn, hnext]
    refine Nat.add_lt_add_right (hlt.trans_eq ?_) _
    unfold handlersQueued
    rw [hm]
    rfl
  cases hs with
  | @runAccept c error rest hm hq =>
    apply hqueued rfl rfl
    unfold handlersQueued
    rw [hq, List.map_cons, List.sum_cons]
    show ((rest ++ if error = none then [Handler.start c] else []).map Handler.handlersLeft).sum +
      1 < (if error = none then 4 else 1) + (rest.map Handler.handlersLeft).sum + 1
    rw [List.map_append, List.sum_append]
    split
    · show _ + 3 + 1 < _
      omega
    · show _ + 0 + 1 < _
      omega
  | @runStart c rest hm hq =>
    apply hqueued rfl rfl
    rw [hq, List.map_cons, List.sum_cons]
    show (rest.map Handler.handlersLeft).sum + 3 < 3 + (rest.map Handler.handlersLeft).sum + 1
    omega
  | @runStop c rest hm hq =>
    apply hqueued rfl rfl
    rw [hq, List.map_cons, List.sum_cons]
    show (rest.map Handler.handlersLeft).sum + 1 < 1 + (rest.map Handler.handlersLeft).sum + 1
    omega
  | _ hm' => cases hm.symm.trans hm'

/-- The main thread brings no handler without a client. -/
theorem ServerSteps.handlersLeft_le (ho : s.OwnedBy) (hs : s.ServerSteps a t)
    (ha : ∀ error stream, a ≠ .accept error stream) : t.handlersLeft ≤ s.handlersLeft := by
  have hkeep {p : MainPoint} {t : SocksServer} (hm : s.main = p) (hconn : t.conn = s.conn)
      (hnext : t.next = s.next) (hq : t.queue = s.queue)
      (hle : t.main.handlersLeft ≤ p.handlersLeft) : t.handlersLeft ≤ s.handlersLeft := by
    apply handlersLeft_le_of_queued hconn hnext
    unfold handlersQueued
    rw [hq, hm]
    exact Nat.add_le_add_left hle _
  cases hs with
  | init hm => exact hkeep hm rfl rfl rfl le_rfl
  | construct hm hfresh =>
    unfold handlersLeft handlersQueued
    rw [hm]
    exact (congrArg _ (sum_create _ _ _ _)).le
  | rearm hm hfresh =>
    unfold handlersLeft handlersQueued
    rw [hm]
    exact (congrArg _ (sum_create _ _ _ _)).le
  | accepted hm hacc hx => exact absurd rfl (ha _ _)
  | refused hm hacc => exact absurd rfl (ha _ _)
  | signal hm => exact hkeep hm rfl rfl rfl le_rfl
  | runAccept hm hq => exact (ServerSteps.runAccept hm hq).handlersLeft_lt hm |>.le
  | runStart hm hq => exact (ServerSteps.runStart hm hq).handlersLeft_lt hm |>.le
  | runStop hm hq => exact (ServerSteps.runStop hm hq).handlersLeft_lt hm |>.le
  | @startThread c x hm hx =>
    -- the threads of the connection can post what the start handler stood for
    have hc : c < s.next := ho.lt_next (mem_owners.mpr (by simp [hm, MainPoint.conn]))
    have hsum := sum_update s.conn x hc
    have hthread : x.handlersLeft = (s.conn c).handlersLeft + 2 := by
      cases SocksConnection.step_cases hx with
      | start hp hd =>
        unfold SocksConnection.handlersLeft
        rw [hp]
        show 2 + (s.conn c).remoteThread.handlersLeft =
          0 + (s.conn c).remoteThread.handlersLeft + 2
        omega
    unfold handlersLeft handlersQueued
    rw [hm]
    show (s.queue.map Handler.handlersLeft).sum + 1 +
      ∑ d ∈ Finset.range s.next, (Function.update s.conn c x d).handlersLeft ≤
      (s.queue.map Handler.handlersLeft).sum + 3 + _
    omega
  | startTwice hm hx => exact hkeep hm rfl rfl rfl (by rw [hm])
  | startFails hm => exact hkeep hm rfl rfl rfl (by rw [hm])
  | sleep hm => exact hkeep hm rfl rfl rfl le_rfl
  | remove hm => exact hkeep hm rfl rfl rfl le_rfl
  | finish hm =>
    rw [release_handlersLeft]
    exact hkeep hm rfl rfl rfl le_rfl
  | closeAcceptor hm =>
    apply handlersLeft_le_of_queued (by rfl) (by rfl)
    unfold handlersQueued SocksServer.closeAcceptor
    rw [hm, List.map_append, List.sum_append, Nat.add_assoc]
    apply Nat.add_le_add_left
    cases s.accepting with
    | none => exact Nat.zero_le 1
    | some c => exact le_rfl
  | dropConnection hm hc =>
    rw [release_handlersLeft]
    exact le_rfl
  | dropped hm hc => exact hkeep hm rfl rfl rfl le_rfl
  | haltLkl hm => exact hkeep hm rfl rfl rfl le_rfl
  | @dropHandler h rest hm hq =>
    rw [release_handlersLeft]
    apply handlersLeft_le_of_queued (by rfl) (by rfl)
    unfold handlersQueued
    rw [hq, List.map_cons, List.sum_cons]
    exact Nat.add_le_add_right (Nat.le_add_left _ _) _
  | exit hm hq => exact hkeep hm rfl rfl rfl le_rfl

/-- **Every step but an accept leaves less to do.** -/
theorem Steps.work_lt (ho : s.OwnedBy) (hterm : s.terminated = false) (hs : s.Steps a t)
    (ha : ∀ error stream, a ≠ .accept error stream) : t.work < s.work := by
  by_cases hloop : s.main = .loop ∧ a = .main
  · obtain ⟨hm, rfl⟩ := hloop
    cases hs with
    | server hb hs => exact Prod.Lex.toLex_lt_toLex.mpr (.inl (hs.handlersLeft_lt hm))
  · have hwinds : s.Winds a := fun hm => ⟨fun hmain => hloop ⟨hm, hmain⟩, ha⟩
    have hle : t.handlersLeft ≤ s.handlersLeft := by
      have hf (c : ℕ) := SocksConnection.framed (ho.reachable c)
      cases hs with
      | server hb hs => exact hs.handlersLeft_le ho ha
      | @host c out x hx =>
        exact handlersLeft_le_of_update (hf c) (ho.lt_of_host hx) (ho.host_step hx) nofun rfl rfl
          rfl rfl
      | @remote c out x hx =>
        exact handlersLeft_le_of_update (hf c) (ho.lt_of_remote hx) (ho.remote_step hx) nofun rfl
          rfl rfl rfl
      | @destructor c x hx =>
        have hstep : (s.conn c).step .destructor = some x := hx
        exact handlersLeft_le_of_update (hf c) (ho.lt_of_destroy hx) hstep nofun rfl rfl rfl
          (List.append_nil _).symm
    exact Prod.Lex.toLex_lt_toLex'.mpr ⟨hle, fun _ => hs.remaining_lt ho hterm hwinds⟩

/-! ## Runs without end -/

/-- What was handed to the `io_service` stays so until `main` drops the handlers. -/
theorem entered_prefix {as : List Action} (h : machine.Reachable s)
    (he : machine.exec s as = some t) (ht : t.main = .loop) :
    s.fifo.entered <+: t.fifo.entered := by
  obtain ⟨bs, hb⟩ : ∃ bs, Fifo.machine.exec s.fifo bs = some t.fifo := by
    refine machine.exec_induction (P := fun _ t => ∃ bs, Fifo.machine.exec s.fifo bs = some t.fifo)
      ⟨[], rfl⟩ ?_ he
    rintro as m a u hm ⟨bs, hb⟩ hs
    obtain ⟨cs, hc, -⟩ := implements_fifo.step m a u (h.exec hm) hs
    refine ⟨bs ++ cs, ?_⟩
    rw [Fifo.machine.exec_append, hb]
    exact hc
  have hopen : t.fifo.closed = false := by
    apply decide_eq_false
    rintro (hm | hm) <;> cases ht.symm.trans hm
  exact (Fifo.entered_prefix hb hopen).2

/-- An accept completes. -/
theorem accept_cases {error : Option ℕ} {stream : List UInt8}
    (hs : s.step (.accept error stream) = some t) :
    s.main = .loop ∧ ∃ c, s.accepting = some c ∧ t.main = .loop ∧ t.ran = s.ran ∧
      t.queue = s.queue ++ [.accepted c error] := by
  have hsteps := (step_cases hs).2.2
  cases hsteps with
  | server hb hs =>
    cases hs with
    | accepted hm ha hx => exact ⟨hm, _, ha, hm, rfl, rfl⟩
    | refused hm ha => exact ⟨hm, _, ha, hm, rfl, rfl⟩

/-- When the next accept completes, the handler of this one has run, and what was handed over
before it. -/
theorem ran_of_accept {error error' : Option ℕ} {stream stream' : List UInt8} {u v : SocksServer}
    {as : List Action} (h : machine.Reachable s) (hs : s.step (.accept error stream) = some t)
    (he : machine.exec t as = some u) (hu : u.step (.accept error' stream') = some v) :
    t.fifo.entered <+: u.ran := by
  obtain ⟨hm, c, -, hmt, hran, hqueue⟩ := accept_cases hs
  obtain ⟨hmu, d, hd, -⟩ := accept_cases hu
  have hreach : machine.Reachable t := h.step (a := .accept error stream) hs
  -- the accept that is outstanding is the only one, so no completion is in the queue
  have hnone : Handler.accepted c error ∉ u.queue := by
    intro hq
    have hone := acceptsOne (hreach.exec he)
    have hpos : 0 < u.queue.countP Handler.isAccepted := List.countP_pos_iff.mpr ⟨_, hq, rfl⟩
    simp only [AcceptsOne, accepts, hmu, hd, MainPoint.phase, MainPoint.rearms,
      Option.toList_some, List.length_singleton] at hone
    omega
  have hlast : t.fifo.entered = s.ran ++ s.queue ++ [.accepted c error] := by
    show t.ran ++ t.main.running ++ t.queue = _
    rw [hmt, hran, hqueue, ← List.append_assoc]
    exact congrArg (· ++ s.queue ++ _) (List.append_nil _)
  have hprefix := entered_prefix hreach he hmu
  rw [hlast] at hprefix ⊢
  have hserved := Fifo.served_of_notMem (q := u.fifo) hprefix hnone
  rwa [show u.fifo.served = u.ran ++ u.main.running from rfl, hmu,
    show MainPoint.loop.running = [] from rfl, List.append_nil] at hserved

section Runs

variable {run : ℕ → SocksServer} {as : ℕ → Action}

theorem exec_of_run (hstep : ∀ n, machine.step (run n) (as n) = some (run (n + 1))) {n m : ℕ}
    (hm : n ≤ m) : ∃ bs, machine.exec (run n) bs = some (run m) := by
  induction m, hm using Nat.le_induction with
  | base => exact ⟨[], rfl⟩
  | succ m hm ih =>
    obtain ⟨bs, hb⟩ := ih
    exact ⟨bs ++ [as m], machine.exec_snoc_iff.mpr ⟨_, hb, hstep m⟩⟩

/-- In a run without end accepts complete again and again. -/
theorem exists_accept (h : machine.Reachable (run 0))
    (hstep : ∀ n, machine.step (run n) (as n) = some (run (n + 1))) (n : ℕ) :
    ∃ m ≥ n, ∃ error stream, as m = .accept error stream := by
  obtain ⟨m, hm, ha⟩ := Machine.exists_ge_of_decreases (P := machine.Reachable) (μ := work)
    (K := fun a => ∀ error stream, a ≠ .accept error stream) (fun s a t hr ht => by
      obtain ⟨hterm, -, hs⟩ := step_cases ht
      exact ⟨hr.step ht, hs.work_lt (ownedBy hr) hterm⟩) h hstep n
  push Not at ha
  exact ⟨m, hm, ha⟩

/-- **In a run without end every handler runs**, under every order of the steps, if every peer sends
finitely many bytes: the stream of a socket is a finite list, which is fixed when it is accepted or
connected. Accepts complete again and again, with a client or with an error, and what was handed to
the `io_service` has run at some time, in its order. -/
theorem every_handler_runs (h : machine.Reachable (run 0))
    (hstep : ∀ n, machine.step (run n) (as n) = some (run (n + 1))) (n : ℕ) :
    (∃ m ≥ n, ∃ error stream, as m = .accept error stream) ∧
    ∃ m ≥ n, (run n).ran ++ (run n).main.running ++ (run n).queue <+: (run m).ran := by
  refine ⟨exists_accept h hstep n, ?_⟩
  have hreach (m : ℕ) : machine.Reachable (run m) := by
    obtain ⟨bs, hb⟩ := exec_of_run hstep (Nat.zero_le m)
    exact h.exec hb
  obtain ⟨k, hk, error, stream, ha⟩ := exists_accept h hstep n
  obtain ⟨m, hm, error', stream', hb⟩ := exists_accept h hstep (k + 1)
  have hs : (run k).step (.accept error stream) = some (run (k + 1)) := ha ▸ hstep k
  have hu : (run m).step (.accept error' stream') = some (run (m + 1)) := hb ▸ hstep m
  obtain ⟨bs, hbs⟩ := exec_of_run hstep hm
  obtain ⟨cs, hcs⟩ := exec_of_run hstep (Nat.le_succ_of_le hk)
  obtain ⟨-, -, -, hloop, -, -⟩ := accept_cases hs
  refine ⟨m, (Nat.le_succ_of_le hk).trans hm, ?_⟩
  calc (run n).fifo.entered
      <+: (run (k + 1)).fifo.entered := entered_prefix (hreach n) hcs hloop
    _ <+: (run m).ran := ran_of_accept (hreach k) hs hbs hu

end Runs

/-- The connections after `k` accepts have failed. -/
def refusedConn (k d : ℕ) : SocksConnection :=
  { SocksConnection.create .little ⟨if d ≤ k then d else 0, .zeros, .zeros⟩ with
    destructor := if d < k then some (.main, .done) else none }

/-- The server after `k` accepts have failed. -/
def refusing (k : ℕ) : SocksServer where
  order := .little
  kernel := initLkl fun _ => 0
  main := .loop
  destroying := none
  queue := []
  connections := []
  accepting := some k
  next := k + 1
  conn := refusedConn k
  posted := []
  ran := (List.range k).map fun d => .accepted d (some 24)
  terminated := false

/-- The next accept fails: its handler starts another one, and the connection is destroyed. -/
def refusedRound (k : ℕ) : List Action :=
  [.accept (some 24) [], .main, .alloc ⟨k + 1, .zeros, .zeros⟩, .main] ++
    List.replicate 5 (.destructor k)

/-- The next accept is outstanding, and the connection whose accept has failed is still there. -/
def refused (k : ℕ) (main : MainPoint) (destroying : Option ℕ) (x : SocksConnection) :
    SocksServer :=
  { refusing k with
    main := main, destroying := destroying, accepting := some (k + 1), next := k + 2
    conn := Function.update (Function.update (refusedConn k) (k + 1)
      (.create .little ⟨k + 1, .zeros, .zeros⟩)) k x
    ran := (refusing k).ran ++ [.accepted k (some 24)] }

theorem refused_conn (k : ℕ) (main : MainPoint) (destroying : Option ℕ) (x : SocksConnection) :
    (refused k main destroying x).conn k = x :=
  Function.update_self _ _ _

/-- The connection of a failed accept in its destructor. -/
def lettingGo (k : ℕ) (p : DtorPoint) : SocksConnection :=
  { refusedConn k k with destructor := some (.main, p) }

theorem refusing_succ (k : ℕ) :
    refused k .loop none (lettingGo k .done) = refusing (k + 1) := by
  have hconn : Function.update (Function.update (refusedConn k) (k + 1)
      (.create .little ⟨k + 1, .zeros, .zeros⟩)) k (lettingGo k .done) = refusedConn (k + 1) := by
    funext d
    by_cases hd : d = k
    · subst hd
      rw [Function.update_self]
      simp [refusedConn, lettingGo]
    · rw [Function.update_of_ne hd]
      by_cases hd' : d = k + 1
      · subst hd'
        rw [Function.update_self]
        simp [refusedConn, SocksConnection.create]
      · have hle : d ≤ k ↔ d ≤ k + 1 := by omega
        have hlt : d < k ↔ d < k + 1 := by omega
        rw [Function.update_of_ne hd']
        simp only [refusedConn, hle, hlt]
  rw [refused, hconn, refusing, refusing, List.range_succ, List.map_append]
  rfl

theorem step_refused (k : ℕ) {p q : DtorPoint} (hq : q ≠ .aborted)
    (h : (lettingGo k p).destroyStep = some (lettingGo k q)) :
    machine.step (refused k .loop (some k) (lettingGo k p)) (.destructor k) =
      some (refused k .loop (if q = .done then none else some k) (lettingGo k q)) := by
  have hx : ((refused k .loop (some k) (lettingGo k p)).conn k).destroyStep =
      some (lettingGo k q) := by
    rw [refused_conn]
    exact h
  rw [step_destructor rfl (fun h => by cases h) hx]
  simp [refused, lettingGo, setConn, Function.update_idem, hq, refusing]

theorem exec_refusedRound (k : ℕ) :
    machine.exec (refusing k) (refusedRound k) = some (refusing (k + 1)) := by
  have haddress : ∀ c < k + 1, (refusedConn k c).address = k + 1 → (refusedConn k c).Freed := by
    intro c hc he
    have hle : c ≤ k := Nat.lt_succ_iff.mp hc
    rw [show (refusedConn k c).address = if c ≤ k then c else 0 from rfl, if_pos hle] at he
    omega
  have hself : Function.update (Function.update (refusedConn k) (k + 1)
      (.create .little ⟨k + 1, .zeros, .zeros⟩)) k (refusedConn k k) =
      Function.update (refusedConn k) (k + 1) (.create .little ⟨k + 1, .zeros, .zeros⟩) := by
    rw [Function.update_eq_self_iff, Function.update_of_ne (Nat.succ_ne_self k).symm]
  have haccept : machine.step (refusing k) (.accept (some 24) []) =
      some { refusing k with accepting := none, queue := [.accepted k (some 24)] } := rfl
  have hrun : machine.step
      { refusing k with accepting := none, queue := [.accepted k (some 24)] } .main =
      some { refusing k with
        accepting := none, main := .rearm k
        ran := (refusing k).ran ++ [.accepted k (some 24)] } := rfl
  have halloc : machine.step { refusing k with
        accepting := none, main := .rearm k
        ran := (refusing k).ran ++ [.accepted k (some 24)] } (.alloc ⟨k + 1, .zeros, .zeros⟩) =
      some (refused k (.finish k) none (refusedConn k k)) := by
    rw [refused, hself]
    exact if_pos haddress
  have hfinish : machine.step (refused k (.finish k) none (refusedConn k k)) .main =
      some (refused k .loop (some k) (lettingGo k .closeRemote)) := by
    have hcount : (refused k .loop none (refusedConn k k)).useCount k = 0 := by
      simp [useCount, owners, refused, refusing, MainPoint.conn]
      rfl
    have hnone : ((refused k .loop none (refusedConn k k)).conn k).destructor = none := by
      rw [refused_conn]
      exact if_neg (Nat.lt_irrefl k)
    show some ((refused k .loop none (refusedConn k k)).release k) = _
    rw [release, if_pos ⟨hcount, hnone⟩]
    simp [refused, lettingGo, setConn, Function.update_idem, refusing]
  rw [← refusing_succ]
  refine (machine.exec_cons_of_step haccept _).trans ?_
  refine (machine.exec_cons_of_step hrun _).trans ?_
  refine (machine.exec_cons_of_step halloc _).trans ?_
  refine (machine.exec_cons_of_step hfinish _).trans ?_
  refine (machine.exec_cons_of_step (step_refused k (q := .closeHost) (by decide) rfl) _).trans ?_
  refine (machine.exec_cons_of_step (step_refused k (q := .joinHost) (by decide) rfl) _).trans ?_
  refine (machine.exec_cons_of_step (step_refused k (q := .joinRemote) (by decide) rfl) _).trans ?_
  refine (machine.exec_cons_of_step (step_refused k (q := .members) (by decide) rfl) _).trans ?_
  exact machine.exec_cons_of_step (step_refused k (q := .done) (by decide) rfl) _

theorem reachable_refusing : machine.Reachable (refusing 0) := by
  have hconn : Function.update (initial .little).conn 0 (.create .little ⟨0, .zeros, .zeros⟩) =
      refusedConn 0 := by
    funext d
    have haddress : (if d ≤ 0 then d else 0) = 0 := by split <;> omega
    rw [refusedConn, haddress, if_neg (Nat.not_lt_zero d)]
    exact congrFun (Function.update_eq_self 0 (initial .little).conn) d
  have halloc : machine.step
      { initial .little with kernel := initLkl fun _ => 0, main := .construct }
      (.alloc ⟨0, .zeros, .zeros⟩) = some (refusing 0) := by
    rw [refusing, ← hconn]
    have hfresh : ∀ c < 0, ((initial .little).conn c).address = 0 →
        ((initial .little).conn c).Freed := fun c hc => absurd hc (Nat.not_lt_zero c)
    exact if_pos (e := none) hfresh
  refine ⟨initial .little, [.init fun _ => 0, .alloc ⟨0, .zeros, .zeros⟩], ⟨_, rfl⟩, ?_⟩
  exact machine.exec_cons_of_step halloc _

theorem every_handler_runs_refusing : ∃ (run : ℕ → SocksServer) (as : ℕ → Action),
    run 0 = refusing 0 ∧ (∀ n, machine.step (run n) (as n) = some (run (n + 1))) ∧
    ∀ n, ∃ m ≥ n, (run n).ran ++ (run n).main.running ++ (run n).queue <+: (run m).ran := by
  obtain ⟨run, as, h0, hstep⟩ := Machine.infinite_of_rounds (fun _ => List.cons_ne_nil _ _)
    exec_refusedRound
  exact ⟨run, as, h0, hstep, fun n => (every_handler_runs (h0 ▸ reachable_refusing) hstep n).2⟩

end SocksServer

end LklSocks
