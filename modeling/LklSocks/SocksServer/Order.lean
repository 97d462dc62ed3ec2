import LklSocks.Machine.Fifo
import LklSocks.SocksServer.Registry

/-!
# The order of the handlers

The threads of the connections and the reactor hand their handlers to the `io_service`, which runs
them one at a time. The `io_service` is a queue: the handlers have their effect in the order in
which they were handed over, each at most once, and none is lost before `main` drops what is left.
The next accept is started by the handler of the last one, so the connections are accepted in the
order of their creation, and the queue hands this order on to the start handlers and to the list of
the server.

## Main definitions

* `SocksServer.submits`: the handlers that a step hands to the `io_service`
* `SocksServer.fifo`: the `io_service` as a queue

## Main results

* `SocksServer.implements_fifo`: the program runs the `io_service` as a queue
* `SocksServer.fifo_accounts`: what was handed over, and what has become of it
* `SocksServer.connections_in_order`: the connections are accepted, started and listed in the order
  of their creation
-/

namespace LklSocks

namespace Handler

/-- The connection whose accept has completed. -/
def completes : Handler → Option ℕ
  | accepted c _ => some c
  | _ => none

/-- The connection that was accepted without an error. -/
def admits : Handler → Option ℕ
  | accepted c none => some c
  | _ => none

@[simp] theorem completes_accepted (c : ℕ) (error : Option ℕ) :
    (accepted c error).completes = some c := rfl
@[simp] theorem completes_start (c : ℕ) : (start c).completes = none := rfl
@[simp] theorem completes_stop (c : ℕ) : (stop c).completes = none := rfl
@[simp] theorem admits_accepted_none (c : ℕ) : (accepted c none).admits = some c := rfl
@[simp] theorem admits_accepted_some (c error : ℕ) : (accepted c (some error)).admits = none := rfl
@[simp] theorem admits_start (c : ℕ) : (start c).admits = none := rfl
@[simp] theorem admits_stop (c : ℕ) : (stop c).admits = none := rfl
@[simp] theorem starts_accepted (c : ℕ) (error : Option ℕ) : (accepted c error).starts = none := rfl
@[simp] theorem starts_start (c : ℕ) : (start c).starts = some c := rfl
@[simp] theorem starts_stop (c : ℕ) : (stop c).starts = none := rfl

end Handler

namespace SocksServer

variable {s t : SocksServer} {a : Action}

/-! ## The queue -/

/-- The handlers that a step hands to the `io_service`: the completion of an accept, and what
`handleAccept` and `stopConnection` post. -/
def submits (s : SocksServer) : Action → List Handler
  | .accept error _ => s.accepting.toList.map fun c => .accepted c error
  | .main =>
    match s.main, s.queue with
    | .loop, .accepted c none :: _ => [.start c]
    | .closeAcceptor, _ => s.accepting.toList.map fun c => .accepted c (some operationAborted)
    | _, _ => []
  | .host c _ => posting c (s.conn c).hostThread.call
  | .remote c _ => posting c (s.conn c).remoteThread.call
  | _ => []

/-- The `io_service` as a queue, which is closed when `main` drops the handlers. -/
def fifo (s : SocksServer) : Fifo Handler where
  served := s.ran ++ s.main.running
  waiting := s.queue
  closed := s.main = .dropHandlers ∨ s.main = .exited

/-- A call of `stopConnection` puts at most one handler in. -/
theorem exec_posting (q : Fifo Handler) (c : ℕ) (call : Option StopCall) :
    ∃ bs, Fifo.machine.exec q bs = some { q with waiting := q.waiting ++ posting c call } ∧
      Fifo.machine.trace Fifo.puts q bs = posting c call := by
  unfold posting
  split
  · exact ⟨[.put (.stop c)], rfl, rfl⟩
  · exact ⟨[], by simp, rfl⟩

/-- The main thread puts one handler in. -/
theorem fifo_put {h : Handler} (hq : t.queue = s.queue ++ [h]) (hran : t.ran = s.ran)
    (hrunning : t.main.running = s.main.running) (hclosed : t.fifo.closed = s.fifo.closed)
    (hsubmits : s.submits a = [h]) :
    ∃ bs, Fifo.machine.exec s.fifo bs = some t.fifo ∧
      Fifo.machine.trace Fifo.puts s.fifo bs = s.submits a := by
  have ht : t.fifo = { s.fifo with waiting := s.fifo.waiting ++ [h] } := by
    simp only [fifo, Fifo.mk.injEq] at hclosed ⊢
    exact ⟨by rw [hran, hrunning], hq, hclosed⟩
  rw [ht, hsubmits]
  exact ⟨[.put h], rfl, rfl⟩

/-- The main thread leaves the queue alone. -/
theorem fifo_keep (hq : t.queue = s.queue)
    (hran : t.ran ++ t.main.running = s.ran ++ s.main.running)
    (hclosed : t.fifo.closed = s.fifo.closed) (hsubmits : s.submits a = []) :
    ∃ bs, Fifo.machine.exec s.fifo bs = some t.fifo ∧
      Fifo.machine.trace Fifo.puts s.fifo bs = s.submits a := by
  have ht : t.fifo = s.fifo := by
    simp only [fifo, Fifo.mk.injEq] at hclosed ⊢
    exact ⟨hran, hq, hclosed⟩
  rw [ht, hsubmits]
  exact ⟨[], rfl, rfl⟩

/-- What the main thread does to the queue. -/
theorem ServerSteps.fifo (hs : s.ServerSteps a t) :
    ∃ bs, Fifo.machine.exec s.fifo bs = some t.fifo ∧
      Fifo.machine.trace Fifo.puts s.fifo bs = s.submits a := by
  cases hs with
  | accepted hm ha hx => exact fifo_put rfl rfl rfl rfl (by simp [submits, ha])
  | refused hm ha => exact fifo_put rfl rfl rfl rfl (by simp [submits, ha])
  | runAccept hm hq =>
    rename_i c error rest
    cases error with
    | none =>
      refine ⟨[.serve, .put (.start c)], ?_, ?_⟩
      · simp [SocksServer.fifo, Fifo.machine, Machine.exec_cons, hm, hq, handleAccept,
          MainPoint.running]
      · simp [submits, hm, hq, Machine.trace, Fifo.puts, Fifo.machine, SocksServer.fifo]
    | some error =>
      refine ⟨[.serve], ?_, ?_⟩
      · simp [SocksServer.fifo, Fifo.machine, Machine.exec_cons, hm, hq, handleAccept,
          MainPoint.running]
      · simp [submits, hm, hq, Machine.trace, Fifo.puts, Fifo.machine, SocksServer.fifo]
  | runStart hm hq =>
    refine ⟨[.serve], ?_, ?_⟩
    · simp [SocksServer.fifo, Fifo.machine, Machine.exec_cons, hm, hq, MainPoint.running]
    · simp [submits, hm, hq, Machine.trace, Fifo.puts, Fifo.machine, SocksServer.fifo]
  | runStop hm hq =>
    refine ⟨[.serve], ?_, ?_⟩
    · simp [SocksServer.fifo, Fifo.machine, Machine.exec_cons, hm, hq, MainPoint.running]
    · simp [submits, hm, hq, Machine.trace, Fifo.puts, Fifo.machine, SocksServer.fifo]
  | closeAcceptor hm =>
    cases ha : s.accepting with
    | none =>
      apply fifo_keep
      · simp [SocksServer.closeAcceptor, ha]
      · simp [SocksServer.closeAcceptor, hm, MainPoint.running]
      · simp [SocksServer.fifo, SocksServer.closeAcceptor, hm]
      · simp [submits, hm, ha]
    | some c =>
      apply fifo_put (h := .accepted c (some operationAborted))
      · simp [SocksServer.closeAcceptor, ha]
      · rfl
      · simp [SocksServer.closeAcceptor, hm, MainPoint.running]
      · simp [SocksServer.fifo, SocksServer.closeAcceptor, hm]
      · simp [submits, hm, ha]
  | haltLkl hm =>
    refine ⟨[.close], ?_, ?_⟩
    · simp [SocksServer.fifo, Fifo.machine, Machine.exec_cons, hm, MainPoint.running]
    · simp [submits, hm, Machine.trace, Fifo.puts, Fifo.machine]
  | dropHandler hm hq =>
    refine ⟨[.discard], ?_, ?_⟩
    · simp [SocksServer.fifo, Fifo.machine, Machine.exec_cons, hm, hq, MainPoint.running]
    · simp [submits, hm, hq, Machine.trace, Fifo.puts, Fifo.machine, SocksServer.fifo]
  | remove hm =>
    apply fifo_keep
    · rfl
    · simp [SocksServer.remove, hm, MainPoint.running]
    · simp [SocksServer.fifo, SocksServer.remove, hm]
    · simp [submits, hm]
  | _ => apply fifo_keep <;> simp_all [SocksServer.fifo, submits, MainPoint.running]

/-- **The program runs the `io_service` as a queue.** -/
theorem implements_fifo :
    Machine.Implements machine Fifo.machine fifo submits Fifo.puts where
  init := by
    rintro _ ⟨order, rfl⟩
    rfl
  step := by
    intro s a t _ ht
    cases (step_cases ht).2.2 with
    | server hb hs => exact hs.fifo
    | host hx => exact exec_posting s.fifo _ _
    | remote hx => exact exec_posting s.fifo _ _
    | destructor hx => exact ⟨[], rfl, rfl⟩

/-- The handlers that were handed over in a run, and what has become of them. -/
theorem fifo_accounts {order : ByteOrder} {as : List Action}
    (h : machine.exec (initial order) as = some s) :
    s.fifo.Accounts (machine.trace submits (initial order) as) := by
  obtain ⟨bs, hb, htrace⟩ := implements_fifo.exec ⟨order, rfl⟩ h
  rw [← htrace]
  exact Fifo.accounted hb

/-! ## The order of the connections -/

/-- What a step does to the accept operation and to the history, by what it hands over: the handler
of a completed accept runs at the step that posts the start handler. -/
inductive Hands (s t : SocksServer) : List Handler → Prop
  | nothing (hacc : t.accepting = s.accepting) (hnext : t.next = s.next)
      (hran : t.ran.filterMap Handler.admits = s.ran.filterMap Handler.admits) : Hands s t []
  | create (hnone : s.accepting = none) (hacc : t.accepting = some s.next)
      (hnext : t.next = s.next + 1) (hran : t.ran = s.ran) : Hands s t []
  | complete {c : ℕ} {error : Option ℕ} (ha : s.accepting = some c) (hacc : t.accepting = none)
      (hnext : t.next = s.next) (hran : t.ran = s.ran) : Hands s t [.accepted c error]
  | start {c : ℕ} (hacc : t.accepting = s.accepting) (hnext : t.next = s.next)
      (hran : t.ran = s.ran ++ [.accepted c none]) : Hands s t [.start c]
  | stop {c : ℕ} (hacc : t.accepting = s.accepting) (hnext : t.next = s.next)
      (hran : t.ran = s.ran) : Hands s t [.stop c]

/-- A thread of a connection hands over what its call of `stopConnection` posts. -/
theorem Hands.posting {c : ℕ} {call : Option StopCall} (hacc : t.accepting = s.accepting)
    (hnext : t.next = s.next) (hran : t.ran = s.ran) : s.Hands t (posting c call) := by
  unfold SocksServer.posting
  split
  · exact .stop hacc hnext hran
  · exact .nothing hacc hnext (by rw [hran])

theorem ServerSteps.hands (hs : s.ServerSteps a t) (hacc : s.AcceptsOne) :
    s.Hands t (s.submits a) := by
  have hnothing (hsubmits : s.submits a = []) (hacc : t.accepting = s.accepting)
      (hnext : t.next = s.next)
      (hran : t.ran.filterMap Handler.admits = s.ran.filterMap Handler.admits) :
      s.Hands t (s.submits a) := by
    rw [hsubmits]
    exact .nothing hacc hnext hran
  cases hs with
  | construct hm ha => exact .create (by simp_all [AcceptsOne, accepts]) rfl rfl rfl
  | rearm hm ha => exact .create (by simp_all [AcceptsOne, accepts]) rfl rfl rfl
  | accepted hm ha hx =>
    rename_i c stream x
    have hsubmits : s.submits (.accept none stream) = [.accepted c none] := by
      rw [submits, ha]
      rfl
    rw [hsubmits]
    exact .complete ha rfl rfl rfl
  | refused hm ha =>
    rename_i c error stream
    have hsubmits : s.submits (.accept (some error) stream) = [.accepted c (some error)] := by
      rw [submits, ha]
      rfl
    rw [hsubmits]
    exact .complete ha rfl rfl rfl
  | closeAcceptor hm =>
    cases ha : s.accepting with
    | none =>
      apply hnothing <;> simp [submits, hm, ha, SocksServer.closeAcceptor]
    | some c =>
      have hsubmits : s.submits .main = [.accepted c (some operationAborted)] := by
        simp [submits, hm, ha]
      rw [hsubmits]
      exact .complete ha rfl rfl rfl
  | runAccept hm hq =>
    rename_i c error rest
    cases error with
    | none =>
      have hsubmits : s.submits .main = [.start c] := by simp [submits, hm, hq]
      rw [hsubmits]
      exact .start rfl rfl rfl
    | some error => apply hnothing <;> simp [submits, hm, hq, handleAccept]
  | runStart hm hq => apply hnothing <;> simp [submits, hm, hq]
  | runStop hm hq => apply hnothing <;> simp [submits, hm, hq]
  | remove hm => apply hnothing <;> simp [submits, hm, SocksServer.remove]
  | _ => apply hnothing <;> simp_all [submits]

theorem Steps.hands (hs : s.Steps a t) (hacc : s.AcceptsOne) : s.Hands t (s.submits a) := by
  cases hs with
  | server hb hs => exact hs.hands hacc
  | host hx => exact .posting rfl rfl rfl
  | remote hx => exact .posting rfl rfl rfl
  | destructor hx => exact .nothing rfl rfl rfl

/-- The handlers `xs` were handed over so far: their completions are those of the connections that
were created, in this order, each but that of the outstanding accept; and their start handlers are
those of the connections whose completion has run without an error. -/
structure HandedOver (s : SocksServer) (xs : List Handler) : Prop where
  completed : xs.filterMap Handler.completes ++ s.accepting.toList = List.range s.next
  started : xs.filterMap Handler.starts = s.ran.filterMap Handler.admits

theorem HandedOver.append {xs ys : List Handler} (h : s.HandedOver xs) (hs : s.Hands t ys) :
    t.HandedOver (xs ++ ys) := by
  obtain ⟨hcompleted, hstarted⟩ := h
  cases hs with
  | nothing hacc hnext hran =>
    rw [List.append_nil]
    exact ⟨by rw [hacc, hnext, hcompleted], by rw [hran, hstarted]⟩
  | create hnone hacc hnext hran =>
    rw [hnone, Option.toList_none, List.append_nil] at hcompleted
    rw [List.append_nil]
    refine ⟨?_, by rw [hran, hstarted]⟩
    rw [hacc, hnext, hcompleted, List.range_succ]
    rfl
  | complete ha hacc hnext hran =>
    refine ⟨?_, ?_⟩
    · simp [hacc, hnext, ← hcompleted, ha]
    · simp [hran, hstarted, List.filterMap_cons]
  | start hacc hnext hran =>
    refine ⟨?_, ?_⟩
    · simp [hacc, hnext, hcompleted, List.filterMap_cons]
    · simp [hran, hstarted]
  | stop hacc hnext hran =>
    refine ⟨?_, ?_⟩
    · simp [hacc, hnext, hcompleted, List.filterMap_cons]
    · simp [hran, hstarted, List.filterMap_cons]

theorem handedOver {order : ByteOrder} {as : List Action}
    (h : machine.exec (initial order) as = some s) :
    s.HandedOver (machine.trace submits (initial order) as) := by
  have hinit : machine.init (initial order) := ⟨order, rfl⟩
  refine machine.exec_induction
    (P := fun as s => s.HandedOver (machine.trace submits (initial order) as)) ?_ ?_ h
  · exact ⟨rfl, rfl⟩
  · intro as s a t he hs ht
    rw [machine.trace_snoc submits he]
    have hreach := (Machine.Reachable.of_init hinit).exec he
    exact hs.append ((step_cases ht).2.2.hands (acceptsOne hreach))

/-- A connection that was admitted is one whose accept has completed. -/
theorem admits_sublist (xs : List Handler) :
    (xs.filterMap Handler.admits).Sublist (xs.filterMap Handler.completes) := by
  induction xs with
  | nil => exact List.Sublist.slnil
  | cons h xs ih =>
    cases h with
    | accepted c error =>
      cases error with
      | none => exact ih.cons_cons c
      | some error => exact ih.cons c
    | start c => exact ih
    | stop c => exact ih

/-- **The clients are served in the order of their accepts.** In every run, the accepts complete in
the order in which their connections were created, each once and without a gap; the connections that
were started are the first of those that were accepted without an error; and the server lists them
in this order. -/
theorem connections_in_order {order : ByteOrder} {as : List Action}
    (h : machine.exec (initial order) as = some s) :
    (machine.trace submits (initial order) as).filterMap Handler.completes ++ s.accepting.toList =
        List.range s.next ∧
      s.ran.filterMap Handler.starts <+:
        (machine.trace submits (initial order) as).filterMap Handler.admits ∧
      s.connections.Sublist (s.ran.filterMap Handler.starts) ∧
      s.connections.Pairwise (· < ·) := by
  have hhanded := handedOver h
  obtain ⟨dropped, htrace, -⟩ := fifo_accounts h
  have hreach : machine.Reachable s := ⟨initial order, as, ⟨order, rfl⟩, h⟩
  have hran : s.ran <+: machine.trace submits (initial order) as := by
    rw [htrace]
    exact ⟨s.main.running ++ dropped ++ s.queue, by simp [fifo]⟩
  have hstarted : s.ran.filterMap Handler.starts <+:
      (machine.trace submits (initial order) as).filterMap Handler.admits := by
    calc s.ran.filterMap Handler.starts
        <+: (machine.trace submits (initial order) as).filterMap Handler.starts :=
          hran.filterMap _
      _ = s.ran.filterMap Handler.admits := hhanded.started
      _ <+: (machine.trace submits (initial order) as).filterMap Handler.admits :=
          hran.filterMap _
  have hlisted : s.connections.Sublist (s.ran.filterMap Handler.starts) :=
    Registry.listed_sublist (simulates_registry.reachable hreach)
  refine ⟨hhanded.completed, hstarted, hlisted, ?_⟩
  have hrange : s.connections.Sublist (List.range s.next) := by
    rw [← hhanded.completed]
    exact ((hlisted.trans hstarted.sublist).trans (admits_sublist _)).trans
      (List.sublist_append_left _ _)
  exact List.pairwise_lt_range.sublist hrange

/-- A run that starts a connection, destroys the one whose accept fails, and starts another one. -/
def acceptedRun : List Action :=
  startRun [] ++ [.accept (some 24) [], .main, .alloc ⟨2, .zeros, .zeros⟩, .main,
    .destructor 1, .destructor 1, .destructor 1, .destructor 1, .destructor 1,
    .accept none [], .main, .alloc ⟨3, .zeros, .zeros⟩, .main, .main, .main, .main]

theorem connections_in_order_acceptedRun :
    ∃ s, machine.exec (initial .little) acceptedRun = some s ∧ s.connections = [0, 2] ∧
      s.connections.Pairwise (· < ·) := by
  obtain ⟨s, hs, hlist⟩ : ∃ s, machine.exec (initial .little) acceptedRun = some s ∧
      s.connections = [0, 2] := ⟨_, rfl, rfl⟩
  exact ⟨s, hs, hlist, (connections_in_order hs).2.2.2⟩

end SocksServer

end LklSocks
