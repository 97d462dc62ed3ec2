import LklSocks.SocksConnection.LklCalls

/-!
# What the destructor leaves

The host thread can open the remote socket, and start the remote thread, after the destructor has
looked at the socket and while it waits for the host thread. The destructor joins the host thread
first, so whatever that thread has started is there to be joined next, and whatever it has opened is
closed with the members.

## Main definitions

* `SocksConnection.Settled`: the destructor runs and the threads are over

## Main results

* `SocksConnection.descriptors_balance`: every descriptor of the remote socket is closed or open
* `SocksConnection.Settled.exec`: nothing starts once the threads are over
* `SocksConnection.destructor_joins`: what holds when the body of the destructor ends, and when the
  members are destroyed
-/

namespace LklSocks

namespace SocksConnection

variable {c c' : SocksConnection} {a : ConnectionAction} {useCount : ℕ} {out : Outcome}

/-! ## The descriptors of the remote socket -/

/-- A step of the host thread opens the remote socket if it is a successful `lkl_socket`. -/
theorem HandshakeSteps.descriptors (h : c.OpensOnce) (hs : c.HandshakeSteps useCount out c') :
    (c.hostCalls out).count (.socket true) + c.remoteSocket.isOpen.toNat =
      (c.hostCalls out).count .close + c'.remoteSocket.isOpen.toNat := by
  cases hs with
  | openRemote hp =>
    have hclosed := h (.inr (by rw [hp]; trivial))
    simp [hostCalls, hp, hclosed]
  | openError hp => simp [hostCalls, hp, reply]
  | connected hp ho => simp [hostCalls, hp, ho, reply, Socket.connect]
  | connectError hp =>
    cases ho : c.remoteSocket.isOpen <;> simp [hostCalls, hp, ho, reply]
  | relay hp hs =>
    rename_i point r
    have hdst : r.dst.isOpen = c.remoteSocket.isOpen := by rw [hs.dst_eq]
    have hcount : (c.hostCalls out).count (.socket true) = (c.hostCalls out).count .close := by
      cases point <;> cases ho : c.remoteSocket.isOpen <;> simp [hostCalls, hp, ho]
    rw [hcount, ← hdst]
    rfl
  | _ hp => simp [hostCalls, hp]

theorem remoteCalls_descriptors (c : SocksConnection) :
    c.remoteCalls.count (.socket true) = 0 ∧ c.remoteCalls.count .close = 0 := by
  unfold remoteCalls
  split
  · split <;> exact ⟨rfl, rfl⟩
  · exact ⟨rfl, rfl⟩

/-- The destructor closes what is open, before it joins and again after it. -/
theorem DestroySteps.descriptors {runner : Runner} (hs : c.DestroySteps runner c') :
    c.destructorCalls.count (.socket true) + c.remoteSocket.isOpen.toNat =
      c.destructorCalls.count .close + c'.remoteSocket.isOpen.toNat := by
  cases hs with
  | closeRemote hd =>
    cases ho : c.remoteSocket.isOpen <;> simp [destructorCalls, hd, ho, Socket.close]
  | terminate hd hj => simp [destructorCalls, hd, hj]
  | members hd hh hr =>
    cases ho : c.remoteSocket.isOpen <;> simp [destructorCalls, hd, ho, hh, hr, Socket.close]
  | _ hd => simp [destructorCalls, hd]

theorem Steps.descriptors (h : c.OpensOnce) (hs : c.Steps a c') :
    (c.lklCalls a).count (.socket true) + c.remoteSocket.isOpen.toNat =
      (c.lklCalls a).count .close + c'.remoteSocket.isOpen.toNat := by
  cases hs with
  | host hu hs =>
    rename_i d
    obtain ⟨_, -, he⟩ := d.releaseHost_eq
    have hd := hs.descriptors h
    rw [he]
    exact hd
  | remote hu hq hs =>
    rename_i r
    obtain ⟨_, -, he⟩ := (c.relayedRemote r).releaseRemote_eq
    obtain ⟨hsocket, hclose⟩ := c.remoteCalls_descriptors
    have hsrc : r.src.isOpen = c.remoteSocket.isOpen := hs.src_isOpen
    rw [he]
    show c.remoteCalls.count _ + _ = c.remoteCalls.count _ + r.src.isOpen.toNat
    rw [hsocket, hclose, hsrc]
  | destructor hs => exact hs.descriptors
  | _ => rfl

/-- **Every descriptor of the remote socket is closed or open**: in a run, the successful calls of
`lkl_socket` are as many as the calls of `lkl_close`, and one more while the socket is open. -/
theorem descriptors_balance {order : ByteOrder} {alloc : Allocation} {as : List ConnectionAction}
    (he : machine.exec (create order alloc) as = some c) :
    (machine.trace lklCalls (create order alloc) as).count (.socket true) =
      (machine.trace lklCalls (create order alloc) as).count .close +
        c.remoteSocket.isOpen.toNat := by
  refine machine.exec_induction (P := fun as c =>
    (machine.trace lklCalls (create order alloc) as).count (.socket true) =
      (machine.trace lklCalls (create order alloc) as).count .close +
        c.remoteSocket.isOpen.toNat) rfl ?_ he
  intro as c a c' hc ih hs
  have hr : machine.Reachable c := ⟨_, as, ⟨order, alloc, rfl⟩, hc⟩
  have hstep := (step_cases hs).descriptors (opensOnce hr)
  rw [Machine.trace_snoc _ _ hc, List.count_append, List.count_append]
  omega

/-! ## The end of the threads -/

/-- The destructor runs, and both threads are over. -/
structure Settled (c : SocksConnection) : Prop where
  destructor : c.destructor ≠ none
  host : c.HostOver
  remote : c.RemoteOver

/-- Only the destructor makes a step of a settled connection. -/
theorem Settled.steps (h : c.Settled) (hs : c.Steps a c') :
    a = .destructor ∧ c'.hostThread = c.hostThread ∧ c'.remoteThread = c.remoteThread ∧
      c'.Settled := by
  obtain ⟨hd, hhost, hremote⟩ := h
  cases hs with
  | accept ho hd' => exact absurd hd' hd
  | start hp hd' => exact absurd hd' hd
  | host hu hs => exact absurd hhost hs.not_over
  | remote hu hq hs => exact absurd hremote (not_remoteOver hq hs)
  | destroy hd' => exact absurd hd' hd
  | destructor hs => cases hs <;> exact ⟨rfl, rfl, rfl, nofun, hhost, hremote⟩

/-- **Nothing starts once the threads are over**, in any continuation. -/
theorem Settled.exec {as : List ConnectionAction} (h : c.Settled)
    (he : machine.exec c as = some c') :
    c'.hostThread = c.hostThread ∧ c'.remoteThread = c.remoteThread ∧
      ∀ a ∈ as, a = .destructor := by
  -- the induction carries that the connection stays settled
  have hrun : c'.Settled ∧ c'.hostThread = c.hostThread ∧ c'.remoteThread = c.remoteThread ∧
      ∀ a ∈ as, a = .destructor := by
    refine machine.exec_induction (P := fun as d => d.Settled ∧ d.hostThread = c.hostThread ∧
      d.remoteThread = c.remoteThread ∧ ∀ a ∈ as, a = .destructor) ⟨h, rfl, rfl, nofun⟩ ?_ he
    rintro as d a e - ⟨hd, hhost, hremote, has⟩ hs
    obtain ⟨ha, hhost', hremote', he⟩ := hd.steps (step_cases hs)
    refine ⟨he, hhost'.trans hhost, hremote'.trans hremote, fun b hb => ?_⟩
    rcases List.mem_append.mp hb with hb | hb
    · exact has b hb
    · exact (List.mem_singleton.mp hb).trans ha
  exact hrun.2

/-- A step that completes the destructor has closed the remote socket. -/
theorem Steps.closed_of_freed (hs : c.Steps a c') (hf : ¬ c.Freed) (hf' : c'.Freed) :
    c'.remoteSocket.isOpen = false := by
  cases hs with
  | accept ho hd => exact absurd hf' hf
  | start hp hd => exact absurd hf' hf
  | host hu hs =>
    rename_i d
    obtain ⟨e, he, heq⟩ := d.releaseHost_eq
    have hd : d.destructor = c.destructor := by cases hs <;> rfl
    rw [heq] at hf'
    rcases he with rfl | rfl
    · exact absurd (show c.Freed by rwa [Freed, ← hd]) hf
    · cases hf'
  | remote hu hq hs =>
    rename_i r
    obtain ⟨e, he, heq⟩ := (c.relayedRemote r).releaseRemote_eq
    rw [heq] at hf'
    rcases he with rfl | rfl
    · exact absurd hf' hf
    · cases hf'
  | destroy hd => cases hf'
  | destructor hs =>
    cases hs with
    | members hd hh hr => rfl
    | _ => cases hf'

theorem closed_of_freed (h : machine.Reachable c) (hf : c.Freed) :
    c.remoteSocket.isOpen = false := by
  refine h.invariant (P := fun c => c.Freed → c.remoteSocket.isOpen = false) ?_ ?_ hf
  · rintro _ ⟨order, a, rfl⟩ hf
    cases hf
  · intro c a c' hr _ hs hf'
    refine (step_cases hs).closed_of_freed (fun hf => ?_) hf'
    exact hf.not_steps (closing hr) (step_cases hs)

/-- **The destructor joins everything.** The destructor runs on the main thread, in any run of the
connection. When its body has ended, no thread is joinable, both threads are over, and nothing but
the destruction of the members follows; and when the members are destroyed, every descriptor that
the host thread opened was closed. -/
theorem destructor_joins {order : ByteOrder} {alloc : Allocation} {as : List ConnectionAction}
    (he : machine.exec (create order alloc) as = some c)
    (hd : c.destructor = some (.main, .members) ∨ c.destructor = some (.main, .done)) :
    ¬ c.hostJoinable ∧ ¬ c.remoteJoinable ∧ c.HostOver ∧ c.RemoteOver ∧
    (∀ bs c', machine.exec c bs = some c' → c'.hostThread = c.hostThread ∧
      c'.remoteThread = c.remoteThread ∧ ∀ b ∈ bs, b = .destructor) ∧
    (c.destructor = some (.main, .done) → c.remoteSocket.isOpen = false ∧
      (machine.trace lklCalls (create order alloc) as).count (.socket true) =
        (machine.trace lklCalls (create order alloc) as).count .close) := by
  have hr : machine.Reachable c := ⟨_, as, ⟨order, alloc, rfl⟩, he⟩
  have hclosing := closing hr
  have hover : c.HostOver ∧ ¬ c.hostJoinable ∧ c.RemoteOver ∧ ¬ c.remoteJoinable := by
    rcases hd with hd | hd
    · simp only [Closing, hd] at hclosing
      exact hclosing.2.2
    · simp only [Closing, hd] at hclosing
      exact hclosing.2.2
  obtain ⟨hhost, hhj, hremote, hrj⟩ := hover
  have hsettled : c.Settled := ⟨by rcases hd with hd | hd <;> simp [hd], hhost, hremote⟩
  refine ⟨hhj, hrj, hhost, hremote, fun bs c' hb => hsettled.exec hb, fun hdone => ?_⟩
  have hclosed := closed_of_freed hr (congrArg (Option.map Prod.snd) hdone)
  have hbalance := descriptors_balance he
  rw [hclosed] at hbalance
  exact ⟨hclosed, hbalance⟩

/-- A run in which the destructor looks at the remote socket before the host thread opens it. The
connection is established and relays while the destructor waits, and ends when the host socket is
closed. -/
def lateRun : List ConnectionAction :=
  [.accept (sampleHeader ++ [0]), .start, .host 1 (.data sampleHeader), .host 1 (.data [0]),
    .destroy, .destructor, .host 0 .ok, .host 0 (.connected [9]), .host 0 (.wrote 8), .host 0 .ok,
    .destructor, .host 0 (.error .eof), .host 0 .ok, .host 0 .ok, .destructor,
    .remote 0 (.data [9]), .remote 0 (.error (.system 32)), .remote 0 .ok, .destructor,
    .destructor]

/-- The connection after the run. -/
def late : SocksConnection := (machine.exec sample lateRun).getD sample

theorem destructor_joins_late : late.remoteSocket.isOpen = false ∧
    (machine.trace lklCalls sample lateRun).count (.socket true) =
      (machine.trace lklCalls sample lateRun).count .close :=
  (destructor_joins (c := late) rfl (.inr rfl)).2.2.2.2.2 rfl

end SocksConnection

end LklSocks
