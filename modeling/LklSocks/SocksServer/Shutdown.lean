import LklSocks.SocksServer.Release

/-!
# The end of the server

After the signal `~SocksServer` drops the list of connections, and the main thread waits for the
destructors it starts. A connection that is owned by a queued stop handler, or by a thread inside
`stopConnection`, outlives the server: it is destroyed with the `io_service`, after LKL is halted,
and until then its threads go on and refer to the server.

## Main definitions

* `SocksServer.DestroyingOne`: the destructor that the main thread runs
* `SocksConnection.Stopping`: a thread is inside `stopConnection`
* `SocksServer.Gone`: a connection that makes no further step

## Main results

* `SocksServer.destroyingOne`: the main thread runs one destructor at a time, to its end
* `SocksServer.conn_eq_of_freed`: nothing happens to a connection after its destructor
* `SocksServer.shutdown_iff`: the started connections are gone after `~SocksServer` exactly when no
  stop handler is queued for them and no thread of them is inside `stopConnection`
-/

namespace LklSocks

namespace SocksConnection

variable {c c' : SocksConnection} {useCount : ℕ} {out : Outcome} {point : DtorPoint}

/-- A thread of the connection is inside `stopConnection`, or in the destructor that it started
there. -/
def Stopping (c : SocksConnection) : Prop :=
  ∃ call, call ≠ .done ∧ (c.hostThread.call = some call ∨ c.remoteThread.call = some call)

/-- A connection that no thread is stopping is not referred to by its threads. -/
theorem held_eq_zero (h : ¬ c.Stopping) : c.held = 0 := by
  have zero {call : Option StopCall} (hc : ∀ k, k ≠ .done → call ≠ some k) : heldBy call = 0 :=
    heldBy_eq_zero (hc _ nofun) (hc _ nofun)
  rw [held_eq, zero fun k hk hc => h ⟨k, hk, .inl hc⟩, zero fun k hk hc => h ⟨k, hk, .inr hc⟩]

/-- The threads of a freed connection are not inside `stopConnection`. -/
theorem Freed.not_stopping (h : c.Freed) (hc : c.Closing) (hheld : c.held = 0) :
    ¬ c.Stopping := by
  rintro ⟨call, hne, hcall⟩
  simp only [Closing, h.destructor_eq hc] at hc
  rw [held_eq] at hheld
  cases call with
  | done => exact hne rfl
  | destroying => exact hcall.elim hc.1 hc.2.1
  | _ => rcases hcall with hcall | hcall <;> simp [hcall, heldBy, StopCall.holds] at hheld

/-- The threads start no destructor on the main thread. -/
theorem destructor_of_hostStep (hf : c.Framed) (hx : c.hostStep useCount out = some c')
    (hd : c'.destructor = some (.main, point)) : c.destructor = some (.main, point) := by
  obtain ⟨d, hs, rfl⟩ := Option.map_eq_some_iff.mp hx
  obtain ⟨-, -, hdtor⟩ := (handshake_cases hs).call hf
  obtain ⟨e, he, heq⟩ := d.releaseHost_eq
  rw [heq] at hd
  rcases he with rfl | rfl
  · exact hdtor ▸ hd
  · cases hd

theorem destructor_of_remoteStep (hx : c.remoteStep useCount out = some c')
    (hd : c'.destructor = some (.main, point)) : c.destructor = some (.main, point) := by
  obtain ⟨d, hs, rfl⟩ := Option.map_eq_some_iff.mp hx
  obtain ⟨q, r, -, -, rfl⟩ := receiveRemote_cases hs
  obtain ⟨e, he, heq⟩ := (c.relayedRemote r).releaseRemote_eq
  rw [heq] at hd
  rcases he with rfl | rfl
  · exact hd
  · cases hd

/-- A destructor is not yet done when it makes a step, and stays on its thread. -/
theorem DestroySteps.exists_point {runner : Runner} (hs : c.DestroySteps runner c') :
    ∃ p q, c.destructor = some (runner, p) ∧ p ≠ .done ∧ c'.destructor = some (runner, q) := by
  cases hs with
  | _ hd => exact ⟨_, _, hd, nofun, rfl⟩

end SocksConnection

namespace SocksServer

variable {s t : SocksServer} {a : Action} {c : ℕ}

/-! ## The destructors of the main thread -/

/-- A destructor that the main thread has begun is done, or the main thread is in it. -/
def DestroyingOne (s : SocksServer) : Prop :=
  ∀ c p, (s.conn c).destructor = some (.main, p) → p ≠ .done → s.destroying = some c

/-- A step of a connection that begins no destructor on the main thread. -/
theorem DestroyingOne.update {x : SocksConnection} (h : s.DestroyingOne)
    (ht : t.conn = Function.update s.conn c x) (hb : t.destroying = s.destroying)
    (hx : ∀ p, x.destructor = some (.main, p) → (s.conn c).destructor = some (.main, p)) :
    t.DestroyingOne := by
  intro d p hd hp
  rw [hb]
  rw [ht] at hd
  by_cases hdc : d = c
  · subst hdc
    rw [Function.update_self] at hd
    exact h d p (hx p hd) hp
  · rw [Function.update_of_ne hdc] at hd
    exact h d p hd hp

/-- The main thread releases a reference when it is in no destructor. -/
theorem DestroyingOne.release (h : s.DestroyingOne) (hb : s.destroying = none)
    (ht : t.conn = s.conn) (c : ℕ) : (t.release c).DestroyingOne := by
  have hdone {d : ℕ} {p : DtorPoint} (hd : (s.conn d).destructor = some (.main, p))
      (hp : p ≠ .done) : False := by
    cases hb.symm.trans (h d p hd hp)
  unfold SocksServer.release
  split
  · intro d p hd hp
    by_cases hdc : d = c
    · exact hdc ▸ rfl
    · have hd' : (Function.update t.conn c _ d).destructor = some (.main, p) := hd
      rw [Function.update_of_ne hdc, ht] at hd'
      exact (hdone hd' hp).elim
  · intro d p hd hp
    rw [ht] at hd
    exact (hdone hd hp).elim

theorem DestroyingOne.server (h : s.DestroyingOne) (hb : s.destroying = none)
    (hs : s.ServerSteps a t) : t.DestroyingOne := by
  cases hs with
  | construct hm ha => exact h.update rfl rfl fun p hp => by cases hp
  | rearm hm ha => exact h.update rfl rfl fun p hp => by cases hp
  | accepted hm ha hx =>
    refine h.update rfl rfl ?_
    intro p hp
    cases SocksConnection.step_cases hx with
    | accept ho hd => exact hp
  | startThread hm hx =>
    refine h.update rfl rfl ?_
    intro p hp
    cases SocksConnection.step_cases hx with
    | start ho hd => exact hp
  | finish hm => exact h.release hb (by rfl) _
  | dropConnection hm hc => exact h.release hb (by rfl) _
  | dropHandler hm hq => exact h.release hb (by rfl) _
  | _ => exact h

/-- **The destructors of the main thread**: it runs one at a time, to its end. -/
theorem destroyingOne (h : machine.Reachable s) : s.DestroyingOne := by
  refine h.invariant (P := DestroyingOne) ?_ ?_
  · rintro _ ⟨order, rfl⟩ c p hd
    cases hd
  · intro s a t hr ih ht
    have ho := ownedBy hr
    cases (step_cases ht).2.2 with
    | server hb hs => exact ih.server hb hs
    | host hx =>
      exact ih.update rfl rfl fun p =>
        SocksConnection.destructor_of_hostStep (SocksConnection.framed (ho.reachable _)) hx
    | remote hx => exact ih.update rfl rfl fun p => SocksConnection.destructor_of_remoteStep hx
    | destructor hx =>
      rename_i c x
      obtain ⟨runner, hs⟩ := SocksConnection.destroyStep_cases hx
      obtain ⟨p, q, hp, hne, hq⟩ := hs.exists_point
      intro d p' hd hp'
      have hd' : (Function.update s.conn c x d).destructor = some (.main, p') := hd
      show (if x.destructor = some (.main, .done) then none else s.destroying) = some d
      by_cases hdc : d = c
      · subst hdc
        rw [Function.update_self, hq] at hd'
        obtain ⟨rfl, rfl⟩ := Prod.mk.inj (Option.some.inj hd')
        have hnd : x.destructor ≠ some (.main, .done) := by simpa [hq] using hp'
        rw [if_neg hnd]
        exact ih d p hp hne
      · rw [Function.update_of_ne hdc] at hd'
        have hnd : x.destructor ≠ some (.main, .done) := by
          rw [hq]
          rintro ⟨⟩
          exact hdc (Option.some.inj ((ih d p' hd' hp').symm.trans (ih c p hp hne)))
        rw [if_neg hnd]
        exact ih d p' hd' hp'

/-! ## What a freed connection does -/

theorem conn_eq_of_freed_step (h : machine.Reachable s) (hf : (s.conn c).Freed)
    (hs : s.step a = some t) : t.conn c = s.conn c := by
  have ho := ownedBy h
  cases ho.connSteps (step_cases hs).2.2 c with
  | same he => exact he
  | create hc alloc he => exact absurd (ho.unused c hc.ge).2.2.2 hf.destructor_ne
  | step b hb hx =>
    have hclosing := SocksConnection.closing (ho.reachable c)
    exact absurd (SocksConnection.step_cases hx) (hf.not_steps hclosing)

/-- **Nothing happens to a connection after its destructor**, in any continuation. -/
theorem conn_eq_of_freed (h : machine.Reachable s) (hf : (s.conn c).Freed) {as : List Action}
    (he : machine.exec s as = some t) : t.conn c = s.conn c := by
  refine machine.exec_induction (P := fun _ t => t.conn c = s.conn c) rfl ?_ he
  intro as t a u he ih hs
  exact (conn_eq_of_freed_step (h.exec he) (ih ▸ hf) hs).trans ih

/-- A connection that is destroyed, whose threads have finished, and that makes no further step. -/
structure Gone (s : SocksServer) (c : ℕ) : Prop where
  freed : (s.conn c).Freed
  host : (s.conn c).hostThread.Finished
  remote : (s.conn c).RemoteOver
  silent : ∀ as t, machine.exec s as = some t →
    ∀ out, t.step (.host c out) = none ∧ t.step (.remote c out) = none

theorem Gone.of_freed (h : machine.Reachable s) (hf : (s.conn c).Freed)
    (hstarted : (s.conn c).hostThread ≠ .idle) : s.Gone c := by
  obtain ⟨hhost, hremote⟩ := hf.over (SocksConnection.closing ((ownedBy h).reachable c))
  refine ⟨hf, hhost.resolve_left hstarted, hremote, fun as t he out => ?_⟩
  have hr := h.exec he
  have ho := ownedBy hr
  have hf' : (t.conn c).Freed := by rwa [conn_eq_of_freed h hf he]
  have hclosing := SocksConnection.closing (ho.reachable c)
  refine ⟨Option.eq_none_iff_forall_ne_some.mpr ?_,
    Option.eq_none_iff_forall_ne_some.mpr ?_⟩
  · intro u hu
    cases (step_cases hu).2.2 with
    | server hb hs => cases hs
    | host hx => exact hf'.not_steps hclosing (SocksConnection.step_cases (ho.host_step hx))
  · intro u hu
    cases (step_cases hu).2.2 with
    | server hb hs => cases hs
    | remote hx => exact hf'.not_steps hclosing (SocksConnection.step_cases (ho.remote_step hx))

/-! ## After `~SocksServer` -/

/-- Once the list is dropped, a started connection is referred to by its stop handlers only. -/
theorem notMem_owners (h : machine.Reachable s) (hm : s.main.phase = .ending)
    (hl : s.connections = []) (hc : .start c ∈ s.ran) (hstop : .stop c ∉ s.queue) :
    c ∉ s.owners := by
  have hacc : s.accepting = none := by
    have hone := acceptsOne h
    rwa [AcceptsOne, hm] at hone
  have hconn : s.main.conn = none := by
    cases hmain : s.main <;> simp [hmain] at hm <;> rfl
  have hledger := ledger h c
  rw [mem_owners]
  rintro (hmem | hmem | hmem | hmem)
  · simp [hl] at hmem
  · obtain ⟨handler, hq, hconn⟩ := List.mem_map.mp hmem
    cases handler with
    | accepted d error =>
      obtain rfl : d = c := hconn
      exact hledger.accepted_notMem_queue hc hq
    | start d =>
      obtain rfl : d = c := hconn
      exact hledger.start_notMem_ran hq hc
    | stop d =>
      obtain rfl : d = c := hconn
      exact hstop hq
  · simp [hacc] at hmem
  · simp [hconn] at hmem

/-- Once the list is dropped, and the main thread is in no destructor, a started connection is freed
if no stop handler is queued for it and no thread of it is inside `stopConnection`. -/
theorem freed_of_dropped (h : machine.Reachable s) (hb : s.destroying = none)
    (hm : s.main.phase = .ending) (hl : s.connections = []) (hc : .start c ∈ s.ran)
    (hq : .stop c ∉ s.queue) (hstop : ¬ (s.conn c).Stopping) : (s.conn c).Freed := by
  have ho := ownedBy h
  have hcount := List.count_eq_zero.mpr (notMem_owners h hm hl hc hq)
  have hheld := SocksConnection.held_eq_zero hstop
  have hown := ho.owned c ((ledger h c).lt_next hc)
  have hclosing := SocksConnection.closing (ho.reachable c)
  obtain ⟨⟨runner, p⟩, hd⟩ := Option.ne_none_iff_exists'.mp (hown.mp (by omega))
  cases runner with
  | main =>
    by_contra hne
    have hp : p ≠ .done := by
      rintro rfl
      exact hne (congrArg (Option.map Prod.snd) hd)
    cases hb.symm.trans (destroyingOne h c p hd hp)
  | host =>
    simp only [SocksConnection.Closing, hd] at hclosing
    exact absurd ⟨.destroying, by decide, .inl hclosing.1⟩ hstop
  | remote =>
    simp only [SocksConnection.Closing, hd] at hclosing
    exact absurd ⟨.destroying, by decide, .inr hclosing.1⟩ hstop

/-- The last step of `~SocksServer`. -/
theorem Steps.of_dropped (hs : s.Steps .main t) (hm : s.main = .dropConnections)
    (hm' : t.main = .haltLkl) :
    s.destroying = none ∧ s.connections = [] ∧ t = { s with main := .haltLkl } := by
  cases hs with
  | server hb hs =>
    cases hs with
    | dropped hd hl => exact ⟨hb, hl, rfl⟩
    | dropConnection hd hc => simp [hm] at hm'
    | _ hd => cases hm.symm.trans hd

/-- **After `~SocksServer`**: when the last connection of the list is dropped, every connection
whose start handler ran is gone exactly when no stop handler is queued for it and no thread of it is
inside `stopConnection`. -/
theorem shutdown_iff (h : machine.Reachable s) (hs : machine.step s .main = some t)
    (hm : s.main = .dropConnections) (hm' : t.main = .haltLkl) :
    (∀ c, .start c ∈ t.ran → t.Gone c) ↔
      ∀ c, .start c ∈ s.ran → .stop c ∉ s.queue ∧ ¬ (s.conn c).Stopping := by
  have ho := ownedBy h
  have hr := h.step hs
  obtain ⟨hb, hl, rfl⟩ := Steps.of_dropped (step_cases (show s.step .main = _ from hs)).2.2 hm hm'
  apply forall₂_congr
  intro c hc
  have hlt : c < s.next := (ledger h c).lt_next hc
  have hclosing := SocksConnection.closing (ho.reachable c)
  have hown := ho.owned c hlt
  constructor
  · intro hgone
    have hfreed : (s.conn c).Freed := hgone.freed
    have hzero : s.owners.count c + (s.conn c).held = 0 := hown.mpr hfreed.destructor_ne
    refine ⟨fun hq => ?_, hfreed.not_stopping hclosing (by omega)⟩
    -- a queued handler would own the connection
    have hpos : 0 < s.owners.count c :=
      List.count_pos_iff.mpr (mem_owners.mpr (.inr (.inl (List.mem_map.mpr ⟨_, hq, rfl⟩))))
    omega
  · rintro ⟨hq, hstop⟩
    have hfreed : (s.conn c).Freed := freed_of_dropped h hb (by rw [hm]; rfl) hl hc hq hstop
    exact .of_freed hr hfreed (((started h c).thread hc).resolve_right (by simp [hm]))

/-- A run to the end of `~SocksServer`, which destroys a connection in the relay phase. -/
def drainedRun : List Action :=
  relayRun [] [] ++ [.signal, .main, .main, .destructor 0, .destructor 0,
    .host 0 (.error .eof), .host 0 .ok, .host 0 .ok, .remote 0 (.error .eof), .remote 0 .ok,
    .remote 0 .ok, .destructor 0, .destructor 0, .destructor 0]

/-- The server when its list is dropped. -/
def drained : SocksServer := (machine.exec (initial .little) drainedRun).getD (initial .little)

theorem shutdown_iff_drained : Gone { drained with main := .haltLkl } 0 := by
  refine (shutdown_iff (s := drained) ⟨initial .little, drainedRun, ⟨_, rfl⟩, rfl⟩ rfl rfl
    rfl).mpr (fun c hc => ?_) 0 (by decide)
  obtain rfl : c = 0 := by simpa using (show Handler.start c ∈ [.accepted 0 none, .start 0] from hc)
  exact ⟨by decide, by rintro ⟨call, -, hcall | hcall⟩ <;> cases hcall⟩

/-- A run in which the remote has ended its stream, and the signal comes before the stop handler
runs. -/
def queuedRun : List Action :=
  relayRun [7] [] ++ [.remote 0 (.error .eof), .remote 0 .ok, .remote 0 .ok, .remote 0 .ok,
    .remote 0 .ok, .signal, .main, .main, .main]

/-- The connection outlives the server, and its host thread is in the relay loop. -/
theorem not_gone_queuedRun : ¬ ∀ t, machine.exec (initial .little) queuedRun = some t →
    t.main = .haltLkl → ∀ c, .start c ∈ t.ran → t.Gone c := fun h =>
  have hgone := h ((machine.exec (initial .little) queuedRun).getD (initial .little)) rfl rfl 0
    (by decide)
  hgone.host

end SocksServer

end LklSocks
