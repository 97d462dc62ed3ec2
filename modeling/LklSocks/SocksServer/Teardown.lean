import LklSocks.SocksConnection.Teardown
import LklSocks.SocksServer.Shutdown

/-!
# What a relayed connection has written when it is torn down

The first EOF in either direction stops the connection. In a run without errors and without a
signal, the direction that ended is complete when the destructor closes the sockets; the other is
cut off wherever it is, also inside the buffer of its loop.

## Main definitions

* `SocksServer.Calm`: the relay loops of a connection fail only by EOF

## Main results

* `SocksServer.relay_complete`: what is written when the destructor begins
-/

namespace LklSocks

namespace SocksServer

variable {s t : SocksServer} {a : Action} {c : ℕ}

/-- If the step is an error in a relay loop of the connection, it is EOF of the read. -/
def Calm (c : ℕ) (s : SocksServer) : Action → Prop
  | .host d out => d = c → (ConnectionAction.host (s.useCount c) out).Calm (s.conn c)
  | .remote d out => d = c → (ConnectionAction.remote (s.useCount c) out).Calm (s.conn c)
  | _ => True

instance (c : ℕ) (s : SocksServer) (a : Action) : Decidable (s.Calm c a) := by
  unfold Calm
  split <;> infer_instance

theorem Calm.of_causes {b : ConnectionAction} (h : s.Calm c a) (hb : s.Causes c a b) :
    b.Calm (s.conn c) := by
  cases hb with
  | host => exact h rfl
  | remote => exact h rfl
  | _ => trivial

/-- In a calm run, the directions that have ended are complete until the sockets are closed. -/
theorem drained_of_calm {order : ByteOrder} {as : List Action}
    (hok : ∀ t a u, machine.Takes (initial order) as t a u → t.Calm c a)
    (ht : machine.Visits (initial order) as t) (hc : (t.conn c).BeforeClose) :
    (t.conn c).Drained := by
  refine Machine.visits_of_takes (r := fun t a => t.Calm c a)
    (P := fun t : SocksServer => (t.conn c).BeforeClose → (t.conn c).Drained) ?_ ?_ hok ht hc
  · exact fun _ => .of_not_relay rfl rfl
  · intro t a u hT ih hcalm hc
    have ho := ownedBy (reachable_of_visits hT.visits_left)
    have hf := SocksConnection.framed (ho.reachable c)
    cases ho.connSteps (step_cases hT.step_eq).2.2 c with
    | same he =>
      rw [he] at hc ⊢
      exact ih hc
    | create hn alloc he =>
      rw [he]
      exact .of_not_relay rfl rfl
    | step b hb hx =>
      have hs := SocksConnection.step_cases hx
      have hc' := hs.beforeClose hf hc
      have ho' := SocksConnection.isOpen (ho.reachable c) hc'
      exact (ih hc').steps hf ho' (hcalm.of_causes hb) hs hc

/-- While the server serves, a connection in the relay phase is destroyed only after one of its
threads has posted a stop handler. -/
theorem posted_of_destructor (h : machine.Reachable s) (hm : s.main.phase ≠ .ending)
    (hd : (s.conn c).destructor ≠ none) (hstart : (s.conn c).hostThread ≠ .idle) :
    (s.conn c).Posted := by
  have hlisted : c ∉ s.connections := fun hc =>
    hd ((ownedBy h).destructor_eq (mem_owners.mpr (.inl hc)))
  have hran : .start c ∈ s.ran := (started h c).ran hstart
  have hstop : .stop c ∈ s.ran := by
    by_contra hn
    exact hlisted ((mem_connections h hm c).mpr ⟨hran, hn⟩)
  exact (posted_iff h c).mp ((ledger h c).stop_mem_posted (.inr (.inr hstop)))

/-- In the relay phase, a thread that has posted a stop handler has left its loop. -/
theorem ended_of_posted {x : SocksConnection} {hostPoint remotePoint : RelayPoint}
    (hh : x.hostThread = .relay hostPoint) (hr : x.remoteThread = .relay remotePoint)
    (h : x.Posted) : x.HostEnded ∨ x.RemoteEnded := by
  -- at its reads and writes a loop is in no call of `stopConnection`
  have left {p : RelayPoint} (hp : HasPosted p.call) : ¬ p.Moving := by
    intro hm
    cases p with
    | read => exact hp.1 rfl
    | write l w => exact hp.1 rfl
    | _ => exact hm
  rcases h with hp | hp
  · rw [hh] at hp
    exact .inl ⟨hostPoint, SocksConnection.mem_hostPoint.mpr hh, left hp⟩
  · rw [hr] at hp
    exact .inr ⟨remotePoint, SocksConnection.mem_remotePoint.mpr hr, left hp⟩

/-- **What a relayed connection has written** when the destructor is about to close its sockets, in
a run without relay errors and without the end of the server: at least one direction has met EOF,
every direction that has is complete, and what was written in the other is a part, in order, of what
was read. -/
theorem relay_complete (order : ByteOrder) (as : List Action) (c : ℕ) (runner : Runner)
    (hok : ∀ t a u, machine.Takes (initial order) as t a u → t.Calm c a)
    (ht : machine.Visits (initial order) as t) (hm : t.main.phase ≠ .ending)
    (hr : (t.conn c).remoteThread ≠ .idle)
    (hd : (t.conn c).destructor = some (runner, .closeRemote)) :
    ((t.conn c).HostEnded ∨ (t.conn c).RemoteEnded) ∧
    ((t.conn c).HostEnded → (t.conn c).HostComplete) ∧
    ((t.conn c).RemoteEnded → (t.conn c).RemoteComplete) ∧
    (t.conn c).remoteSocket.sent <+:
      (t.conn c).hostSocket.received.drop (t.conn c).requestBytes.length ∧
    (t.conn c).hostSocket.sent <+:
      (t.conn c).streams.replyBytes .success ++ (t.conn c).remoteSocket.received := by
  have hreach := reachable_of_visits ht
  have hf := SocksConnection.framed ((ownedBy hreach).reachable c)
  obtain ⟨q, hq⟩ : ∃ q, (t.conn c).remoteThread = .relay q := by
    cases hq : (t.conn c).remoteThread with
    | idle => exact absurd hq hr
    | relay q => exact ⟨q, rfl⟩
  obtain ⟨p, hp, hrelaying⟩ := hf.exists_relaying hq
  have hclose : (t.conn c).BeforeClose := by
    intro d hd'
    rw [hd] at hd'
    obtain rfl := Option.some.inj hd'
    rfl
  have hdrained := drained_of_calm hok ht hclose
  have hposted := posted_of_destructor hreach hm (by rw [hd]; nofun) (by rw [hp]; nofun)
  refine ⟨ended_of_posted hp hq hposted, hdrained.host, hdrained.remote, hf.inOrder.remote, ?_⟩
  obtain ⟨output, hout, hrel⟩ := hrelaying.remote
  rw [show (t.conn c).hostSocket.sent = _ from hout, List.prefix_append_right_inj]
  exact hrel.output_prefix

/-- A run in which two bytes of the client are relayed, and the client ends its stream before the
remote has sent its byte. -/
def halfCloseRun : List Action :=
  relayRun [7, 8] [9] ++ [.host 0 (.data [7, 8]), .host 0 (.wrote 2), .host 0 (.error .eof),
    .host 0 .ok, .host 0 .ok, .host 0 .ok, .host 0 .ok, .main, .main, .main, .main]

/-- The server when the destructor of the connection begins. -/
def halfClosed : SocksServer := (machine.exec (initial .little) halfCloseRun).getD (initial .little)

theorem relay_complete_halfClosed :
    (halfClosed.conn 0).HostComplete ∧ (halfClosed.conn 0).remoteSocket.sent = [7, 8] :=
  have hmeets : machine.Meets (Calm 0) (initial .little) halfCloseRun := by decide
  ⟨(relay_complete .little halfCloseRun 0 .main (t := halfClosed) (fun _ _ _ hT => hmeets.takes hT)
    ⟨halfCloseRun, List.prefix_rfl, rfl⟩ (by decide) (by decide) rfl).2.1
    ⟨.stop .done, rfl, id⟩, rfl⟩

/-- **The other direction is cut off**: the byte of the remote is never read. -/
theorem not_lossless_halfCloseRun :
    (∀ t a u, machine.Takes (initial .little) halfCloseRun t a u → t.Calm 0 a) ∧
    ¬ ∀ t, machine.Visits (initial .little) halfCloseRun t → t.main.phase ≠ .ending →
      (t.conn 0).remoteThread ≠ .idle →
      ∀ runner, (t.conn 0).destructor = some (runner, .closeRemote) →
        (t.conn 0).HostComplete ∧ (t.conn 0).RemoteComplete := by
  have hmeets : machine.Meets (Calm 0) (initial .little) halfCloseRun := by decide
  refine ⟨fun _ _ _ hT => hmeets.takes hT, fun h => ?_⟩
  have hcomplete := h halfClosed ⟨halfCloseRun, List.prefix_rfl, rfl⟩ (by decide) (by decide) .main
    rfl
  exact absurd hcomplete.2.1 (by decide)

end SocksServer

end LklSocks
