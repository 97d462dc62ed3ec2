import LklSocks.SocksConnection.Threads
import LklSocks.SocksServer.Registry

/-!
# How the threads of the server end

Over whole runs of the program, the threads of the connections end as they should except in two
branches of the code. An exception leaves `handshake` when its `catch (...)` calls
`shared_from_this` after the destructor of the connection has started. And a relay loop that is
left by an error other than EOF announces nothing, so its connection stays in the list. A run is
free of the defect exactly when it takes no such step.

## Main definitions

* `SocksServer.CatchesAlive`, `SocksServer.ExitsAnnounced`: the conditions on a step
* `SocksServer.NotLeaked`: a connection whose relay loop has returned is going to be removed

## Main results

* `SocksServer.posted_iff`: the stop handlers that were posted are those of the calls
* `SocksServer.no_escape_iff`: no exception leaves a thread exactly when the handler finds every
  connection alive
* `SocksServer.not_leaked_iff`: no connection is leaked exactly when every exit is announced
-/

namespace LklSocks

namespace SocksServer

variable {s t : SocksServer} {a : Action} {c : ℕ}

/-- The states of a run are reachable. -/
theorem reachable_of_visits {order : ByteOrder} {as : List Action}
    (h : machine.Visits (initial order) as t) : machine.Reachable t :=
  Machine.Visits.reachable (show machine.init _ from ⟨order, rfl⟩) h

/-! ## The stop handlers -/

theorem mem_posting {d : ℕ} {call : Option StopCall} :
    .stop c ∈ posting d call ↔ c = d ∧ call = some .argument := by
  unfold posting
  split
  · next hc => simp [hc]
  · next hc => simp [hc]

/-- A step of the connection `d` and the stop handlers. -/
theorem posted_update {d : ℕ} {b : ConnectionAction} {x : SocksConnection}
    (h : ∀ c, .stop c ∈ s.posted ↔ (s.conn c).Posted) (hf : (s.conn d).Framed)
    (hx : (s.conn d).step b = some x) (c : ℕ) :
    .stop c ∈ s.posted ++ posting d (b.call (s.conn d)) ↔
      (Function.update s.conn d x c).Posted := by
  rw [List.mem_append, mem_posting, h]
  by_cases hc : c = d
  · subst hc
    rw [Function.update_self, (SocksConnection.step_cases hx).posted_iff hf]
    simp
  · rw [Function.update_of_ne hc]
    simp [hc]

/-- A step of the main thread makes no step of a call. -/
theorem ServerSteps.call_eq {b : ConnectionAction} (hs : s.ServerSteps a t)
    (hb : s.Causes c a b) : b.call (s.conn c) = none := by
  cases hb with
  | host => cases hs
  | remote => cases hs
  | _ => rfl

/-- **The stop handlers that were posted** are those of the calls on the threads, in every
reachable state. -/
theorem posted_iff (h : machine.Reachable s) (c : ℕ) :
    .stop c ∈ s.posted ↔ (s.conn c).Posted := by
  suffices hall : ∀ c, .stop c ∈ s.posted ↔ (s.conn c).Posted from hall c
  refine h.invariant (P := fun s => ∀ c, .stop c ∈ s.posted ↔ (s.conn c).Posted) ?_ ?_
  · rintro _ ⟨order, rfl⟩ c
    simp [initial, SocksConnection.Posted, SocksConnection.create, HostPoint.call,
      RemotePoint.call, HasPosted]
  · intro s a t hr ih ht c
    have ho := ownedBy hr
    have hs := (step_cases ht).2.2
    have hf (d : ℕ) : (s.conn d).Framed := SocksConnection.framed (ho.reachable d)
    have hconn := ho.connSteps hs c
    cases hs with
    | server hb hs =>
      rw [hs.stop_posted, ih]
      cases hconn with
      | same he => rw [he]
      | create hc alloc he =>
        obtain ⟨-, hhost, hremote, -⟩ := ho.unused c hc.ge
        rw [he]
        simp [SocksConnection.Posted, SocksConnection.create, hhost, hremote]
      | step b hb he =>
        rw [(SocksConnection.step_cases he).posted_iff (hf c), hs.call_eq hb]
        simp
    | host hx => exact posted_update ih (hf _) (ho.host_step hx) c
    | remote hx => exact posted_update ih (hf _) (ho.remote_step hx) c
    | destructor hx =>
      rename_i d x
      have hstep : (s.conn d).step .destructor = some x := hx
      have hpost := posted_update ih (hf d) hstep c
      rwa [show posting d (ConnectionAction.call _ .destructor) = [] from rfl, List.append_nil]
        at hpost

/-- A destructor that has started stays so. -/
theorem OwnedBy.destructor_ne {x : SocksConnection} (h : s.OwnedBy) (hs : s.ConnSteps c a x)
    (hd : (s.conn c).destructor ≠ none) : x.destructor ≠ none := by
  cases hs with
  | same he => exact he ▸ hd
  | create hc alloc he => exact absurd (h.unused c hc.ge).2.2.2 hd
  | step b hb he =>
    exact (SocksConnection.step_cases he).destructor_ne (SocksConnection.framed (h.reachable c)) hd

/-- A thread that finds no strong reference left runs after the destructor has started. -/
theorem OwnedBy.destructor_of_expired {b : ConnectionAction} {x : SocksConnection} (h : s.OwnedBy)
    (hb : s.Causes c a b) (hx : (s.conn c).step b = some x) (he : b.Expired) :
    (s.conn c).destructor ≠ none := by
  have hc : c < s.next := by
    by_contra hn
    obtain ⟨-, hhost, hremote, -⟩ := h.unused c (not_lt.mp hn)
    cases SocksConnection.step_cases hx with
    | host hu hs => exact hs.not_over (.inl hhost)
    | remote hu hq hs => cases hq.symm.trans hremote
    | _ => exact he.elim
  have hown := h.owned c hc
  cases hb with
  | host => exact hown.mp he
  | remote => exact hown.mp he
  | _ => exact he.elim

/-! ## Exceptions that leave a thread -/

/-- If the step runs the `catch (...)` of `handshake`, the destructor of the connection has not
started. -/
def CatchesAlive (s : SocksServer) : Action → Prop
  | .host c _ => (s.conn c).hostThread = .catchAll → (s.conn c).destructor = none
  | _ => True

/-- An exception leaves a thread only through a step that meets its connection in the
destructor. -/
theorem OwnedBy.escaped (h : s.OwnedBy) (hs : s.ConnSteps c a (t.conn c))
    (he : (t.conn c).hostThread = .escaped) :
    (s.conn c).hostThread = .escaped ∨ ¬ s.CatchesAlive a := by
  cases hs with
  | same heq => exact .inl (heq ▸ he)
  | create hc alloc heq =>
    rw [heq] at he
    cases he
  | step b hb hx =>
    rcases (SocksConnection.step_cases hx).escaped he with he | ⟨n, out, rfl, hn, hp⟩
    · exact .inl he
    · right
      have hd := h.destructor_of_expired hb hx hn
      cases hb with
      | host => exact fun halive => hd (halive hp)

/-- A `catch (...)` that runs after the destructor has started lets an exception out. -/
theorem OwnedBy.catchesAlive (h : s.OwnedBy) (hs : s.Steps a t)
    (he : ∀ c, (t.conn c).hostThread ≠ .escaped) : s.CatchesAlive a := by
  cases hs with
  | host hx =>
    rename_i c out x
    intro hp
    by_contra hd
    -- no reference is left, so `shared_from_this` throws
    have hzero := (h.useCount_eq (h.lt_of_host hx)).resolve_left hd
    have hstep := SocksConnection.step_cases (h.host_step hx)
    rw [hzero] at hstep
    apply he c
    show (Function.update s.conn c x c).hostThread = .escaped
    rw [Function.update_self]
    exact hstep.of_expired hp
  | server hb hs => cases hs <;> trivial
  | _ => trivial

/-- **Exceptions that leave a thread**: in a run, no exception leaves a thread of a connection
exactly when every `catch (...)` of `handshake` that runs finds its connection alive. -/
theorem no_escape_iff (order : ByteOrder) (as : List Action) :
    (∀ t, machine.Visits (initial order) as t → ∀ c, (t.conn c).hostThread ≠ .escaped) ↔
      ∀ t a u, machine.Takes (initial order) as t a u → t.CatchesAlive a := by
  refine Machine.visits_iff_takes
    (P := fun t : SocksServer => ∀ c, (t.conn c).hostThread ≠ .escaped)
    (fun c he => by cases he) ?_ ?_
  · intro t a u hT ht hok c he
    have ho := ownedBy (reachable_of_visits hT.visits_left)
    have hs := (step_cases hT.step_eq).2.2
    rcases ho.escaped (ho.connSteps hs c) he with he | hn
    · exact ht c he
    · exact hn hok
  · intro t a u hT hu
    have ho := ownedBy (reachable_of_visits hT.visits_left)
    exact ho.catchesAlive (step_cases hT.step_eq).2.2 hu

/-- A run in which the signal comes before the client has sent its request: the destructor of the
connection closes the socket under the first read. -/
def signalRun : List Action :=
  startRun [] ++ [.signal, .main, .main, .destructor 0, .destructor 0, .host 0 (.error .eof),
    .host 0 .ok]

/-- The read fails, and the `catch (...)` throws. -/
theorem escape_signalRun : ¬ ∀ t, machine.Visits (initial .little) signalRun t →
    ∀ c, (t.conn c).hostThread ≠ .escaped := fun h =>
  h ((machine.exec (initial .little) signalRun).getD (initial .little))
    ⟨signalRun, List.prefix_rfl, rfl⟩ 0 rfl

/-! ## Connections that leak -/

/-- A connection whose relay loop has returned is going to be removed: a stop handler was posted
for it, or its destructor has started; and while it is listed with both loops returned, a stop
handler is queued or runs. -/
structure NotLeaked (s : SocksServer) (c : ℕ) : Prop where
  announced : (s.conn c).Returned → .stop c ∈ s.posted ∨ (s.conn c).destructor ≠ none
  pending : (s.conn c).HostReturned → (s.conn c).remoteThread.Finished → c ∈ s.connections →
    .stop c ∈ s.queue ∨ 0 < s.main.stopping c

/-- If the step leaves a relay loop by an error other than EOF, a stop handler was already posted
for the connection, or its destructor has started. -/
def ExitsAnnounced (s : SocksServer) : Action → Prop
  | .host c _ => ∀ ec, ec ≠ .eof → (s.conn c).hostThread = .relay (.caught ec) →
      .stop c ∈ s.posted ∨ (s.conn c).destructor ≠ none
  | .remote c _ => ∀ ec, ec ≠ .eof → (s.conn c).remoteThread = .relay (.caught ec) →
      .stop c ∈ s.posted ∨ (s.conn c).destructor ≠ none
  | _ => True

theorem ExitsAnnounced.of_silentExit {b : ConnectionAction} (h : s.ExitsAnnounced a)
    (hb : s.Causes c a b) (he : b.SilentExit (s.conn c)) :
    .stop c ∈ s.posted ∨ (s.conn c).destructor ≠ none := by
  cases hb with
  | host =>
    obtain ⟨ec, hne, hp⟩ := he
    exact h ec hne hp
  | remote =>
    obtain ⟨ec, hne, hp⟩ := he
    exact h ec hne hp
  | _ => exact he.elim

/-- The list is empty once it was dropped. -/
theorem connections_eq_nil (h : machine.Reachable s)
    (hm : s.main = .haltLkl ∨ s.main = .dropHandlers ∨ s.main = .exited) : s.connections = [] := by
  refine h.invariant (P := fun s => s.main = .haltLkl ∨ s.main = .dropHandlers ∨
    s.main = .exited → s.connections = []) ?_ ?_ hm
  · rintro _ ⟨order, rfl⟩ -
    rfl
  · intro s a t _ ih ht hm
    cases (step_cases ht).2.2 with
    | server hb hs =>
      cases hs with
      | dropped hm' hc => exact hc
      | _ => simp_all [handleAccept, SocksServer.remove, SocksServer.closeAcceptor]
    | _ => exact ih hm

/-- A listed connection that is announced has a stop handler, in the queue or running. -/
theorem stop_pending (h : machine.Reachable s) (hc : c ∈ s.connections)
    (ha : (s.conn c).Announced) : .stop c ∈ s.queue ∨ 0 < s.main.stopping c := by
  have hd : (s.conn c).destructor = none := (ownedBy h).destructor_eq (mem_owners.mpr (.inl hc))
  have hposted : .stop c ∈ s.posted := (posted_iff h c).mpr (ha.resolve_right (not_not.mpr hd))
  have hopen (hm : s.main = .haltLkl ∨ s.main = .dropHandlers ∨ s.main = .exited) : False := by
    simp [connections_eq_nil h hm] at hc
  rcases (ledger h c).stop_cases (fun hm => hopen (.inr (.inl hm)))
    (fun hm => hopen (.inr (.inr hm))) hposted with hq | hm | hr
  · exact .inl hq
  · exact .inr hm
  · exact absurd hr (stop_notMem_ran h hc)

theorem NotLeaked.of_announced (h : machine.Reachable s)
    (ha : (s.conn c).Returned → (s.conn c).Announced) : s.NotLeaked c where
  announced hr := (ha hr).imp_left (posted_iff h c).mpr
  pending hh _ hc := stop_pending h hc (ha (.inl hh))

/-- A step that meets the condition leaves no relay loop without announcing it. -/
theorem ExitsAnnounced.steps (hr : machine.Reachable s)
    (h : ∀ c, (s.conn c).Returned → (s.conn c).Announced) (hok : s.ExitsAnnounced a)
    (hs : s.ConnSteps c a (t.conn c)) (ht : (t.conn c).Returned) : (t.conn c).Announced := by
  have ho := ownedBy hr
  cases hs with
  | same he =>
    rw [he] at ht ⊢
    exact h c ht
  | create hc alloc he =>
    rw [he] at ht
    rcases ht with ⟨p, hp, -⟩ | hfin
    · cases hp
    · exact hfin.elim
  | step b hb hx =>
    have hf := SocksConnection.framed (ho.reachable c)
    have hstep := SocksConnection.step_cases hx
    apply hstep.announced hf
    rcases hstep.returned ht with hret | hsilent | hexp | hposted
    · exact h c hret
    · exact (hok.of_silentExit hb hsilent).imp_left (posted_iff hr c).mp
    · exact .inr (ho.destructor_of_expired hb hx hexp)
    · exact .inl hposted

/-- A relay loop that is left without announcing it leaks its connection. -/
theorem ExitsAnnounced.of_notLeaked (hr : machine.Reachable s) (hs : s.Steps a t)
    (h : ∀ c, (t.conn c).Returned → (t.conn c).Announced) : s.ExitsAnnounced a := by
  have ho := ownedBy hr
  have announced {c : ℕ} {b : ConnectionAction} {x : SocksConnection}
      (hx : (s.conn c).step b = some x) (ht : t.conn = Function.update s.conn c x)
      (hb : b.SilentExit (s.conn c)) : .stop c ∈ s.posted ∨ (s.conn c).destructor ≠ none := by
    have hstep := SocksConnection.step_cases hx
    obtain ⟨hret, hdtor, hcall⟩ := hstep.of_silentExit hb
    have hann := h c
    rw [ht, Function.update_self] at hann
    rcases hann hret with hp | hd
    · rw [hstep.posted_iff (SocksConnection.framed (ho.reachable c)), hcall] at hp
      exact .inl ((posted_iff hr c).mpr (hp.resolve_right nofun))
    · exact .inr (hdtor ▸ hd)
  cases hs with
  | host hx =>
    intro ec hne hp
    exact announced (ho.host_step hx) rfl ⟨ec, hne, hp⟩
  | remote hx =>
    intro ec hne hp
    exact announced (ho.remote_step hx) rfl ⟨ec, hne, hp⟩
  | server hb hs => cases hs <;> trivial
  | destructor hx => trivial

/-- **Connections that leak**: in a run, every connection whose relay loop returns is going to be
removed exactly when every relay loop that is left by an error other than EOF belongs to a
connection that was announced before. -/
theorem not_leaked_iff (order : ByteOrder) (as : List Action) :
    (∀ t, machine.Visits (initial order) as t → ∀ c, t.NotLeaked c) ↔
      ∀ t a u, machine.Takes (initial order) as t a u → t.ExitsAnnounced a := by
  -- a listed connection that is announced has its handler pending, so `announced` is enough
  have hannounced : (∀ t, machine.Visits (initial order) as t → ∀ c, t.NotLeaked c) ↔
      ∀ t, machine.Visits (initial order) as t →
        ∀ c, (t.conn c).Returned → (t.conn c).Announced := by
    apply forall₂_congr
    intro t ht
    apply forall_congr'
    intro c
    have hr := reachable_of_visits ht
    constructor
    · intro h hret
      exact (h.announced hret).imp_left (posted_iff hr c).mp
    · exact .of_announced hr
  rw [hannounced]
  refine Machine.visits_iff_takes
    (P := fun t : SocksServer => ∀ c, (t.conn c).Returned → (t.conn c).Announced) ?_ ?_ ?_
  · rintro c (⟨p, hp, -⟩ | hfin)
    · cases hp
    · exact hfin.elim
  · intro t a u hT ht hok c
    have hr := reachable_of_visits hT.visits_left
    exact hok.steps hr ht ((ownedBy hr).connSteps (step_cases hT.step_eq).2.2 c)
  · intro t a u hT hu
    exact .of_notLeaked (reachable_of_visits hT.visits_left) (step_cases hT.step_eq).2.2 hu

/-- A run to the relay phase, of a client that sends `stream` after its request and a remote that
sends `incoming`. -/
def relayRun (stream incoming : List UInt8) : List Action :=
  startRun (SocksConnection.sampleHeader ++ 0 :: stream) ++
    [.host 0 (.data SocksConnection.sampleHeader), .host 0 (.data [0]), .host 0 .ok,
      .host 0 (.connected incoming), .host 0 (.wrote 8), .host 0 .ok]

/-- A run in which the client resets its connection: both relay loops are left by an error. -/
def resetRun : List Action :=
  relayRun [] [9] ++ [.host 0 (.error (.system 104)), .host 0 .ok, .remote 0 (.data [9]),
    .remote 0 (.error (.system 32)), .remote 0 .ok]

/-- Both threads have ended, and nothing will remove the connection. -/
theorem leak_resetRun : ¬ ∀ t, machine.Visits (initial .little) resetRun t → ∀ c, t.NotLeaked c :=
  fun h =>
    have hleak := h ((machine.exec (initial .little) resetRun).getD (initial .little))
      ⟨resetRun, List.prefix_rfl, rfl⟩ 0
    absurd (hleak.pending ⟨.returned, rfl, trivial⟩ trivial (.head [])) (by decide)

end SocksServer

end LklSocks
