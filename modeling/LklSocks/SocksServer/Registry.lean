import LklSocks.Machine.Registry
import LklSocks.SocksServer.Ledger

/-!
# The list of the server

`connections` is a registry: the start handler of a connection lists it, a stop handler removes it,
and only the destruction of the server drops what is listed. A stop handler comes after the start
handler because only the threads of the connection post it, and it removes nothing else because
every listed connection is alive and has an address of its own.

## Main definitions

* `SocksServer.Started`: the start handler and the host thread
* `SocksServer.registry`: the registry of a state

## Main results

* `SocksServer.started`: the threads exist from the start handler on
* `SocksServer.simulates_registry`: the program runs as a registry
* `SocksServer.registered`: the registry invariant while the server serves
-/

namespace LklSocks

namespace SocksConnection

variable {c c' : SocksConnection} {a : ConnectionAction}

/-- Only `start` starts the host thread. -/
theorem Steps.idle_iff (hs : c.Steps a c') (ha : a ≠ .start) :
    c'.hostThread = .idle ↔ c.hostThread = .idle := by
  cases hs with
  | start hp hd => exact absurd rfl ha
  | host hu hs =>
    rename_i d
    obtain ⟨_, -, he⟩ := d.releaseHost_eq
    have hover := hs.not_over
    rw [he]
    constructor
    · intro hp
      cases hs with
      | endReply hp' hw hr =>
        rename_i code rest n
        cases code <;> simp [afterReply] at hp
      | _ => simp_all [reply, relayedHost]
    · intro hp
      exact absurd (.inl hp) hover
  | remote hu hq hs =>
    rename_i r
    obtain ⟨_, -, he⟩ := (c.relayedRemote r).releaseRemote_eq
    rw [he]
    rfl
  | destructor hs => cases hs <;> rfl
  | _ => rfl

/-- A thread that calls `stopConnection` was started. -/
theorem Framed.started_of_call {call : StopCall} (hf : c.Framed)
    (hc : c.hostThread.call = some call ∨ c.remoteThread.call = some call) :
    c.hostThread ≠ .idle := by
  intro hp
  rcases hc with hc | hc
  · simp [hp, HostPoint.call] at hc
  · simp only [Framed, hp] at hf
    simp [hf.1, RemotePoint.call] at hc

end SocksConnection

namespace Handler

/-- The connection that a start handler lists. -/
def starts : Handler → Option ℕ
  | start c => some c
  | _ => none

/-- The connection that a stop handler removes. -/
def stops : Handler → Option ℕ
  | stop c => some c
  | _ => none

theorem mem_filterMap_starts {c : ℕ} {handlers : List Handler} :
    c ∈ handlers.filterMap starts ↔ .start c ∈ handlers := by
  rw [List.mem_filterMap]
  constructor
  · rintro ⟨h, hm, hc⟩
    cases h with
    | start d =>
      obtain rfl : d = c := Option.some.inj hc
      exact hm
    | _ => cases hc
  · exact fun hm => ⟨_, hm, rfl⟩

theorem mem_filterMap_stops {c : ℕ} {handlers : List Handler} :
    c ∈ handlers.filterMap stops ↔ .stop c ∈ handlers := by
  rw [List.mem_filterMap]
  constructor
  · rintro ⟨h, hm, hc⟩
    cases h with
    | stop d =>
      obtain rfl : d = c := Option.some.inj hc
      exact hm
    | _ => cases hc
  · exact fun hm => ⟨_, hm, rfl⟩

end Handler

namespace SocksServer

variable {s t : SocksServer} {a : Action} {c : ℕ}

theorem Steps.ran_prefix (hs : s.Steps a t) : s.ran <+: t.ran := by
  cases hs with
  | server hb hs =>
    cases hs with
    | finish hm => simp
    | dropConnection hm hc => simp
    | dropHandler hm hq => simp
    | runAccept hm hq => simp [handleAccept]
    | remove hm => simp [SocksServer.remove]
    | closeAcceptor hm => simp [SocksServer.closeAcceptor]
    | _ => simp
  | _ => simp

/-- The start handler of a connection and its host thread. -/
structure Started (s : SocksServer) (c : ℕ) : Prop where
  ran : (s.conn c).hostThread ≠ .idle → .start c ∈ s.ran
  thread : .start c ∈ s.ran → (s.conn c).hostThread ≠ .idle ∨ s.main = .startThread c
  starting : s.main = .startThread c → .start c ∈ s.ran ∧ (s.conn c).hostThread = .idle
  stop : .stop c ∈ s.posted → .start c ∈ s.ran

/-- Only the main thread in the start handler starts a host thread. -/
theorem ConnSteps.idle_or {x : SocksConnection} (hs : s.ConnSteps c a x)
    (hx : x.hostThread ≠ .idle) :
    (s.conn c).hostThread ≠ .idle ∨ a = .main ∧ s.main = .startThread c := by
  cases hs with
  | same he => exact .inl (he ▸ hx)
  | create hc alloc he => exact absurd (by rw [he]; rfl) hx
  | step b hb he =>
    by_cases hstart : b = .start
    · subst hstart
      cases hb with
      | start hm => exact .inr ⟨rfl, hm⟩
    · exact .inl (((SocksConnection.step_cases he).idle_iff hstart).not.mp hx)

/-- A host thread that was started stays so. -/
theorem OwnedBy.not_idle {x : SocksConnection} (h : s.OwnedBy) (hs : s.ConnSteps c a x)
    (hc : (s.conn c).hostThread ≠ .idle) : x.hostThread ≠ .idle := by
  cases hs with
  | same he => exact he ▸ hc
  | create hn alloc he => exact absurd (h.unused c hn.ge).2.1 hc
  | step b hb he =>
    by_cases hstart : b = .start
    · subst hstart
      cases SocksConnection.step_cases he with
      | start hp hd => exact absurd hp hc
    · exact ((SocksConnection.step_cases he).idle_iff hstart).not.mpr hc

/-- A start handler has just run when the main thread is about to start its thread. -/
theorem ServerSteps.start_ran (hs : s.ServerSteps a t) (hr : .start c ∈ t.ran) :
    .start c ∈ s.ran ∨ t.main = .startThread c ∧ .start c ∈ s.queue := by
  cases hs with
  | runStart hm hq =>
    rename_i d rest
    rcases List.mem_append.mp hr with hr | hr
    · exact .inl hr
    · obtain rfl : c = d := Handler.start.inj (List.mem_singleton.mp hr)
      exact .inr ⟨rfl, by simp [hq]⟩
  | runAccept hm hq => exact .inl (by simpa [handleAccept] using hr)
  | remove hm => exact .inl (by simpa [SocksServer.remove] using hr)
  | finish hm => exact .inl (by simpa using hr)
  | dropConnection hm hc => exact .inl (by simpa using hr)
  | dropHandler hm hq => exact .inl (by simpa using hr)
  | _ => exact .inl hr

/-- The main thread leaves the start handler when the thread is started. -/
theorem ServerSteps.startThread_cases (hs : s.ServerSteps a t) (hm : s.main = .startThread c) :
    t.main = .startThread c ∧ t.conn = s.conn ∨
      (t.conn c).hostThread ≠ .idle ∧ t.main = .finish c := by
  cases hs with
  | startThread hm' hx =>
    rename_i d x
    obtain rfl : c = d := MainPoint.startThread.inj (hm.symm.trans hm')
    refine .inr ⟨?_, rfl⟩
    cases SocksConnection.step_cases hx with
    | start hp hd => simp
  | startTwice hm' hx => exact .inl ⟨hm, rfl⟩
  | startFails hm' => exact .inl ⟨hm, rfl⟩
  | _ hm' => cases hm.symm.trans hm'

/-- The main thread enters the start handler with the handler. -/
theorem ServerSteps.main_startThread (hs : s.ServerSteps a t) (hm : t.main = .startThread c) :
    s.main = .startThread c ∨ .start c ∈ s.queue ∧ .start c ∈ t.ran ∧ t.conn = s.conn := by
  cases hs with
  | runStart hm' hq =>
    rename_i d rest
    obtain rfl : d = c := MainPoint.startThread.inj hm
    exact .inr ⟨by simp [hq], by simp, rfl⟩
  | startTwice hm' hx => exact .inl hm
  | startFails hm' => exact .inl hm
  | _ hm' => simp_all [handleAccept, SocksServer.remove, SocksServer.closeAcceptor]

/-- The main thread posts no stop handler. -/
theorem ServerSteps.stop_posted (hs : s.ServerSteps a t) :
    .stop c ∈ t.posted ↔ .stop c ∈ s.posted := by
  cases hs with
  | runAccept hm hq =>
    rename_i d error rest
    cases error <;> simp [handleAccept]
  | remove hm => simp [SocksServer.remove]
  | closeAcceptor hm => simp [SocksServer.closeAcceptor]
  | finish hm => simp
  | dropConnection hm hc => simp
  | dropHandler hm hq => simp
  | _ => exact Iff.rfl

/-- A stop handler is posted by a thread of its connection, which was started. -/
theorem OwnedBy.stop_posted (h : s.OwnedBy) (hs : s.Steps a t) (hp : .stop c ∈ t.posted) :
    .stop c ∈ s.posted ∨ (s.conn c).hostThread ≠ .idle := by
  have started {d : ℕ} {call : Option StopCall} (hp : .stop c ∈ s.posted ++ posting d call)
      (hcall : (s.conn d).hostThread.call = call ∨ (s.conn d).remoteThread.call = call) :
      .stop c ∈ s.posted ∨ (s.conn c).hostThread ≠ .idle := by
    rcases List.mem_append.mp hp with hp | hp
    · exact .inl hp
    · unfold posting at hp
      split at hp
      · next hc =>
        obtain rfl : c = d := Handler.stop.inj (List.mem_singleton.mp hp)
        rw [hc] at hcall
        exact .inr ((SocksConnection.framed (h.reachable c)).started_of_call hcall)
      · cases hp
  cases hs with
  | server hb hs => exact .inl (hs.stop_posted.mp hp)
  | host hx => exact started hp (.inl rfl)
  | remote hx => exact started hp (.inr rfl)
  | destructor hx => exact .inl hp

theorem Steps.start_ran (hs : s.Steps a t) (hr : .start c ∈ t.ran) :
    .start c ∈ s.ran ∨ t.main = .startThread c := by
  cases hs with
  | server hb hs => exact (hs.start_ran hr).imp_right And.left
  | _ => exact .inl hr

/-- The start handler and the step after it. -/
theorem Steps.startThread_cases (hs : s.Steps a t) (hc : s.ConnSteps c a (t.conn c))
    (hm : s.main = .startThread c) :
    t.main = .startThread c ∧ ((s.conn c).hostThread = .idle → (t.conn c).hostThread = .idle) ∨
      (t.conn c).hostThread ≠ .idle ∧ t.main = .finish c := by
  have idle (ha : a ≠ .main) (hi : (s.conn c).hostThread = .idle) :
      (t.conn c).hostThread = .idle := by
    by_contra hn
    rcases hc.idle_or hn with hn | ⟨ha', -⟩
    · exact hn hi
    · exact ha ha'
  cases hs with
  | server hb hs =>
    rcases hs.startThread_cases hm with ⟨hm', he⟩ | hstarted
    · exact .inl ⟨hm', fun hi => by rwa [he]⟩
    · exact .inr hstarted
  | host hx => exact .inl ⟨hm, idle nofun⟩
  | remote hx => exact .inl ⟨hm, idle nofun⟩
  | destructor hx => exact .inl ⟨hm, idle nofun⟩

theorem Steps.main_startThread (hs : s.Steps a t) (hm : t.main = .startThread c) :
    s.main = .startThread c ∨ .start c ∈ s.queue ∧ .start c ∈ t.ran ∧ t.conn = s.conn := by
  cases hs with
  | server hb hs => exact hs.main_startThread hm
  | _ => exact .inl hm

/-- Every step keeps the invariant of the start handler. -/
theorem Started.steps (h : s.Started c) (ho : s.OwnedBy) (hl : s.Ledger c) (hs : s.Steps a t) :
    t.Started c := by
  have hconn := ho.connSteps hs c
  have hran {x : Handler} (hx : x ∈ s.ran) : x ∈ t.ran := hs.ran_prefix.subset hx
  refine ⟨?_, ?_, ?_, ?_⟩
  · intro hi
    -- a host thread is new only when the main thread is in the start handler
    rcases hconn.idle_or hi with hi | ⟨-, hm⟩
    · exact hran (h.ran hi)
    · exact hran (h.starting hm).1
  · intro hr
    rcases hs.start_ran hr with hr | hm
    · rcases h.thread hr with hi | hm
      · exact .inl (ho.not_idle hconn hi)
      · exact (hs.startThread_cases hconn hm).symm.imp And.left And.left
    · exact .inr hm
  · intro hm
    rcases hs.main_startThread hm with hm' | ⟨hq, hr, he⟩
    · obtain ⟨hr, hi⟩ := h.starting hm'
      refine ⟨hran hr, ?_⟩
      rcases hs.startThread_cases hconn hm' with ⟨-, hidle⟩ | ⟨-, hfinish⟩
      · exact hidle hi
      · cases hm.symm.trans hfinish
    · refine ⟨hr, ?_⟩
      rw [he]
      exact not_not.mp fun hi => hl.start_notMem_ran hq (h.ran hi)
  · intro hp
    rcases ho.stop_posted hs hp with hp | hi
    · exact hran (h.stop hp)
    · exact hran (h.ran hi)

/-- **The start handler comes first** in every reachable state: a connection has a host thread only
after its start handler, and a stop handler is posted only then. -/
theorem started (h : machine.Reachable s) (c : ℕ) : s.Started c := by
  refine h.invariant (P := fun s => s.Started c) ?_ ?_
  · rintro _ ⟨order, rfl⟩
    exact ⟨fun hi => absurd rfl hi, nofun, nofun, nofun⟩
  · intro s a t hr hs ht
    exact hs.steps (ownedBy hr) (ledger hr c) (step_cases ht).2.2

/-! ## The registry -/

/-- The list of the server as a registry, which is closed with the acceptor. -/
def registry (s : SocksServer) : Registry ℕ where
  listed := s.connections
  started := s.ran.filterMap Handler.starts
  stopped := s.ran.filterMap Handler.stops
  closed := s.main.phase = .ending

/-- **`connections.remove` removes one connection**: what is listed besides it has another
address. -/
theorem OwnedBy.remove_connections (h : s.OwnedBy) (hm : s.main = .remove c) :
    (s.remove c).connections = s.connections.filter (· ≠ c) := by
  have hc : c ∈ s.owners := by simp [mem_owners, hm, MainPoint.conn]
  apply List.filter_congr
  intro d hd
  have hsame : (s.conn d).address = (s.conn c).address → d = c :=
    h.eq_of_address (mem_owners.mpr (.inl hd)) hc
  have hiff : (s.conn d).address ≠ (s.conn c).address ↔ d ≠ c :=
    ⟨fun hn he => hn (he ▸ rfl), fun hn he => hn (hsame he)⟩
  exact decide_eq_decide.mpr hiff

/-- **The program runs as a registry.** -/
theorem simulates_registry : Machine.Simulates machine Registry.machine registry where
  init := by
    rintro _ ⟨order, rfl⟩
    exact .of_init rfl
  step s a t hr ht := by
    have hs := (step_cases ht).2.2
    cases hs with
    | server hb hs =>
      cases hs with
      | runStart hm hq =>
        rename_i c rest
        -- the start handler is still queued, so the connection is new to the registry
        refine .inr (.inr ⟨.start c, ?_⟩)
        have hn : c ∉ s.registry.started := fun hc =>
          (ledger hr c).start_notMem_ran (by simp [hq]) (Handler.mem_filterMap_starts.mp hc)
        refine (if_pos ⟨hn, by simp [registry, hm]⟩).trans ?_
        simp [registry, hm, Handler.starts, Handler.stops]
      | remove hm =>
        rename_i c
        -- a stop handler is posted only by a thread, which the start handler has started
        refine .inr (.inr ⟨.stop c, ?_⟩)
        have hposted := (ledger hr c).stop_mem_posted
          (.inr (.inl (by simp [MainPoint.stopping, hm])))
        have hc : c ∈ s.registry.started :=
          Handler.mem_filterMap_starts.mpr ((started hr c).stop hposted)
        refine (if_pos ⟨hc, by simp [registry, hm]⟩).trans ?_
        have hremove := (ownedBy hr).remove_connections hm
        simp only [registry, hremove]
        simp [SocksServer.remove, hm, Handler.starts, Handler.stops]
      | closeAcceptor hm =>
        refine .inr (.inr ⟨.close, ?_⟩)
        simp [registry, Registry.machine, SocksServer.closeAcceptor]
      | dropConnection hm hc =>
        refine .inr (.inr ⟨.drop, (if_pos (by simp [registry, hm])).trans ?_⟩)
        simp [registry, hm, hc]
      | runAccept hm hq =>
        rename_i c error rest
        exact .inl (by simp [registry, hm, handleAccept, Handler.starts, Handler.stops])
      | finish hm => exact .inl (by simp [registry, hm])
      | dropHandler hm hq => exact .inl (by simp [registry, hm])
      | _ => exact .inl (by simp_all [registry])
    | _ => exact .inl rfl

/-- What is listed is started, and not removed unless the server is being destroyed. -/
theorem mem_connections (h : machine.Reachable s) (hm : s.main.phase ≠ .ending) (c : ℕ) :
    c ∈ s.connections ↔ .start c ∈ s.ran ∧ .stop c ∉ s.ran := by
  have hw := Registry.wellFormed (simulates_registry.reachable h)
  rw [← Handler.mem_filterMap_starts, ← Handler.mem_filterMap_stops]
  exact hw.mem_listed (decide_eq_false hm) c

/-- A connection that is listed was not removed, also while the server is being destroyed. -/
theorem stop_notMem_ran (h : machine.Reachable s) (hc : c ∈ s.connections) : .stop c ∉ s.ran := by
  have hw := Registry.wellFormed (simulates_registry.reachable h)
  rw [← Handler.mem_filterMap_stops]
  exact (hw.listed c hc).2

/-- A connection whose stop handler is queued, runs or has run was started. -/
theorem start_mem_ran (h : machine.Reachable s) (c : ℕ)
    (hc : .stop c ∈ s.queue ∨ 0 < s.main.stopping c ∨ .stop c ∈ s.ran) : .start c ∈ s.ran :=
  (started h c).stop ((ledger h c).stop_mem_posted hc)

/-- **The registry invariant** while the server serves: every connection is listed at most once,
exactly those are listed whose start handler has run and whose stop handler has not (by the history,
and by what was posted and is no longer queued or running), a stop handler comes after the start
handler and removes its own connection only, a connection whose accept failed is neither listed nor
started, and there is exactly one accept. -/
theorem registered (h : machine.Reachable s) (hm : s.main.phase = .serving) :
    s.connections.Nodup ∧
    (∀ c, c ∈ s.connections ↔ .start c ∈ s.ran ∧ .stop c ∉ s.ran) ∧
    (∀ c, c ∈ s.connections ↔ s.HasRun (.start c) ∧ ¬ s.HasRun (.stop c)) ∧
    (∀ c, .stop c ∈ s.queue ∨ 0 < s.main.stopping c ∨ .stop c ∈ s.ran → .start c ∈ s.ran) ∧
    (∀ c, .stop c ∈ s.posted → s.HasRun (.start c)) ∧
    (∀ c t, s.main = .remove c → s.step .main = some t →
      t.connections = s.connections.filter (· ≠ c)) ∧
    (∀ c error, .accepted c (some error) ∈ s.queue ∨ .accepted c (some error) ∈ s.ran →
      c ∉ s.connections ∧ .start c ∉ s.posted ∧ (s.conn c).hostThread = .idle) ∧
    s.accepts = 1 := by
  have hopen : s.main.phase ≠ .ending := hm ▸ nofun
  have hstart (c : ℕ) : s.HasRun (.start c) ↔ .start c ∈ s.ran :=
    (ledger h c).hasRun_start_iff (fun hd => by simp [hd] at hm) (fun he => by simp [he] at hm)
  have hstop (c : ℕ) : s.HasRun (.stop c) ↔ .stop c ∈ s.ran :=
    (ledger h c).hasRun_stop_iff (fun hd => by simp [hd] at hm) (fun he => by simp [he] at hm)
  refine ⟨(Registry.wellFormed (simulates_registry.reachable h)).nodup, mem_connections h hopen,
    fun c => ?_, start_mem_ran h, fun c hp => (hstart c).mpr ((started h c).stop hp),
    fun c t hr ht => ?_, fun c error hf => ?_, ?_⟩
  · rw [hstart, hstop]
    exact mem_connections h hopen c
  · cases (step_cases ht).2.2 with
    | server hb hs =>
      cases hs with
      | remove hr' =>
        rename_i d
        obtain rfl : c = d := MainPoint.remove.inj (hr.symm.trans hr')
        exact (ownedBy h).remove_connections hr
      | _ hr' => cases hr.symm.trans hr'
  · have hposted := (ledger h c).start_notMem_posted hf
    have hran : .start c ∉ s.ran := fun hr => hposted ((ledger h c).start_mem_posted hr)
    exact ⟨fun hc => hran ((mem_connections h hopen c).mp hc).1, hposted,
      not_not.mp fun hi => hran ((started h c).ran hi)⟩
  · have hone := acceptsOne h
    rwa [AcceptsOne, hm] at hone

/-- A run that starts one connection, of a client that sends `stream`, and accepts no other. -/
def startRun (stream : List UInt8) : List Action :=
  [.init fun _ => 0, .alloc ⟨0, .zeros, .zeros⟩, .accept none stream, .main,
    .alloc ⟨1, .zeros, .zeros⟩, .main, .main, .main, .main]

/-- The server with one connection. -/
def serving : SocksServer :=
  (machine.exec (initial .little) (startRun [])).getD (initial .little)

theorem reachable_serving : machine.Reachable serving :=
  ⟨initial .little, startRun [], ⟨_, rfl⟩, rfl⟩

/-- A run that starts two connections and removes the first one, whose client ends its stream. -/
def firstEndsRun : List Action :=
  startRun [] ++ [.accept none [], .main, .alloc ⟨2, .zeros, .zeros⟩, .main, .main, .main, .main,
    .host 0 (.error .eof), .host 0 .ok, .host 0 .ok, .host 0 .ok, .main, .main, .main]

theorem registered_firstEndsRun :
    ∃ s, machine.exec (initial .little) firstEndsRun = some s ∧ s.connections = [1] ∧
      .stop 0 ∈ s.ran ∧ ∀ c, c ∈ s.connections ↔ s.HasRun (.start c) ∧ ¬ s.HasRun (.stop c) := by
  obtain ⟨s, hs, hm, hlist, hran⟩ : ∃ s, machine.exec (initial .little) firstEndsRun = some s ∧
      s.main.phase = .serving ∧ s.connections = [1] ∧ .stop 0 ∈ s.ran :=
    ⟨_, rfl, rfl, rfl, by decide⟩
  have hreach : machine.Reachable s := ⟨initial .little, firstEndsRun, ⟨_, rfl⟩, hs⟩
  exact ⟨s, hs, hlist, hran, (registered hreach hm).2.2.1⟩

end SocksServer

end LklSocks
