import LklSocks.SocksServer.Registry

/-!
# When a host thread cannot be created

The start handler lists its connection before `start` creates the host thread, and nothing catches
what `std::thread` throws: the exception leaves `run` and `main`. The program ends with a listed
connection that has no thread. `handshake` creates the remote thread inside its `try`, where a
failure stops that connection only.

## Main definitions

* `SocksServer.Starting`: a start handler that is about to create the host thread
* `SocksServer.StartFailure`: a start handler whose thread cannot be created
* `SocksServer.Isolated`: what the failure must leave alone

## Main results

* `SocksServer.exists_starting`: the start handler before a creation
* `SocksServer.start_isolated_iff`: no failure is isolated
-/

namespace LklSocks

namespace SocksServer

variable {s t : SocksServer} {a : Action} {c : ℕ}

/-- The step is one of a thread of a connection, or of a destructor. -/
def Action.OfThread : Action → Prop
  | .host _ _ => True
  | .remote _ _ => True
  | .destructor _ => True
  | _ => False

theorem Steps.of_ofThread (hs : s.Steps a t) (ha : a.OfThread) :
    t.main = s.main ∧ t.connections = s.connections := by
  cases hs with
  | server hb hs => cases hs <;> exact ha.elim
  | host hx => exact ⟨rfl, rfl⟩
  | remote hx => exact ⟨rfl, rfl⟩
  | destructor hx => exact ⟨rfl, rfl⟩

/-! ## The start handler -/

/-- In the run of `as` from `o`, `run` takes the start handler of `c` in the state `r`. Since then
only the threads of the connections have made steps, and the handler is about to create the host
thread in the state `s`. -/
def Starting (o : SocksServer) (as : List Action) (c : ℕ) (r s : SocksServer) : Prop :=
  ∃ pre mid, as = pre ++ .main :: mid ∧ (∀ b ∈ mid, b.OfThread) ∧
    machine.exec o pre = some r ∧ (r.main = .loop ∧ r.queue.head? = some (.start c)) ∧
    machine.exec r (.main :: mid) = some s

/-- The handler has listed the connection, and nothing else. -/
theorem Starting.listed {o r : SocksServer} {as : List Action} (h : Starting o as c r s) :
    s.main = .startThread c ∧ s.connections = r.connections ++ [c] := by
  obtain ⟨pre, mid, -, hmid, -, ⟨hm, hq⟩, hs⟩ := h
  obtain ⟨m, hfirst, hs⟩ := Option.bind_eq_some_iff.mp hs
  have hfirst' : r.step .main = some m := hfirst
  have hlisted : m.main = .startThread c ∧ m.connections = r.connections ++ [c] := by
    cases (step_cases hfirst').2.2 with
    | server hb hsteps =>
      cases hsteps with
      | runStart hm' hq' =>
        rw [hq'] at hq
        obtain rfl := Handler.start.inj (Option.some.inj hq)
        exact ⟨rfl, rfl⟩
      | runAccept hm' hq' => simp [hq'] at hq
      | runStop hm' hq' => simp [hq'] at hq
      | _ hm' => cases hm.symm.trans hm'
  refine machine.exec_induction (s := m) (P := fun bs t => (∀ b ∈ bs, b.OfThread) →
    t.main = .startThread c ∧ t.connections = r.connections ++ [c]) (fun _ => hlisted) ?_ hs hmid
  intro bs t a u _ ih ha hbs
  obtain ⟨hmain, hconn⟩ := ih fun b hb => hbs b (List.mem_append_left _ hb)
  obtain ⟨hmain', hconn'⟩ := (step_cases ha).2.2.of_ofThread (hbs a (by simp))
  exact ⟨hmain'.trans hmain, hconn'.trans hconn⟩

/-- Before a host thread is created, `run` has taken the start handler of its connection. -/
theorem exists_starting {o : SocksServer} {as : List Action} (ho : machine.init o)
    (hs : machine.exec o as = some s) (hterm : s.terminated = false)
    (hm : s.main = .startThread c) : ∃ r, Starting o as c r s := by
  refine machine.exec_induction (P := fun as s => s.terminated = false → s.main = .startThread c →
    ∃ r, Starting o as c r s) ?_ ?_ hs hterm hm
  · obtain ⟨order, rfl⟩ := ho
    nofun
  · intro as s a t he ih ha hterm hm
    have continues (hthread : a.OfThread) (hmain : t.main = s.main) :
        ∃ r, Starting o (as ++ [a]) c r t := by
      obtain ⟨r, pre, mid, rfl, hmid, hpre, htaken, hr⟩ := ih (step_cases ha).1 (hmain ▸ hm)
      refine ⟨r, pre, mid ++ [a], by simp, ?_, hpre, htaken, ?_⟩
      · intro b hb
        rcases List.mem_append.mp hb with hb | hb
        · exact hmid b hb
        · obtain rfl := List.mem_singleton.mp hb
          exact hthread
      · rw [← List.cons_append]
        exact machine.exec_snoc_iff.mpr ⟨s, hr, ha⟩
    have hsteps := (step_cases ha).2.2
    cases hsteps with
    | server hb hsteps =>
      cases hsteps with
      | runStart hm' hq =>
        obtain rfl := MainPoint.startThread.inj hm
        refine ⟨s, as, [], rfl, nofun, he, ⟨hm', by rw [hq]; rfl⟩, ?_⟩
        rw [Machine.exec_cons, ha]
        rfl
      | startTwice hm' hx => cases hterm
      | startFails hm' => cases hterm
      | _ hm' => simp_all [handleAccept, SocksServer.remove, SocksServer.closeAcceptor]
    | host hx => exact continues trivial rfl
    | remote hx => exact continues trivial rfl
    | destructor hx => exact continues trivial rfl

/-! ## The failure -/

/-- In the run of `as` from `o`, the start handler of `c`, which `run` takes in `r`, cannot create
the host thread in `s`, and this leads to `t`. -/
def StartFailure (o : SocksServer) (as : List Action) (c : ℕ) (r s t : SocksServer) : Prop :=
  ∃ bs, bs ++ [.startFails] <+: as ∧ Starting o bs c r s ∧ machine.step s .startFails = some t

/-- **Isolation** of the failure: the list is as it was before the handler, the failure changes no
other connection, no exception leaves `run`, an accept is outstanding, and every listed connection
has a thread. -/
structure Isolated (c : ℕ) (r s t : SocksServer) : Prop where
  connections : t.connections = r.connections
  others : ∀ d ≠ c, t.conn d = s.conn d
  running : t.terminated = false
  accepting : t.accepts = 1
  threads : ∀ d ∈ t.connections, (t.conn d).hostThread ≠ .idle

/-- What a failure does: the connection stays listed without a thread, and the program ends. -/
structure Fatal (c : ℕ) (r t : SocksServer) : Prop where
  connections : t.connections = r.connections ++ [c]
  threadless : (t.conn c).hostThread = .idle
  terminated : t.terminated = true
  ended : ∀ a, machine.step t a = none

theorem Steps.of_startFails (hs : s.Steps .startFails t) : t = { s with terminated := true } := by
  cases hs with
  | server hb hs =>
    cases hs with
    | startFails hm => rfl

theorem StartFailure.fatal {o r : SocksServer} {as : List Action} (ho : machine.init o)
    (h : StartFailure o as c r s t) : Fatal c r t := by
  obtain ⟨bs, -, hstarting, ht⟩ := h
  obtain ⟨hm, hconn⟩ := hstarting.listed
  obtain ⟨pre, mid, rfl, -, hpre, -, hs⟩ := hstarting
  have hr : machine.Reachable s := ((Machine.Reachable.of_init ho).exec hpre).exec hs
  have ht' : s.step .startFails = some t := ht
  obtain rfl := (step_cases ht').2.2.of_startFails
  refine ⟨hconn, ((started hr c).starting hm).2, rfl, fun a => ?_⟩
  show step { s with terminated := true } a = none
  exact if_pos (Or.inl rfl)

theorem Fatal.not_isolated {r : SocksServer} (h : Fatal c r t) : ¬ Isolated c r s t := by
  intro hi
  have hterm := h.terminated
  rw [hi.running] at hterm
  cases hterm

/-- **No failure is isolated.** In every run, the failures of start handlers are isolated if and
only if there are none: each of them leaves its connection listed without a thread, and ends the
program. -/
theorem start_isolated_iff (order : ByteOrder) (as : List Action) :
    ((∀ c r s t, StartFailure (initial order) as c r s t → Isolated c r s t) ↔
      ∀ s a t, machine.Takes (initial order) as s a t → a ≠ .startFails) ∧
    ∀ c r s t, StartFailure (initial order) as c r s t → Fatal c r t := by
  have ho : machine.init (initial order) := ⟨order, rfl⟩
  refine ⟨⟨?_, ?_⟩, fun c r s t h => h.fatal ho⟩
  · rintro h s a t ⟨bs, hbs, hs, ht⟩ rfl
    have ht' : s.step .startFails = some t := ht
    obtain ⟨hterm, -, hsteps⟩ := step_cases ht'
    obtain ⟨c, hm⟩ : ∃ c, s.main = .startThread c := by
      cases hsteps with
      | server hb hsteps =>
        cases hsteps with
        | startFails hm => exact ⟨_, hm⟩
    obtain ⟨r, hstarting⟩ := exists_starting ho hs hterm hm
    have hfailure : StartFailure (initial order) as c r s t := ⟨bs, hbs, hstarting, ht⟩
    exact (hfailure.fatal ho).not_isolated (h c r s t hfailure)
  · rintro h c r s t ⟨bs, hbs, ⟨pre, mid, rfl, -, hpre, -, hs⟩, ht⟩
    refine absurd rfl (h s .startFails t ⟨_, hbs, ?_, ht⟩)
    rw [Machine.exec_append, hpre]
    exact hs

/-- A run with one connection, up to the start handler of a second one. -/
def secondRun : List Action :=
  startRun [] ++ [.accept none [], .main, .alloc ⟨2, .zeros, .zeros⟩, .main]

/-- The thread of the second connection cannot be created. -/
def startFailsRun : List Action := secondRun ++ [.main, .startFails]

theorem not_isolated_startFailsRun :
    ¬ ∀ c r s t, StartFailure (initial .little) startFailsRun c r s t → Isolated c r s t := by
  intro h
  have hstarting : Starting (initial .little) (secondRun ++ [.main]) 1 _ _ :=
    ⟨secondRun, [], rfl, nofun, rfl, ⟨rfl, rfl⟩, rfl⟩
  have hisolated := h 1 _ _ _ ⟨_, List.prefix_rfl, hstarting, rfl⟩
  exact absurd hisolated.running nofun

end SocksServer

end LklSocks
