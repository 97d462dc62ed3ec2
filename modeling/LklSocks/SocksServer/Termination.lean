import LklSocks.SocksConnection.Remaining
import LklSocks.SocksServer.Shutdown
import Mathlib.Algebra.Order.BigOperators.Group.Finset
import Mathlib.Algebra.Order.Monoid.Prod

/-!
# The program comes to its end

In every state the main thread can leave `run`, wait for the destructors that it starts, and return
from `main`. Once a signal has stopped the `io_service`, every run is finite: no connection is
accepted any more, those that exist have finitely much to do, and a run that cannot go on has left
`main` or was terminated. This rests on two properties of the sockets: each peer sends finitely many
bytes, the list that is given when its connection is accepted or connected, and a call that waits
for a peer can fail at any time.

## Main definitions

* `Action.Local`: the steps that need no peer
* `SocksServer.Winds`: the steps that bring the program nearer to its end
* `SocksServer.remaining`: what remains to be done

## Main results

* `SocksServer.Steps.remaining_lt`: such a step makes the measure smaller
* `SocksServer.exists_step`: as long as the program runs there is such a step
* `SocksServer.can_exit`, `SocksServer.shutdown_terminates`: runs to the end
-/

namespace LklSocks

/-- The distance of a program point from the end of `main`. -/
def MainPoint.rank : MainPoint → ℕ
  | exited => 0
  | dropHandlers => 1
  | haltLkl => 2
  | dropConnections => 3
  | closeAcceptor => 4
  | loop => 5
  | finish _ => 6
  | construct => 6
  | remove _ => 7
  | startThread _ => 7
  | rearm _ => 7
  | initLkl => 7
  | sleep _ => 8

namespace SocksServer

variable {s t : SocksServer} {a : Action} {c : ℕ}

/-- The step needs nothing from a peer. -/
def Action.Local : Action → Prop
  | .host _ out => out.Local
  | .remote _ out => out.Local
  | .accept _ _ => False
  | .startFails => False
  | _ => True

/-- The step accepts no connection and runs no handler. -/
def Winds (s : SocksServer) (a : Action) : Prop :=
  s.main = .loop → a ≠ .main ∧ ∀ error stream, a ≠ .accept error stream

/-- The distance from the end of the program. -/
def rank (s : SocksServer) : ℕ := s.main.rank + if s.terminated then 0 else 1

/-- What remains to be done: by the main thread, by the connections, and of the references that the
main thread is going to drop. -/
def remaining (s : SocksServer) : ℕ ×ₗ (ℕ ×ₗ ℕ) ×ₗ ℕ :=
  toLex (s.rank, toLex (∑ c ∈ Finset.range s.next, (s.conn c).remaining,
    s.connections.length + s.queue.length))

/-! ## Every step brings the end nearer -/

theorem remaining_lt_of_rank (h : t.rank < s.rank) : t.remaining < s.remaining :=
  Prod.Lex.toLex_lt_toLex.mpr (.inl h)

theorem remaining_lt_of_main (hm : t.main.rank < s.main.rank) (ht : t.terminated = s.terminated) :
    t.remaining < s.remaining := by
  apply remaining_lt_of_rank
  unfold rank
  rw [ht]
  exact Nat.add_lt_add_right hm _

theorem remaining_lt_of_terminated (hm : t.main = s.main) (hs : s.terminated = false)
    (ht : t.terminated = true) : t.remaining < s.remaining := by
  apply remaining_lt_of_rank
  unfold rank
  rw [hm, hs, ht]
  exact Nat.lt_succ_self _

/-- A step of a connection. -/
theorem remaining_lt_of_conn {x : SocksConnection} (hm : t.main = s.main)
    (hs : s.terminated = false) (hnext : t.next = s.next)
    (hconn : t.conn = Function.update s.conn c x) (hc : c < s.next)
    (hlt : x.remaining < (s.conn c).remaining) : t.remaining < s.remaining := by
  by_cases ht : t.terminated = true
  · exact remaining_lt_of_terminated hm hs ht
  · have hrank : t.rank = s.rank := by
      unfold rank
      rw [hm, hs, Bool.eq_false_of_not_eq_true ht]
    refine Prod.Lex.toLex_lt_toLex.mpr (.inr ⟨hrank, Prod.Lex.toLex_lt_toLex.mpr (.inl ?_)⟩)
    show ∑ d ∈ Finset.range t.next, (t.conn d).remaining <
      ∑ d ∈ Finset.range s.next, (s.conn d).remaining
    rw [hnext, hconn]
    apply Finset.sum_lt_sum
    · intro d hd
      by_cases hdc : d = c
      · rw [hdc, Function.update_self]
        exact hlt.le
      · rw [Function.update_of_ne hdc]
    · refine ⟨c, Finset.mem_range.mpr hc, ?_⟩
      rw [Function.update_self]
      exact hlt

/-- The release of a reference starts a destructor at most. -/
theorem remaining_release_le (m : SocksServer) (c d : ℕ) :
    ((m.release c).conn d).remaining ≤ (m.conn d).remaining := by
  unfold release
  split
  · next hlast =>
    show (Function.update m.conn c _ d).remaining ≤ _
    by_cases hdc : d = c
    · subst hdc
      rw [Function.update_self]
      exact (SocksConnection.remaining_lt_of_destroy .main hlast.2).le
    · rw [Function.update_of_ne hdc]
  · exact le_rfl

theorem release_terminated (m : SocksServer) (c : ℕ) :
    (m.release c).terminated = m.terminated := by
  unfold release
  split <;> rfl

/-- The main thread drops a reference that it has taken from a list. -/
theorem remaining_lt_of_drop {m : SocksServer} (hm : m.main = s.main)
    (ht : m.terminated = s.terminated) (hnext : m.next = s.next) (hconn : m.conn = s.conn)
    (hlt : m.connections.length + m.queue.length < s.connections.length + s.queue.length) :
    (m.release c).remaining < s.remaining := by
  have hrank : (m.release c).rank = s.rank := by
    unfold rank
    rw [release_main, release_terminated, hm, ht]
  refine Prod.Lex.toLex_lt_toLex'.mpr ⟨hrank.le, fun _ => Prod.Lex.toLex_lt_toLex'.mpr
    ⟨?_, fun _ => ?_⟩⟩
  · show ∑ d ∈ Finset.range (m.release c).next, ((m.release c).conn d).remaining ≤
      ∑ d ∈ Finset.range s.next, (s.conn d).remaining
    rw [release_next, hnext, ← hconn]
    exact Finset.sum_le_sum fun d _ => remaining_release_le m c d
  · show (m.release c).connections.length + (m.release c).queue.length < _
    rw [release_connections, release_queue]
    exact hlt

theorem ServerSteps.remaining_lt (hs : s.ServerSteps a t) (hw : s.Winds a)
    (hterm : s.terminated = false) : t.remaining < s.remaining := by
  have hmain {t : SocksServer} {p : MainPoint} (hm : s.main = p) (hlt : t.main.rank < p.rank)
      (ht : t.terminated = s.terminated) : t.remaining < s.remaining :=
    remaining_lt_of_main (hm ▸ hlt) ht
  cases hs with
  | init hm => exact hmain hm (show 6 < 7 by decide) rfl
  | construct hm ha => exact hmain hm (show 5 < 6 by decide) rfl
  | rearm hm ha => exact hmain hm (show 6 < 7 by decide) rfl
  | accepted hm ha hx => exact absurd rfl ((hw hm).2 _ _)
  | refused hm ha => exact absurd rfl ((hw hm).2 _ _)
  | signal hm => exact hmain hm (show 4 < 5 by decide) rfl
  | runAccept hm hq => exact absurd rfl (hw hm).1
  | runStart hm hq => exact absurd rfl (hw hm).1
  | runStop hm hq => exact absurd rfl (hw hm).1
  | startThread hm hx => exact hmain hm (show 6 < 7 by decide) rfl
  | startTwice hm hx => exact remaining_lt_of_terminated rfl hterm rfl
  | startFails hm => exact remaining_lt_of_terminated rfl hterm rfl
  | sleep hm => exact hmain hm (show 7 < 8 by decide) rfl
  | remove hm => exact hmain hm (show 6 < 7 by decide) rfl
  | finish hm =>
    refine hmain hm ?_ (release_terminated _ _)
    rw [release_main]
    exact show 5 < 6 by decide
  | closeAcceptor hm => exact hmain hm (show 3 < 4 by decide) rfl
  | dropConnection hm hc =>
    apply remaining_lt_of_drop (by rfl) (by rfl) (by rfl) (by rfl)
    rw [hc, List.length_cons]
    exact Nat.add_lt_add_right (Nat.lt_succ_self _) _
  | dropped hm hc => exact hmain hm (show 2 < 3 by decide) rfl
  | haltLkl hm => exact hmain hm (show 1 < 2 by decide) rfl
  | dropHandler hm hq =>
    apply remaining_lt_of_drop (by rfl) (by rfl) (by rfl) (by rfl)
    rw [hq, List.length_cons]
    exact Nat.add_lt_add_left (Nat.lt_succ_self _) _
  | exit hm hq => exact hmain hm (show 0 < 1 by decide) rfl

/-- **A step that accepts no connection and runs no handler makes the measure smaller.** -/
theorem Steps.remaining_lt (ho : s.OwnedBy) (hterm : s.terminated = false) (hs : s.Steps a t)
    (hw : s.Winds a) : t.remaining < s.remaining := by
  have hlt {c : ℕ} {b : ConnectionAction} {x : SocksConnection}
      (hx : (s.conn c).step b = some x) (hb : ∀ stream, b ≠ .accept stream) :
      x.remaining < (s.conn c).remaining :=
    (SocksConnection.step_cases hx).remaining_lt (SocksConnection.framed (ho.reachable c)) hb
  cases hs with
  | server hb hs => exact hs.remaining_lt hw hterm
  | host hx =>
    exact remaining_lt_of_conn rfl hterm rfl rfl (ho.lt_of_host hx)
      (hlt (ho.host_step hx) fun stream h => by cases h)
  | remote hx =>
    exact remaining_lt_of_conn rfl hterm rfl rfl (ho.lt_of_remote hx)
      (hlt (ho.remote_step hx) fun stream h => by cases h)
  | @destructor c x hx =>
    have hstep : (s.conn c).step .destructor = some x := hx
    exact remaining_lt_of_conn rfl hterm rfl rfl (ho.lt_of_destroy hx)
      (hlt hstep fun stream h => by cases h)

/-! ## There is such a step -/

/-- The program runs: no exception has left `handshake`, and the destructor that the main thread
waits for is not done. -/
structure Runs (s : SocksServer) : Prop where
  caught : s.terminated = false → ∀ c, (s.conn c).hostThread ≠ .escaped
  destroying : ∀ c ∈ s.destroying, ∃ p, (s.conn c).destructor = some (.main, p) ∧ p ≠ .done

theorem Runs.server (h : s.Runs) (hb : s.destroying = none) (hterm : s.terminated = false)
    (hs : s.ServerSteps a t) : t.Runs := by
  obtain ⟨hcaught, -⟩ := h
  have hnone {t : SocksServer} (hc : ∀ c, (t.conn c).hostThread ≠ .escaped)
      (ht : t.destroying = s.destroying) : t.Runs := by
    refine ⟨fun _ => hc, fun c hc => ?_⟩
    rw [ht, hb] at hc
    cases hc
  have hupdate {x : SocksConnection} {d : ℕ} (hx : x.hostThread ≠ .escaped) (c : ℕ) :
      (Function.update s.conn d x c).hostThread ≠ .escaped := by
    by_cases hcd : c = d
    · rw [hcd, Function.update_self]
      exact hx
    · rw [Function.update_of_ne hcd]
      exact hcaught hterm c
  have hrelease {m : SocksServer} (d : ℕ) (hconn : m.conn = s.conn)
      (hdestroying : m.destroying = none) : (m.release d).Runs := by
    unfold release
    split
    · refine ⟨fun _ => ?_, fun c hc => ?_⟩
      · show ∀ c, (Function.update m.conn d _ c).hostThread ≠ .escaped
        rw [hconn]
        exact hupdate (hcaught hterm d)
      · obtain rfl := Option.some.inj hc
        refine ⟨.closeRemote, ?_, fun h => by cases h⟩
        show (Function.update m.conn d _ d).destructor = _
        rw [Function.update_self]
    · exact hnone (hconn ▸ hcaught hterm) (hdestroying.trans hb.symm)
  cases hs with
  | construct hm ha => exact hnone (hupdate fun h => by cases h) rfl
  | rearm hm ha => exact hnone (hupdate fun h => by cases h) rfl
  | accepted hm ha hx =>
    refine hnone (hupdate fun h => ?_) rfl
    cases SocksConnection.step_cases hx with
    | accept ho hd => exact hcaught hterm _ h
  | startThread hm hx =>
    refine hnone (hupdate fun h => ?_) rfl
    cases SocksConnection.step_cases hx with
    | start hp hd => cases h
  | finish hm => exact hrelease _ rfl hb
  | dropConnection hm hc => exact hrelease _ rfl hb
  | dropHandler hm hq => exact hrelease _ rfl hb
  | _ => exact hnone (hcaught hterm) rfl

/-- A step of a connection keeps that the program runs, unless it terminates it. -/
theorem Runs.update {b : ConnectionAction} {x : SocksConnection} (h : s.Runs) (ho : s.OwnedBy)
    (hx : (s.conn c).step b = some x) (hb : b ≠ .destructor) (hterm : s.terminated = false)
    (hconn : t.conn = Function.update s.conn c x) (hdestroying : t.destroying = s.destroying)
    (hcaught : t.terminated = false → x.hostThread ≠ .escaped) : t.Runs where
  caught ht d := by
    rw [hconn]
    by_cases hdc : d = c
    · rw [hdc, Function.update_self]
      exact hcaught ht
    · rw [Function.update_of_ne hdc]
      exact h.caught hterm d
  destroying d hd := by
    obtain ⟨p, hp, hne⟩ := h.destroying d (hdestroying ▸ hd)
    refine ⟨p, ?_, hne⟩
    rw [hconn]
    by_cases hdc : d = c
    · subst hdc
      have hf := SocksConnection.framed (ho.reachable d)
      have hsome : (s.conn d).destructor ≠ none := by
        rw [hp]
        exact Option.some_ne_none _
      rw [Function.update_self]
      exact (((SocksConnection.step_cases hx).destructor_eq hf hsome).resolve_left hb).trans hp
    · rw [Function.update_of_ne hdc]
      exact hp

theorem Runs.steps (h : s.Runs) (ho : s.OwnedBy) (hterm : s.terminated = false)
    (hs : s.Steps a t) : t.Runs := by
  cases hs with
  | server hb hs => exact h.server hb hterm hs
  | host hx =>
    exact h.update ho (ho.host_step hx) (fun hb => by cases hb) hterm rfl rfl of_decide_eq_false
  | @remote c out x hx =>
    refine h.update ho (ho.remote_step hx) (fun hb => by cases hb) hterm rfl rfl fun _ he => ?_
    rcases (SocksConnection.step_cases (ho.remote_step hx)).escaped he with he | ⟨_, _, hb, -⟩
    · exact h.caught hterm c he
    · cases hb
  | @destructor c x hx =>
    obtain ⟨runner, hs⟩ := SocksConnection.destroyStep_cases hx
    constructor
    · intro _ d
      show (Function.update s.conn c x d).hostThread ≠ .escaped
      by_cases hdc : d = c
      · rw [hdc, Function.update_self, hs.threads.1]
        exact h.caught hterm c
      · rw [Function.update_of_ne hdc]
        exact h.caught hterm d
    · intro d hd
      show ∃ p, (Function.update s.conn c x d).destructor = _ ∧ _
      by_cases hdone : x.destructor = some (.main, .done)
      · rw [if_pos hdone] at hd
        cases hd
      · rw [if_neg hdone] at hd
        obtain ⟨p, hp, hne⟩ := h.destroying d hd
        by_cases hdc : d = c
        · subst hdc
          obtain ⟨q, hq⟩ := hs.runner hp
          rw [Function.update_self]
          refine ⟨q, hq, ?_⟩
          rintro rfl
          exact hdone hq
        · rw [Function.update_of_ne hdc]
          exact ⟨p, hp, hne⟩

theorem runs (h : machine.Reachable s) : s.Runs := by
  refine h.invariant (P := Runs) ?_ ?_
  · rintro _ ⟨order, rfl⟩
    constructor
    · intro _ c h
      cases h
    · intro c hc
      cases hc
  · intro s a t hr ih ht
    obtain ⟨hterm, -, hs⟩ := step_cases ht
    exact ih.steps (ownedBy hr) hterm hs

/-- There is always an address that no connection has. -/
theorem exists_fresh (s : SocksServer) :
    ∃ a : Allocation, ∀ c < s.next, (s.conn c).address = a.address → (s.conn c).Freed := by
  refine ⟨⟨∑ c ∈ Finset.range s.next, (s.conn c).address + 1, .zeros, .zeros⟩, fun c hc he => ?_⟩
  have hle : (s.conn c).address ≤ ∑ c ∈ Finset.range s.next, (s.conn c).address :=
    Finset.single_le_sum (f := fun c => (s.conn c).address) (fun _ _ => Nat.zero_le _)
      (Finset.mem_range.mpr hc)
  dsimp only at he
  omega

/-- A step of the main thread that needs no choice, unless the loop waits. -/
theorem exists_mainStep (hr : ∀ c, s.main ≠ .rearm c) (hi : s.main ≠ .initLkl)
    (hc : s.main ≠ .construct) (hl : s.main ≠ .loop) (he : s.main ≠ .exited) :
    ∃ t, s.mainStep = some t := by
  unfold mainStep
  cases hm : s.main with
  | initLkl => exact absurd hm hi
  | construct => exact absurd hm hc
  | loop => exact absurd hm hl
  | rearm c => exact absurd hm (hr c)
  | exited => exact absurd hm he
  | dropConnections =>
    cases s.connections with
    | nil => exact ⟨_, rfl⟩
    | cons c rest => exact ⟨_, rfl⟩
  | dropHandlers =>
    cases s.queue with
    | nil => exact ⟨_, rfl⟩
    | cons h rest => exact ⟨_, rfl⟩
  | _ => exact ⟨_, rfl⟩

/-- The main thread has a step that brings the end nearer, unless it is in a destructor. -/
theorem exists_serverStep (hm : s.main ≠ .exited) :
    ∃ a t, a.Local ∧ s.Winds a ∧ s.serverStep a = some t := by
  obtain ⟨alloc, hfresh⟩ := s.exists_fresh
  have halloc (p : MainPoint) : ∃ t, s.startAccept alloc p = some t := ⟨_, if_pos hfresh⟩
  by_cases hl : s.main = .loop
  · refine ⟨.signal, _, trivial, fun _ => ⟨fun h => ?_, fun e stream h => ?_⟩, if_pos hl⟩
    · cases h
    · cases h
  have hwinds (a : Action) : s.Winds a := fun h => absurd h hl
  by_cases hi : s.main = .initLkl
  · exact ⟨.init fun _ => 0, _, trivial, hwinds _, if_pos hi⟩
  by_cases hc : s.main = .construct
  · obtain ⟨t, ht⟩ := halloc .loop
    refine ⟨.alloc alloc, t, trivial, hwinds _, ?_⟩
    simp only [serverStep, hc]
    exact ht
  by_cases hr : ∃ c, s.main = .rearm c
  · obtain ⟨c, hr⟩ := hr
    obtain ⟨t, ht⟩ := halloc (.finish c)
    refine ⟨.alloc alloc, t, trivial, hwinds _, ?_⟩
    simp only [serverStep, hr]
    exact ht
  · obtain ⟨t, ht⟩ := exists_mainStep (fun c h => hr ⟨c, h⟩) hi hc hl hm
    exact ⟨.main, t, trivial, hwinds _, ht⟩

theorem step_destructor {x : SocksConnection} (ht : s.terminated = false) (he : s.main ≠ .exited)
    (hx : (s.conn c).destroyStep = some x) :
    machine.step s (.destructor c) = some
      { s.setConn c x with
        destroying := if x.destructor = some (.main, .done) then none else s.destroying
        terminated := x.destructor.map Prod.snd = some .aborted } := by
  apply (if_neg (by simp [ht, he])).trans
  show s.destroyStep c = _
  rw [destroyStep, hx]
  rfl

/-- **As long as the program runs there is a step that brings its end nearer**: a step of the main
thread, or of the connection whose destructor it waits for, where a call that waits for a peer
fails. -/
theorem exists_step (h : machine.Reachable s) (hterm : s.terminated = false)
    (hm : s.main ≠ .exited) : ∃ a t, a.Local ∧ s.Winds a ∧ machine.step s a = some t := by
  have ho := ownedBy h
  have hruns := runs h
  have hnot : ¬ (s.terminated = true ∨ s.main = .exited) := by
    rintro (ht | he)
    · cases ht.symm.trans hterm
    · exact hm he
  cases hb : s.destroying with
  | none =>
    obtain ⟨a, t, hlocal, hwinds, hs⟩ := exists_serverStep hm
    refine ⟨a, t, hlocal, hwinds, (if_neg hnot).trans ?_⟩
    cases a with
    | host c out => cases hs
    | remote c out => cases hs
    | destructor c => cases hs
    | _ => exact (if_pos hb).trans hs
  | some c =>
    obtain ⟨p, hp, hne⟩ := hruns.destroying c hb
    have hreach := ho.reachable c
    have hclosing := SocksConnection.closing hreach
    have hsome : (s.conn c).destructor ≠ none := by
      rw [hp]
      exact Option.some_ne_none _
    have hcreated : c < s.next := by
      by_contra hge
      exact hsome (ho.unused c (not_lt.mp hge)).2.2.2
    have huse := (ho.useCount_eq hcreated).resolve_left hsome
    have habort : p ≠ .aborted := by
      rintro rfl
      simp only [SocksConnection.Closing, hp] at hclosing
      exact hclosing.2.2
    obtain ⟨b, x, hlocal, hx⟩ := SocksConnection.exists_step (SocksConnection.runs hreach) hp hne
      habort (hruns.caught hterm c)
    have hwinds {a : Action} (ha : a ≠ .main) (ha' : ∀ e stream, a ≠ .accept e stream) :
        s.Winds a := fun _ => ⟨ha, ha'⟩
    cases b with
    | host n out =>
      obtain ⟨hn, hx⟩ := Option.ite_none_right_eq_some.mp hx
      obtain rfl := hn.resolve_left hsome
      exact ⟨.host c out, _, hlocal, hwinds (fun h => by cases h) (fun _ _ h => by cases h),
        step_host hterm hm (huse ▸ hx)⟩
    | remote n out =>
      obtain ⟨hn, hx⟩ := Option.ite_none_right_eq_some.mp hx
      obtain rfl := hn.resolve_left hsome
      exact ⟨.remote c out, _, hlocal, hwinds (fun h => by cases h) (fun _ _ h => by cases h),
        step_remote hterm hm (huse ▸ hx)⟩
    | destructor =>
      exact ⟨.destructor c, _, trivial, hwinds (fun h => by cases h) (fun _ _ h => by cases h),
        step_destructor hterm hm hx⟩
    | accept stream => exact hlocal.elim
    | start => exact hlocal.elim
    | destroy => exact hlocal.elim

/-- **The program can always come to its end**: from every reachable state there is a run without a
new client, and without data of a client or a remote, after which `main` has returned or the program
was terminated. A call that waits on an open socket can fail in it at any time. -/
theorem can_exit (h : machine.Reachable s) :
    ∃ as t, machine.exec s as = some t ∧ (t.main = .exited ∨ t.terminated = true) ∧
      ∀ a ∈ as, a.Local := by
  refine machine.exists_exec_of_decreases (P := machine.Reachable) (μ := remaining) ?_ h
  intro s hs hend
  obtain ⟨hm, hterm⟩ := not_or.mp hend
  obtain ⟨a, t, hlocal, hwinds, hstep⟩ :=
    exists_step hs (Bool.eq_false_of_not_eq_true hterm) hm
  obtain ⟨hterm, -, hsteps⟩ := step_cases hstep
  exact ⟨a, t, hlocal, hstep, hs.step hstep, hsteps.remaining_lt (ownedBy hs) hterm hwinds⟩

/-- The server when the loops of its first connection relay. -/
def relaying : SocksServer := (machine.exec (initial .little) (relayRun [] [9])).getD
  (initial .little)

theorem can_exit_relaying :
    ∃ as t, machine.exec relaying as = some t ∧ (t.main = .exited ∨ t.terminated = true) ∧
      ∀ a ∈ as, a.Local :=
  can_exit ⟨_, relayRun [] [9], ⟨.little, rfl⟩, rfl⟩

/-- The `io_service` was stopped. -/
def Stopped (s : SocksServer) : Prop := s.main = .closeAcceptor ∨ s.main.phase = .ending

theorem Stopped.ne_loop (h : s.Stopped) : s.main ≠ .loop := by
  intro hl
  rcases h with h | h
  · cases hl.symm.trans h
  · rw [hl] at h
    cases h

theorem Stopped.steps (h : s.Stopped) (hs : s.Steps a t) : t.Stopped := by
  cases hs with
  | server hb hs =>
    have hmain {p : MainPoint} (hm : s.main = p) (hp : p ≠ .closeAcceptor)
        (hp' : p.phase ≠ .ending) : t.Stopped := by
      rcases h with h | h
      · exact absurd (hm.symm.trans h) hp
      · exact absurd (hm ▸ h) hp'
    cases hs with
    | closeAcceptor hm => exact .inr rfl
    | dropConnection hm hc => exact .inr (by rw [release_main]; exact hm ▸ rfl)
    | dropped hm hc => exact .inr rfl
    | haltLkl hm => exact .inr rfl
    | dropHandler hm hq => exact .inr (by rw [release_main]; exact hm ▸ rfl)
    | exit hm hq => exact .inr rfl
    | _ hm => exact hmain hm (fun h => by cases h) (fun h => by cases h)
  | host hx => exact h
  | remote hx => exact h
  | destructor hx => exact h

/-- **The shutdown terminates**, if every peer sends finitely many bytes: the stream of a socket is
a finite list, which is fixed when it is accepted or connected. Once a signal has stopped the
`io_service`, no run of the program is infinite, and a run that cannot go on has returned from
`main` or was terminated, where a call that waits for a peer can fail at any time. -/
theorem shutdown_terminates (h : machine.Reachable s) (hs : s.Stopped) :
    ¬ machine.Infinite s ∧
    ∀ as t, machine.exec s as = some t → machine.Stuck t →
      t.main = .exited ∨ t.terminated = true := by
  constructor
  · apply machine.not_infinite (P := fun s => machine.Reachable s ∧ s.Stopped) (μ := remaining) ?_
      ⟨h, hs⟩
    rintro s a t ⟨hr, hstopped⟩ hstep
    obtain ⟨hterm, -, hsteps⟩ := step_cases hstep
    exact ⟨⟨hr.step hstep, hstopped.steps hsteps⟩,
      hsteps.remaining_lt (ownedBy hr) hterm fun hl => absurd hl hstopped.ne_loop⟩
  · intro as t he hstuck
    by_contra hend
    obtain ⟨hm, hterm⟩ := not_or.mp hend
    obtain ⟨a, u, -, -, hstep⟩ :=
      exists_step (h.exec he) (Bool.eq_false_of_not_eq_true hterm) hm
    cases (hstuck a).symm.trans hstep

/-- A signal comes while the first connection relays. -/
def stoppedRun : List Action := relayRun [] [9] ++ [.signal]

/-- The server after the signal. -/
def stopped : SocksServer := (machine.exec (initial .little) stoppedRun).getD (initial .little)

theorem shutdown_terminates_stopped : ¬ machine.Infinite stopped ∧
    ∀ as t, machine.exec stopped as = some t → machine.Stuck t →
      t.main = .exited ∨ t.terminated = true :=
  shutdown_terminates ⟨_, stoppedRun, ⟨.little, rfl⟩, rfl⟩ (.inl rfl)

end SocksServer

end LklSocks
