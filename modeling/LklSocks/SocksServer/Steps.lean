import LklSocks.SocksServer.Basic

/-!
# The steps of the server

The step function is inverted once, and the rules are grouped by what they do to the strong
references: they move references, create a connection, or release a reference.

## Main definitions

* `SocksServer.ServerSteps`: the steps of the main thread, one rule for each branch
* `SocksServer.Steps`: the steps of the program

## Main results

* `SocksServer.step_cases`: inversion
-/

namespace LklSocks

namespace SocksServer

/-- The steps of the main thread, one rule for each branch. -/
inductive ServerSteps (s : SocksServer) : Action → SocksServer → Prop
  | init {ret : InitStep → ℤ} (hm : s.main = .initLkl) :
      ServerSteps s (.init ret) { s with kernel := initLkl ret, main := .construct }
  | construct {a : Allocation} (hm : s.main = .construct)
      (ha : ∀ c < s.next, (s.conn c).address = a.address → (s.conn c).Freed) :
      ServerSteps s (.alloc a)
        { s.setConn s.next (.create s.order a) with
          accepting := some s.next, next := s.next + 1, main := .loop }
  | rearm {c : ℕ} {a : Allocation} (hm : s.main = .rearm c)
      (ha : ∀ c < s.next, (s.conn c).address = a.address → (s.conn c).Freed) :
      ServerSteps s (.alloc a)
        { s.setConn s.next (.create s.order a) with
          accepting := some s.next, next := s.next + 1, main := .finish c }
  | accepted {c : ℕ} {stream : List UInt8} {x : SocksConnection} (hm : s.main = .loop)
      (ha : s.accepting = some c) (hx : (s.conn c).step (.accept stream) = some x) :
      ServerSteps s (.accept none stream)
        ({ s with queue := s.queue ++ [Handler.accepted c none], accepting := none }.setConn c x)
  | refused {c error : ℕ} {stream : List UInt8} (hm : s.main = .loop)
      (ha : s.accepting = some c) :
      ServerSteps s (.accept (some error) stream)
        { s with queue := s.queue ++ [.accepted c (some error)], accepting := none }
  | signal (hm : s.main = .loop) : ServerSteps s .signal { s with main := .closeAcceptor }
  | runAccept {c : ℕ} {error : Option ℕ} {rest : List Handler} (hm : s.main = .loop)
      (hq : s.queue = .accepted c error :: rest) :
      ServerSteps s .main ({ s with queue := rest }.handleAccept c error)
  | runStart {c : ℕ} {rest : List Handler} (hm : s.main = .loop)
      (hq : s.queue = .start c :: rest) :
      ServerSteps s .main
        { s with
          queue := rest, connections := s.connections ++ [c], main := .startThread c
          ran := s.ran ++ [.start c] }
  | runStop {c : ℕ} {rest : List Handler} (hm : s.main = .loop)
      (hq : s.queue = .stop c :: rest) :
      ServerSteps s .main { s with queue := rest, main := .sleep c }
  | startThread {c : ℕ} {x : SocksConnection} (hm : s.main = .startThread c)
      (hx : (s.conn c).step .start = some x) :
      ServerSteps s .main { s.setConn c x with main := .finish c }
  | startTwice {c : ℕ} (hm : s.main = .startThread c) (hx : (s.conn c).step .start = none) :
      ServerSteps s .main { s with terminated := true }
  | startFails {c : ℕ} (hm : s.main = .startThread c) :
      ServerSteps s .startFails { s with terminated := true }
  | sleep {c : ℕ} (hm : s.main = .sleep c) : ServerSteps s .main { s with main := .remove c }
  | remove {c : ℕ} (hm : s.main = .remove c) : ServerSteps s .main (s.remove c)
  | finish {c : ℕ} (hm : s.main = .finish c) :
      ServerSteps s .main ({ s with main := .loop }.release c)
  | closeAcceptor (hm : s.main = .closeAcceptor) : ServerSteps s .main s.closeAcceptor
  | dropConnection {c : ℕ} {rest : List ℕ} (hm : s.main = .dropConnections)
      (hc : s.connections = c :: rest) :
      ServerSteps s .main ({ s with connections := rest }.release c)
  | dropped (hm : s.main = .dropConnections) (hc : s.connections = []) :
      ServerSteps s .main { s with main := .haltLkl }
  | haltLkl (hm : s.main = .haltLkl) :
      ServerSteps s .main { s with kernel.halted := true, main := .dropHandlers }
  | dropHandler {h : Handler} {rest : List Handler} (hm : s.main = .dropHandlers)
      (hq : s.queue = h :: rest) :
      ServerSteps s .main ({ s with queue := rest }.release h.conn)
  | exit (hm : s.main = .dropHandlers) (hq : s.queue = []) :
      ServerSteps s .main { s with main := .exited }

/-- The steps of the program. -/
inductive Steps (s : SocksServer) : Action → SocksServer → Prop
  | server {a : Action} {t : SocksServer} (hb : s.destroying = none) (hs : s.ServerSteps a t) :
      Steps s a t
  | host {c : ℕ} {out : Outcome} {x : SocksConnection}
      (hx : (s.conn c).hostStep (s.useCount c) out = some x) :
      Steps s (.host c out)
        { (s.setConn c x).post (posting c (s.conn c).hostThread.call) with
          terminated := x.hostThread = .escaped }
  | remote {c : ℕ} {out : Outcome} {x : SocksConnection}
      (hx : (s.conn c).remoteStep (s.useCount c) out = some x) :
      Steps s (.remote c out) ((s.setConn c x).post (posting c (s.conn c).remoteThread.call))
  | destructor {c : ℕ} {x : SocksConnection} (hx : (s.conn c).destroyStep = some x) :
      Steps s (.destructor c)
        { s.setConn c x with
          destroying := if x.destructor = some (.main, .done) then none else s.destroying
          terminated := x.destructor.map Prod.snd = some .aborted }

variable {s t : SocksServer} {a : Action}

theorem mainStep_cases (h : s.mainStep = some t) : s.ServerSteps .main t := by
  unfold mainStep at h
  split at h
  · next hm =>
    unfold runHandler at h
    split at h
    · cases h
    · next hq =>
      obtain rfl := Option.some.inj h
      exact .runAccept hm hq
    · next hq =>
      obtain rfl := Option.some.inj h
      exact .runStart hm hq
    · next hq =>
      obtain rfl := Option.some.inj h
      exact .runStop hm hq
  · next c hm =>
    obtain rfl := Option.some.inj h
    unfold SocksServer.startThread
    split
    · next hx => exact .startThread hm hx
    · next hx => exact .startTwice hm hx
  · next hm =>
    obtain rfl := Option.some.inj h
    exact .sleep hm
  · next hm =>
    obtain rfl := Option.some.inj h
    exact .remove hm
  · next hm =>
    obtain rfl := Option.some.inj h
    exact .finish hm
  · next hm =>
    obtain rfl := Option.some.inj h
    exact .closeAcceptor hm
  · next hm =>
    split at h
    · next hc =>
      obtain rfl := Option.some.inj h
      exact .dropped hm hc
    · next hc =>
      obtain rfl := Option.some.inj h
      exact .dropConnection hm hc
  · next hm =>
    obtain rfl := Option.some.inj h
    exact .haltLkl hm
  · next hm =>
    split at h
    · next hq =>
      obtain rfl := Option.some.inj h
      exact .exit hm hq
    · next hq =>
      obtain rfl := Option.some.inj h
      exact .dropHandler hm hq
  · cases h

theorem serverStep_cases (h : s.serverStep a = some t) : s.ServerSteps a t := by
  cases a with
  | init ret =>
    obtain ⟨hm, he⟩ := Option.ite_none_right_eq_some.mp h
    obtain rfl := Option.some.inj he
    exact .init hm
  | alloc a =>
    simp only [serverStep] at h
    split at h
    · next hm =>
      obtain ⟨ha, he⟩ := Option.ite_none_right_eq_some.mp h
      obtain rfl := Option.some.inj he
      exact .construct hm ha
    · next hm =>
      obtain ⟨ha, he⟩ := Option.ite_none_right_eq_some.mp h
      obtain rfl := Option.some.inj he
      exact .rearm hm ha
    · cases h
  | main => exact mainStep_cases h
  | startFails =>
    simp only [serverStep] at h
    split at h
    · next hm =>
      obtain rfl := Option.some.inj h
      exact .startFails hm
    · cases h
  | accept error stream =>
    obtain ⟨hm, he⟩ := Option.ite_none_right_eq_some.mp h
    unfold SocksServer.accept at he
    split at he
    · cases he
    · next c ha =>
      cases error with
      | none =>
        obtain ⟨x, hx, rfl⟩ := Option.map_eq_some_iff.mp he
        exact .accepted hm ha hx
      | some error =>
        obtain rfl := Option.some.inj he
        exact .refused hm ha
  | signal =>
    obtain ⟨hm, he⟩ := Option.ite_none_right_eq_some.mp h
    obtain rfl := Option.some.inj he
    exact .signal hm
  | host c out => cases h
  | remote c out => cases h
  | destructor c => cases h

/-- Inversion of a step of the program, which has not ended yet. -/
theorem step_cases (h : s.step a = some t) :
    s.terminated = false ∧ s.main ≠ .exited ∧ s.Steps a t := by
  obtain ⟨hrun, he⟩ := Option.ite_none_left_eq_some.mp h
  obtain ⟨hterm, hexit⟩ := not_or.mp hrun
  refine ⟨Bool.eq_false_of_not_eq_true hterm, hexit, ?_⟩
  split at he
  · obtain ⟨x, hx, rfl⟩ := Option.map_eq_some_iff.mp he
    exact .host hx
  · obtain ⟨x, hx, rfl⟩ := Option.map_eq_some_iff.mp he
    exact .remote hx
  · obtain ⟨x, hx, rfl⟩ := Option.map_eq_some_iff.mp he
    exact .destructor hx
  · obtain ⟨hb, hs⟩ := Option.ite_none_right_eq_some.mp he
    exact .server hb (serverStep_cases hs)

end SocksServer

end LklSocks
