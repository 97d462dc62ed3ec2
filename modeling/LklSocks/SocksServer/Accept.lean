import LklSocks.SocksServer.Steps

/-!
# The outstanding accept

While the server serves, one accept operation is outstanding, or its completion is queued, or its
handler runs and is about to start the next one.

## Main definitions

* `Phase`: the phases of the main thread
* `SocksServer.accepts`: the accept operations and their handlers

## Main results

* `SocksServer.acceptsOne`: there is exactly one while the server serves
-/

namespace LklSocks

/-- The phases of the main thread: before the server exists, while it serves, and from the closing
of the acceptor on. -/
inductive Phase
  | boot
  | serving
  | ending
  deriving DecidableEq, Repr

@[simp] def MainPoint.phase : MainPoint → Phase
  | initLkl => .boot
  | construct => .boot
  | loop => .serving
  | rearm _ => .serving
  | startThread _ => .serving
  | sleep _ => .serving
  | remove _ => .serving
  | finish _ => .serving
  | closeAcceptor => .serving
  | dropConnections => .ending
  | haltLkl => .ending
  | dropHandlers => .ending
  | exited => .ending

/-- The main thread is about to start the next accept. -/
@[simp] def MainPoint.rearms : MainPoint → ℕ
  | rearm _ => 1
  | _ => 0

@[simp] def Handler.isAccepted : Handler → Bool
  | accepted _ _ => true
  | _ => false

namespace SocksServer

variable {s t : SocksServer} {a : Action}

/-- The accept operations: the outstanding one, its completion in the queue, or its handler that
is going to start the next one. -/
def accepts (s : SocksServer) : ℕ :=
  s.accepting.toList.length + s.queue.countP Handler.isAccepted + s.main.rearms

/-- While the server serves there is exactly one accept; outside there is none outstanding. -/
def AcceptsOne (s : SocksServer) : Prop :=
  match s.main.phase with
  | .boot => s.accepts = 0
  | .serving => s.accepts = 1
  | .ending => s.accepting = none

@[simp] theorem countP_posting (c : ℕ) (call : Option StopCall) :
    (posting c call).countP Handler.isAccepted = 0 := by
  unfold posting
  split <;> rfl

@[simp] theorem countP_accepted (c : ℕ) (error : Option ℕ) :
    (if error = none then [Handler.start c] else []).countP Handler.isAccepted = 0 := by
  split <;> rfl

theorem AcceptsOne.server (h : s.AcceptsOne) (hs : s.ServerSteps a t) : t.AcceptsOne := by
  cases hs with
  | runAccept hm hq =>
    simp only [AcceptsOne, accepts, hm, hq, MainPoint.phase, MainPoint.rearms, List.countP_cons,
      Handler.isAccepted, if_true] at h
    simp only [AcceptsOne, accepts, handleAccept, MainPoint.phase, MainPoint.rearms, post_queue,
      post_accepting, List.countP_append, countP_accepted]
    omega
  | remove hm => simp_all [AcceptsOne, accepts, SocksServer.remove]
  | closeAcceptor hm => simp_all [AcceptsOne, SocksServer.closeAcceptor]
  | _ => simp_all [AcceptsOne, accepts]

theorem AcceptsOne.steps (h : s.AcceptsOne) (hs : s.Steps a t) : t.AcceptsOne := by
  cases hs with
  | server hb hs => exact h.server hs
  | _ => simpa [AcceptsOne, accepts] using h

/-- **One accept**: in every reachable state while the server serves, exactly one accept is
outstanding, completed or about to be started again. -/
theorem acceptsOne (h : machine.Reachable s) : s.AcceptsOne := by
  refine h.invariant (P := AcceptsOne) ?_ ?_
  · rintro _ ⟨order, rfl⟩
    rfl
  · intro s a t _ hs ht
    exact hs.steps (step_cases ht).2.2

end SocksServer

end LklSocks
