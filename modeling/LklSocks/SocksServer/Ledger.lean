import LklSocks.SocksServer.Ownership

/-!
# What was posted and what ran

The history of the handlers determines how far each connection is. A connection is waiting for its
accept, or was accepted or refused, once; its start handler is posted once and runs at most once;
and a stop handler is posted only after the start handler ran, is queued or running until it has
its effect, or is dropped at the end.

## Main definitions

* `SocksServer.registrations`: the accept of a connection, its completion and its outcome
* `SocksServer.Ledger`: the invariant of one connection
* `SocksServer.HasRun`: a handler was posted, and is no longer queued or running

## Main results

* `SocksServer.ledger`: the invariant holds in every reachable state
-/

namespace LklSocks

namespace Handler

/-- The completion of the accept of a connection. -/
def acceptedFor (c : ℕ) : Handler → Bool
  | accepted d _ => d = c
  | start _ => false
  | stop _ => false

/-- The completion of the accept of a connection, with an error. -/
def refusedFor (c : ℕ) : Handler → Bool
  | accepted d error => d = c ∧ error ≠ none
  | start _ => false
  | stop _ => false

variable (c d : ℕ) (error : Option ℕ)

@[simp] theorem acceptedFor_accepted : (accepted d error).acceptedFor c = decide (d = c) := rfl
@[simp] theorem acceptedFor_start : (start d).acceptedFor c = false := rfl
@[simp] theorem acceptedFor_stop : (stop d).acceptedFor c = false := rfl
@[simp] theorem refusedFor_accepted :
    (accepted d error).refusedFor c = decide (d = c ∧ error ≠ none) := rfl
@[simp] theorem refusedFor_start : (start d).refusedFor c = false := rfl
@[simp] theorem refusedFor_stop : (stop d).refusedFor c = false := rfl

end Handler

namespace MainPoint

/-- The stop handler of a connection runs, and has not had its effect. -/
def stopping (c : ℕ) (main : MainPoint) : ℕ :=
  if main = .sleep c ∨ main = .remove c then 1 else 0

/-- The handler that runs and has not had its effect: a stop handler that sleeps. -/
def running : MainPoint → List Handler
  | sleep c => [.stop c]
  | remove c => [.stop c]
  | _ => []

theorem count_running_start (c : ℕ) (main : MainPoint) : main.running.count (.start c) = 0 := by
  cases main <;> simp [running]

theorem count_running_stop (c : ℕ) (main : MainPoint) :
    main.running.count (.stop c) = main.stopping c := by
  cases main <;> simp [running, stopping, List.count_cons]

end MainPoint

namespace SocksServer

variable {s t : SocksServer} {a : Action} {c : ℕ}

/-- The accept operation of a connection, its completion, and what came of it: the start handler
that was posted, or the error. -/
def registrations (s : SocksServer) (c : ℕ) : ℕ :=
  s.accepting.toList.count c + s.queue.countP (Handler.acceptedFor c) +
    s.posted.count (.start c) + s.ran.countP (Handler.refusedFor c)

/-- The handlers of a connection in the history. -/
structure Ledger (s : SocksServer) (c : ℕ) : Prop where
  once : s.registrations c ≤ if c < s.next then 1 else 0
  starts : s.queue.count (.start c) + s.ran.count (.start c) ≤ s.posted.count (.start c)
  stops : s.queue.count (.stop c) + s.main.stopping c + s.ran.count (.stop c) ≤
    s.posted.count (.stop c)
  pendingStarts : s.main ≠ .dropHandlers → s.main ≠ .exited →
    s.queue.count (.start c) + s.ran.count (.start c) = s.posted.count (.start c)
  pendingStops : s.main ≠ .dropHandlers → s.main ≠ .exited →
    s.queue.count (.stop c) + s.main.stopping c + s.ran.count (.stop c) =
      s.posted.count (.stop c)

/-- The main thread keeps the ledger of every connection. -/
theorem Ledger.server (h : s.Ledger c) (hacc : s.AcceptsOne) (hs : s.ServerSteps a t) :
    t.Ledger c := by
  obtain ⟨h₁, h₂, h₃, h₄, h₅⟩ := h
  cases hs with
  | construct hm ha =>
    have hnone : s.accepting = none := by simp_all [AcceptsOne, accepts]
    simp [registrations, MainPoint.stopping, hnone, hm] at h₁ h₂ h₃ h₄ h₅
    constructor <;> simp [registrations, MainPoint.stopping, List.count_cons] <;> grind
  | rearm hm ha =>
    have hnone : s.accepting = none := by simp_all [AcceptsOne, accepts]
    simp [registrations, MainPoint.stopping, hnone, hm] at h₁ h₂ h₃ h₄ h₅
    constructor <;> simp [registrations, MainPoint.stopping, List.count_cons] <;> grind
  | accepted hm ha hx =>
    simp [registrations, MainPoint.stopping, ha, hm, List.count_cons] at h₁ h₂ h₃ h₄ h₅
    constructor <;> simp [registrations, MainPoint.stopping, List.countP_cons] <;> grind
  | refused hm ha =>
    simp [registrations, MainPoint.stopping, ha, hm, List.count_cons] at h₁ h₂ h₃ h₄ h₅
    constructor <;> simp [registrations, MainPoint.stopping, List.countP_cons] <;> grind
  | runAccept hm hq =>
    rename_i d error rest
    simp [registrations, MainPoint.stopping, hq, hm, List.countP_cons] at h₁ h₂ h₃ h₄ h₅
    cases error <;> constructor <;>
      simp [registrations, MainPoint.stopping, handleAccept, List.count_cons,
        List.countP_cons] <;> grind
  | runStart hm hq =>
    simp [registrations, MainPoint.stopping, hq, hm, List.count_cons] at h₁ h₂ h₃ h₄ h₅
    constructor <;> simp [registrations, MainPoint.stopping, List.count_cons] <;> grind
  | runStop hm hq =>
    simp [registrations, MainPoint.stopping, hq, hm, List.count_cons] at h₁ h₂ h₃ h₄ h₅
    constructor <;> simp [registrations, MainPoint.stopping] <;> grind
  | remove hm =>
    simp [registrations, MainPoint.stopping, hm] at h₁ h₂ h₃ h₄ h₅
    constructor <;>
      simp [registrations, MainPoint.stopping, SocksServer.remove, List.count_cons] <;> grind
  | closeAcceptor hm =>
    simp [registrations, MainPoint.stopping, hm] at h₁ h₂ h₃ h₄ h₅
    cases hacc : s.accepting <;> simp [hacc, List.count_cons] at h₁ <;> constructor <;>
      simp [registrations, MainPoint.stopping, SocksServer.closeAcceptor, hacc,
        List.countP_cons] <;> grind
  | dropHandler hm hq =>
    simp [registrations, MainPoint.stopping, hq, hm, List.count_cons,
      List.countP_cons] at h₁ h₂ h₃ h₄ h₅
    constructor <;> simp [registrations, MainPoint.stopping, hm] <;> grind
  | startThread hm hx =>
    simp only [MainPoint.stopping, hm] at h₃ h₄ h₅
    exact ⟨h₁, h₂, h₃, fun _ _ => h₄ (by simp) (by simp), fun _ _ => h₅ (by simp) (by simp)⟩
  | startTwice hm hx => exact ⟨h₁, h₂, h₃, h₄, h₅⟩
  | startFails hm => exact ⟨h₁, h₂, h₃, h₄, h₅⟩
  | _ hm => constructor <;> simp_all [registrations, MainPoint.stopping]

/-- A call of `stopConnection` posts one stop handler. -/
theorem Ledger.post {d : ℕ} {x : SocksConnection} {call : Option StopCall} (h : s.Ledger c) :
    ((s.setConn d x).post (posting d call)).Ledger c := by
  obtain ⟨h₁, h₂, h₃, h₄, h₅⟩ := h
  unfold posting
  split
  · simp only [registrations] at h₁
    constructor <;> simp [registrations, List.count_cons] <;> grind
  · constructor <;> simpa [registrations]

/-- Every step keeps the ledger of every connection. -/
theorem Ledger.steps (h : s.Ledger c) (hacc : s.AcceptsOne) (hs : s.Steps a t) : t.Ledger c := by
  cases hs with
  | server hb hs => exact h.server hacc hs
  | host hx =>
    obtain ⟨h₁, h₂, h₃, h₄, h₅⟩ := h.post
    exact ⟨h₁, h₂, h₃, h₄, h₅⟩
  | remote hx => exact h.post
  | destructor hx =>
    obtain ⟨h₁, h₂, h₃, h₄, h₅⟩ := h
    exact ⟨h₁, h₂, h₃, h₄, h₅⟩

/-- **The history of the handlers** in every reachable state. -/
theorem ledger (h : machine.Reachable s) (c : ℕ) : s.Ledger c := by
  refine h.invariant (P := fun s => s.Ledger c) ?_ ?_
  · rintro _ ⟨order, rfl⟩
    exact ⟨Nat.zero_le _, Nat.le_refl 0, Nat.le_refl 0, fun _ _ => rfl, fun _ _ => rfl⟩
  · intro s a t hr hs ht
    exact hs.steps (acceptsOne hr) (step_cases ht).2.2

namespace Ledger

/-- The start handler of a connection whose accept failed is never posted. -/
theorem start_notMem_posted (h : s.Ledger c) {error : ℕ}
    (hf : .accepted c (some error) ∈ s.queue ∨ .accepted c (some error) ∈ s.ran) :
    Handler.start c ∉ s.posted := by
  have hpos : 0 < s.queue.countP (Handler.acceptedFor c) + s.ran.countP (Handler.refusedFor c) := by
    rcases hf with hq | hr
    · exact Nat.add_pos_left (List.countP_pos_iff.mpr ⟨_, hq, by simp⟩) _
    · exact Nat.add_pos_right _ (List.countP_pos_iff.mpr ⟨_, hr, by simp⟩)
  -- the error is the one registration that the connection has
  have honce := h.once
  rw [← List.count_eq_zero]
  unfold registrations at honce
  split at honce <;> omega

/-- A start handler in the queue has not run. -/
theorem start_notMem_ran (h : s.Ledger c) (hq : .start c ∈ s.queue) : Handler.start c ∉ s.ran := by
  have hpos : 0 < s.queue.count (.start c) := List.count_pos_iff.mpr hq
  have honce := h.once
  have hstarts := h.starts
  rw [← List.count_eq_zero]
  unfold registrations at honce
  split at honce <;> omega

/-- The accept of a connection that was started is not in the queue any more. -/
theorem accepted_notMem_queue (h : s.Ledger c) {error : Option ℕ} (hr : .start c ∈ s.ran) :
    Handler.accepted c error ∉ s.queue := by
  intro hq
  have hpos : 0 < s.queue.countP (Handler.acceptedFor c) := List.countP_pos_iff.mpr ⟨_, hq, by simp⟩
  have hran : 0 < s.ran.count (.start c) := List.count_pos_iff.mpr hr
  have honce := h.once
  have hstarts := h.starts
  unfold registrations at honce
  split at honce <;> omega

/-- A connection that was started was created. -/
theorem lt_next (h : s.Ledger c) (hr : .start c ∈ s.ran) : c < s.next := by
  have hran : 0 < s.ran.count (.start c) := List.count_pos_iff.mpr hr
  have honce := h.once
  have hstarts := h.starts
  unfold registrations at honce
  split at honce
  · next hlt => exact hlt
  · omega

theorem start_mem_posted (h : s.Ledger c) (hr : .start c ∈ s.ran) : Handler.start c ∈ s.posted := by
  have hpos : 0 < s.ran.count (.start c) := List.count_pos_iff.mpr hr
  have hstarts := h.starts
  exact List.count_pos_iff.mp (by omega)

theorem stop_mem_posted (h : s.Ledger c) (hq : .stop c ∈ s.queue ∨ 0 < s.main.stopping c ∨
    .stop c ∈ s.ran) : Handler.stop c ∈ s.posted := by
  have hstops := h.stops
  rw [← List.count_pos_iff, ← List.count_pos_iff] at hq
  exact List.count_pos_iff.mp (by omega)

/-- A stop handler that was posted is queued, or runs, or has run, until the handlers are
dropped. -/
theorem stop_cases (h : s.Ledger c) (hm : s.main ≠ .dropHandlers) (he : s.main ≠ .exited)
    (hp : .stop c ∈ s.posted) :
    Handler.stop c ∈ s.queue ∨ 0 < s.main.stopping c ∨ Handler.stop c ∈ s.ran := by
  have hpos := List.count_pos_iff.mpr hp
  have hpending := h.pendingStops hm he
  rw [← List.count_pos_iff, ← List.count_pos_iff]
  omega

end Ledger

/-- One of the handlers `h` that were posted is no longer queued or running. -/
def HasRun (s : SocksServer) (h : Handler) : Prop :=
  s.queue.count h + s.main.running.count h < s.posted.count h

theorem Ledger.hasRun_start_iff (h : s.Ledger c) (hm : s.main ≠ .dropHandlers)
    (he : s.main ≠ .exited) : s.HasRun (.start c) ↔ .start c ∈ s.ran := by
  have hpending := h.pendingStarts hm he
  rw [HasRun, MainPoint.count_running_start, ← List.count_pos_iff]
  omega

theorem Ledger.hasRun_stop_iff (h : s.Ledger c) (hm : s.main ≠ .dropHandlers)
    (he : s.main ≠ .exited) : s.HasRun (.stop c) ↔ .stop c ∈ s.ran := by
  have hpending := h.pendingStops hm he
  rw [HasRun, MainPoint.count_running_stop, ← List.count_pos_iff]
  omega

end SocksServer

end LklSocks
