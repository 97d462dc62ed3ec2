import LklSocks.SocksServer.Threads

/-!
# The thread that releases the last reference

`stopConnection` posts a handler that owns the connection and returns, which releases its argument.
If the handler has run and was destroyed before that, and the list does not hold the connection any
more, the argument is the last strong reference, and the destructor runs on the thread of the
connection that it is to join. The sleep in the handler makes this unlikely, but orders nothing.

## Main definitions

* `SocksServer.LastOnMain`: the condition on a step of the main thread
* `SocksServer.OnMain`: a destructor runs on the main thread

## Main results

* `SocksServer.OnMain.steps`: a step that meets the condition keeps the destructors on the main
  thread
* `SocksServer.exists_own_thread`: after a step that does not, a destructor can run on a thread of
  its connection
* `SocksServer.destroyed_on_main`: the two together, over runs
-/

namespace LklSocks

theorem heldBy_eq_zero {call : Option StopCall} (ha : call ≠ some .argument)
    (hp : call ≠ some .posted) : heldBy call = 0 := by
  cases call with
  | none => rfl
  | some k => cases k <;> first | rfl | exact absurd rfl ha | exact absurd rfl hp

namespace SocksServer

variable {s t : SocksServer} {a : Action} {c : ℕ}

/-- If the step of the main thread releases the last reference outside the threads of a connection,
no thread of the connection is about to release its own. -/
def LastOnMain (s : SocksServer) : Action → Prop
  | .main => ∀ c ∈ s.drops, s.owners.count c = 1 → ¬ (s.conn c).Releasing
  | _ => True

instance (s : SocksServer) (a : Action) : Decidable (s.LastOnMain a) := by
  unfold LastOnMain
  split <;> infer_instance

/-- A release by the main thread. -/
theorem ServerSteps.of_drops (hs : s.ServerSteps a t) (hd : s.drops = some c) :
    a = .main ∧ ∃ m : SocksServer, t = m.release c ∧ m.conn = s.conn ∧
      m.terminated = s.terminated ∧ m.main ≠ .exited ∧
      s.owners.count c = m.owners.count c + 1 := by
  cases hs with
  | finish hm =>
    rename_i d
    obtain rfl : d = c := by simpa [drops, hm] using hd
    refine ⟨rfl, _, rfl, rfl, rfl, by simp, ?_⟩
    simp [owners, hm, MainPoint.conn, List.count_append]
    omega
  | dropConnection hm hc =>
    rename_i d rest
    obtain rfl : d = c := by simpa [drops, hm, hc] using hd
    refine ⟨rfl, _, rfl, rfl, rfl, by simp [hm], ?_⟩
    simp [owners, hm, hc, MainPoint.conn]
  | dropHandler hm hq =>
    rename_i handler rest
    obtain rfl : handler.conn = c := by simpa [drops, hm, hq] using hd
    refine ⟨rfl, _, rfl, rfl, rfl, by simp [hm], ?_⟩
    simp [owners, hm, hq, MainPoint.conn, List.count_append]
    omega
  | dropped hm hc => simp [drops, hm, hc] at hd
  | exit hm hq => simp [drops, hm, hq] at hd
  | _ hm => simp [drops, hm] at hd

/-! ## Steps that meet the condition -/

/-- Destructors run on the main thread, and while a thread is about to release its reference,
there is another one outside the threads. -/
structure OnMain (s : SocksServer) (c : ℕ) : Prop where
  runner : ∀ r p, (s.conn c).destructor = some (r, p) → r = .main
  shared : (s.conn c).Releasing → c ∈ s.owners

/-- While a thread is about to release its reference, the main thread does not release the last
other one. -/
theorem OwnedBy.mem_owners_of_releasing (h : s.OwnedBy) (hacc : s.AcceptsOne)
    (hok : s.LastOnMain a) (hs : s.Steps a t) (hc : c ∈ s.owners)
    (hrel : (s.conn c).Releasing) : c ∈ t.owners := by
  cases hs with
  | server hb hs =>
    by_cases hd : s.drops = some c
    · obtain ⟨rfl, m, rfl, -, -, -, hcount⟩ := hs.of_drops hd
      have hne : s.owners.count c ≠ 1 := fun h1 => hok c hd h1 hrel
      rw [release_owners, ← List.count_pos_iff]
      omega
    · have hn : c = s.next → ∀ alloc, a ≠ .alloc alloc := fun he =>
        absurd (h.lt_next hc) (by omega)
      exact (h.mem_owners_iff hacc hs hd hn).mpr hc
  | host hx =>
    rw [← List.count_pos_iff] at hc ⊢
    exact hc.trans_le (le_of_le_of_eq (Nat.le_add_right _ _) (owners_count_post s _ c _ _).symm)
  | remote hx =>
    rw [← List.count_pos_iff] at hc ⊢
    exact hc.trans_le (le_of_le_of_eq (Nat.le_add_right _ _) (owners_count_post s _ c _ _).symm)
  | destructor hx => exact hc

/-- A handler that a step posts owns its connection. -/
theorem Steps.mem_owners_of_call {b : ConnectionAction} (hs : s.Steps a t) (hb : s.Causes c a b)
    (hcall : b.call (s.conn c) = some .argument) : c ∈ t.owners := by
  cases hb with
  | host =>
    cases hs with
    | server hb hs => cases hs
    | host hx =>
      refine mem_owners.mpr (.inr (.inl ?_))
      show c ∈ (s.queue ++ posting c _).map Handler.conn
      simp [posting, show (s.conn c).hostThread.call = _ from hcall]
  | remote =>
    cases hs with
    | server hb hs => cases hs
    | remote hx =>
      refine mem_owners.mpr (.inr (.inl ?_))
      show c ∈ (s.queue ++ posting c _).map Handler.conn
      simp [posting, show (s.conn c).remoteThread.call = _ from hcall]
  | _ => cases hcall

/-- No thread releases the last reference. -/
theorem OnMain.not_last {b : ConnectionAction} (h : s.OnMain c) (hb : s.Causes c a b) :
    ¬ b.Last (s.conn c) := by
  have hheld := (s.conn c).held_eq
  have shared (hp : (s.conn c).hostThread.call = some .posted ∨
      (s.conn c).remoteThread.call = some .posted) (h1 : s.useCount c = 1) : False := by
    by_cases hh : (s.conn c).hostThread.call = some .argument
    · have hr := hp.resolve_left (by simp [hh])
      simp [useCount, hheld, heldBy, hh, hr, StopCall.holds] at h1
    by_cases hr : (s.conn c).remoteThread.call = some .argument
    · have hh := hp.resolve_right (by simp [hr])
      simp [useCount, hheld, heldBy, hh, hr, StopCall.holds] at h1
    -- no thread is about to post a handler, so there is another reference
    have hc := List.count_pos_iff.mpr (h.shared ⟨hp, hh, hr⟩)
    rcases hp with hp | hp <;> simp [useCount, hheld, heldBy, hp, StopCall.holds] at h1 <;> omega
  cases hb with
  | host => exact fun hl => shared (.inl hl.2) hl.1
  | remote => exact fun hl => shared (.inr hl.2) hl.1
  | _ => exact fun hl => hl

/-- A step that meets the condition keeps the destructors on the main thread. -/
theorem OnMain.steps (h : s.OnMain c) (ho : s.OwnedBy) (hacc : s.AcceptsOne)
    (hok : s.LastOnMain a) (hs : s.Steps a t) : t.OnMain c := by
  have hmem := ho.mem_owners_of_releasing (c := c) hacc hok hs
  have hf := SocksConnection.framed (ho.reachable c)
  cases ho.connSteps hs c with
  | same he =>
    constructor
    · intro r p
      rw [he]
      exact h.runner r p
    · intro hrel
      rw [he] at hrel
      exact hmem (h.shared hrel) hrel
  | create hc alloc he =>
    constructor
    · intro r p hd
      rw [he] at hd
      cases hd
    · intro hrel
      rw [he] at hrel
      rcases hrel.1 with hp | hp <;> cases hp
  | step b hb hx =>
    have hstep := SocksConnection.step_cases hx
    constructor
    · intro r p hd
      rcases hstep.runner hf hd with hr | ⟨p', hp'⟩ | hlast
      · exact hr
      · exact h.runner r p' hp'
      · exact absurd hlast (h.not_last hb)
    · intro hrel
      rcases hstep.releasing hf hrel with hrel | hcall
      · exact hmem (h.shared hrel) hrel
      · exact hs.mem_owners_of_call hb hcall

/-! ## Steps that do not meet it -/

/-- A thread of a connection releases its reference. -/
theorem step_host {m : SocksServer} {out : Outcome} {x : SocksConnection}
    (ht : m.terminated = false) (he : m.main ≠ .exited)
    (hx : (m.conn c).hostStep (m.useCount c) out = some x) :
    machine.step m (.host c out) = some
      { (m.setConn c x).post (posting c (m.conn c).hostThread.call) with
        terminated := x.hostThread = .escaped } := by
  apply (if_neg (by simp [ht, he])).trans
  show m.hostStep c out = _
  rw [hostStep, hx]
  rfl

theorem step_remote {m : SocksServer} {out : Outcome} {x : SocksConnection}
    (ht : m.terminated = false) (he : m.main ≠ .exited)
    (hx : (m.conn c).remoteStep (m.useCount c) out = some x) :
    machine.step m (.remote c out) = some
      ((m.setConn c x).post (posting c (m.conn c).remoteThread.call)) := by
  apply (if_neg (by simp [ht, he])).trans
  show m.remoteStep c out = _
  rw [remoteStep, hx]
  rfl

/-- The remote thread releases the last reference. -/
theorem exists_remote {m : SocksServer} (ht : m.terminated = false) (he : m.main ≠ .exited)
    (hp : (m.conn c).remoteThread.call = some .posted) (hu : m.useCount c = 1) :
    ∃ v, machine.step m (.remote c .ok) = some v ∧
      (v.conn c).destructor = some (.remote, .closeRemote) := by
  obtain ⟨x, hx, hd⟩ := SocksConnection.remoteStep_release hp
  refine ⟨_, step_remote ht he (hu ▸ hx), ?_⟩
  simpa using hd

/-- The host thread releases a reference that is not the last. -/
theorem exists_host {m : SocksServer} (ht : m.terminated = false) (he : m.main ≠ .exited)
    (hp : (m.conn c).hostThread.call = some .posted) (hu : m.useCount c ≠ 1) :
    ∃ v, machine.step m (.host c .ok) = some v ∧ v.terminated = false ∧ v.main = m.main ∧
      (v.conn c).remoteThread = (m.conn c).remoteThread ∧
      v.useCount c = m.owners.count c + heldBy (m.conn c).remoteThread.call := by
  obtain ⟨x, hx, hremote, -, hother⟩ := SocksConnection.hostStep_release (m.useCount c) hp
  have hdone := hother hu
  refine ⟨_, step_host ht he hx, ?_, rfl, ?_, ?_⟩
  · have hne : x.hostThread ≠ .escaped := by
      intro hesc
      rw [hesc] at hdone
      cases hdone
    exact decide_eq_false hne
  · simpa using hremote
  · have hposts : posts (m.conn c).hostThread.call = 0 := by rw [hp]; rfl
    have hheld : x.held = heldBy (m.conn c).remoteThread.call := by
      rw [SocksConnection.held_eq, hdone, hremote]
      exact Nat.zero_add _
    show List.count c ((m.setConn c x).post _).owners + (Function.update m.conn c x c).held = _
    rw [owners_count_post, hposts, Function.update_self, hheld, ite_self, Nat.add_zero]

/-- When no reference is left outside the threads, and one of them is about to release its own, a
destructor can run on a thread of its connection: the one that comes last. -/
theorem exists_own_thread_of_releasing {m : SocksServer} (ht : m.terminated = false)
    (he : m.main ≠ .exited) (hc : m.owners.count c = 0) (hrel : (m.conn c).Releasing) :
    ∃ bs v r, machine.exec m bs = some v ∧
      (v.conn c).destructor = some (r, .closeRemote) ∧ r ≠ .main := by
  obtain ⟨hposted, hharg, hrarg⟩ := hrel
  have huse : m.useCount c =
      heldBy (m.conn c).hostThread.call + heldBy (m.conn c).remoteThread.call := by
    rw [useCount, hc, Nat.zero_add, SocksConnection.held_eq]
  by_cases hr : (m.conn c).remoteThread.call = some .posted
  · by_cases hh : (m.conn c).hostThread.call = some .posted
    · have htwo : m.useCount c ≠ 1 := by simp [huse, hh, hr, heldBy, StopCall.holds]
      obtain ⟨v, hv, ht', hm', hr', hu'⟩ := exists_host ht he hh htwo
      rw [hc, hr] at hu'
      obtain ⟨w, hw, hd⟩ := exists_remote (c := c) ht' (hm' ▸ he) (hr' ▸ hr) hu'
      refine ⟨[.host c .ok, .remote c .ok], w, .remote, ?_, hd, by decide⟩
      rw [Machine.exec_cons, hv, Option.bind_some, Machine.exec_cons, hw]
      rfl
    · have hone : m.useCount c = 1 := by
        rw [huse, heldBy_eq_zero hharg hh, hr]
        rfl
      obtain ⟨v, hv, hd⟩ := exists_remote ht he hr hone
      exact ⟨[.remote c .ok], v, .remote, by rw [Machine.exec_cons, hv]; rfl, hd, by decide⟩
  · have hh := hposted.resolve_right hr
    have hone : m.useCount c = 1 := by
      rw [huse, heldBy_eq_zero hrarg hr, hh]
      rfl
    obtain ⟨x, hx, -, hlast, -⟩ := SocksConnection.hostStep_release (m.useCount c) hh
    obtain ⟨v, hv, hd⟩ : ∃ v, machine.step m (.host c .ok) = some v ∧
        (v.conn c).destructor = some (.host, .closeRemote) :=
      ⟨_, step_host ht he hx, by simpa using hlast hone⟩
    exact ⟨[.host c .ok], v, .host, by rw [Machine.exec_cons, hv]; rfl, hd, by decide⟩

/-- A step that does not meet the condition leads to a state in which a destructor can run on a
thread of its connection. -/
theorem exists_own_thread (hs : s.step a = some t) (hn : ¬ s.LastOnMain a) :
    ∃ bs v c r, machine.exec t bs = some v ∧ (v.conn c).destructor = some (r, .closeRemote) ∧
      r ≠ .main := by
  obtain ⟨hterm, -, hs⟩ := step_cases hs
  cases a with
  | main =>
    obtain ⟨c, hd, h1, hrel⟩ : ∃ c, s.drops = some c ∧ s.owners.count c = 1 ∧
        (s.conn c).Releasing := by
      simpa [LastOnMain] using hn
    cases hs with
    | server hb hs =>
      obtain ⟨-, m, rfl, hconn, hterm', hexit, hcount⟩ := hs.of_drops hd
      have hc : m.owners.count c = 0 := by omega
      rw [← hconn] at hrel
      -- the thread still holds its reference, so the main thread does not run the destructor
      have hheld : m.useCount c ≠ 0 := by
        have hheld := (m.conn c).held_eq
        rcases hrel.1 with hp | hp <;> simp [useCount, hheld, heldBy, hp, StopCall.holds]
      have hrelease : m.release c = m := if_neg fun h => hheld h.1
      rw [hrelease]
      obtain ⟨bs, v, r, hv, hd, hr⟩ :=
        exists_own_thread_of_releasing (hterm'.trans hterm) hexit hc hrel
      exact ⟨bs, v, c, r, hv, hd, hr⟩
  | _ => exact absurd trivial hn

/-- **The thread that releases the last reference**: in a run in which the main thread never
releases the last other reference while a thread is about to release its own, every destructor
runs on the main thread, and does not abort. After any other step, there is a continuation in which
a destructor runs on a thread of its own connection. -/
theorem destroyed_on_main (order : ByteOrder) (as : List Action) :
    ((∀ t a u, machine.Takes (initial order) as t a u → t.LastOnMain a) →
      ∀ t, machine.Visits (initial order) as t →
        ∀ c r p, (t.conn c).destructor = some (r, p) → r = .main ∧ p ≠ .aborted) ∧
    ∀ t a u, machine.Takes (initial order) as t a u → ¬ t.LastOnMain a →
      ∃ bs v c r, machine.exec u bs = some v ∧
        (v.conn c).destructor = some (r, .closeRemote) ∧ r ≠ .main := by
  refine ⟨fun hok t ht c r p hd => ?_, fun t a u hT => exists_own_thread hT.step_eq⟩
  have hmain : ∀ c, t.OnMain c := by
    refine Machine.visits_of_takes (P := fun t : SocksServer => ∀ c, t.OnMain c) ?_ ?_ hok ht
    · intro c
      exact ⟨nofun, fun hrel => by rcases hrel.1 with hp | hp <;> cases hp⟩
    · intro t a u hT ih hok c
      have hr := reachable_of_visits hT.visits_left
      exact (ih c).steps (ownedBy hr) (acceptsOne hr) hok (step_cases hT.step_eq).2.2
  obtain rfl := (hmain c).runner r p hd
  refine ⟨rfl, ?_⟩
  rintro rfl
  have hclosing := SocksConnection.closing ((ownedBy (reachable_of_visits ht)).reachable c)
  simp only [SocksConnection.Closing, hd] at hclosing
  exact hclosing.2.2

/-- A run in which a thread has released its reference before the main thread runs the handler. -/
def removedRun : List Action :=
  startRun [] ++ [.host 0 (.error .eof), .host 0 .ok, .host 0 .ok, .host 0 .ok, .main, .main,
    .main, .main, .destructor 0]

theorem destroyed_on_main_removedRun : ∀ t, machine.Visits (initial .little) removedRun t →
    ∀ c r p, (t.conn c).destructor = some (r, p) → r = .main ∧ p ≠ .aborted :=
  have hmeets : machine.Meets LastOnMain (initial .little) removedRun := by decide
  (destroyed_on_main .little removedRun).1 fun _ _ _ hT => hmeets.takes hT

/-- A run in which a thread is preempted at the end of `stopConnection` while the main thread runs
the handler. -/
def preemptedRun : List Action :=
  startRun [] ++ [.host 0 (.error .eof), .host 0 .ok, .host 0 .ok, .main, .main, .main, .main,
    .host 0 .ok, .destructor 0, .destructor 0, .destructor 0, .destructor 0]

/-- The host thread runs the destructor, which terminates the program. -/
theorem own_thread_preemptedRun : ¬ ∀ t, machine.Visits (initial .little) preemptedRun t →
    ∀ c r p, (t.conn c).destructor = some (r, p) → r = .main ∧ p ≠ .aborted := fun h =>
  absurd (h ((machine.exec (initial .little) preemptedRun).getD (initial .little))
    ⟨preemptedRun, List.prefix_rfl, rfl⟩ 0 .host .aborted rfl).1 nofun

end SocksServer

end LklSocks
