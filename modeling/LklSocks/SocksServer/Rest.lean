import LklSocks.SocksConnection.Waiting
import LklSocks.SocksServer.Serving
import LklSocks.SocksServer.Teardown

/-!
# The program at rest

While its peers are silent the program does only what it can do alone: `main` and the threads that
wait for no peer make their steps. It comes to rest after finitely many of them, under every order.
At rest, while it serves, nothing is left undone: the loop waits for handlers with an empty queue,
the next accept is outstanding, no destructor waits for a thread, and a connection that is not freed
is listed, without a stop handler, and each of its threads has returned or waits for a peer.

## Main definitions

* `SocksServer.Own`: the steps that the program makes alone
* `SocksServer.silent`: the program while its peers are silent
* `SocksServer.AtRest`: nothing is left undone

## Main results

* `SocksServer.sealed`: while the server serves, no host thread opens the socket that a destructor
  has closed
* `SocksServer.comes_to_rest`: the program comes to rest
-/

namespace LklSocks

namespace SocksServer

variable {s t : SocksServer} {a : Action} {c : ℕ}

/-- The program makes the step alone: no peer, no client and no signal causes it. -/
def Own (s : SocksServer) : Action → Prop
  | .host c _ => ¬ (s.conn c).HostWaits
  | .remote c _ => ¬ (s.conn c).RemoteWaits
  | .accept _ _ => False
  | .signal => False
  | _ => True

instance (s : SocksServer) : DecidablePred s.Own
  | .host c _ => inferInstanceAs (Decidable (¬ (s.conn c).HostWaits))
  | .remote c _ => inferInstanceAs (Decidable (¬ (s.conn c).RemoteWaits))
  | .accept _ _ => instDecidableFalse
  | .signal => instDecidableFalse
  | .init _ => instDecidableTrue
  | .alloc _ => instDecidableTrue
  | .main => instDecidableTrue
  | .startFails => instDecidableTrue
  | .destructor _ => instDecidableTrue

/-- The program while its peers are silent. -/
def silent : Machine SocksServer Action := machine.restrict Own

/-- The server serves the connection: it is listed, no stop handler was posted, and each of its
threads has returned or waits for a peer. -/
structure Served (s : SocksServer) (c : ℕ) : Prop where
  listed : c ∈ s.connections
  unstopped : .stop c ∉ s.posted
  host : (s.conn c).hostThread.Finished ∨ (s.conn c).HostWaits
  remote : (s.conn c).RemoteOver ∨ (s.conn c).RemoteWaits

/-- Nothing is left undone: every connection that was created waits for its client, is served or
freed. -/
structure AtRest (s : SocksServer) : Prop where
  main : s.main = .loop
  queue : s.queue = []
  destroying : s.destroying = none
  accepting : s.accepting ≠ none
  connections : ∀ c < s.next, s.accepting = some c ∨ (s.conn c).Freed ∨ s.Served c

/-! ## Closed sockets -/

/-- The end of the program is not left. -/
theorem Steps.ending (hs : s.Steps a t) (h : s.main.phase = .ending) :
    t.main.phase = .ending := by
  cases hs with
  | server hb hs =>
    cases hs with
    | dropConnection hm hc =>
      rw [release_main]
      exact h
    | dropped hm hc => rfl
    | haltLkl hm => rfl
    | dropHandler hm hq =>
      rw [release_main]
      exact h
    | exit hm hq => rfl
    | _ hm =>
      rw [hm] at h
      cases h
  | host hx => exact h
  | remote hx => exact h
  | destructor hx => exact h

/-- A thread that has posted a stop handler, or was never started, is not about to open the remote
socket. -/
theorem ne_openRemote (h : machine.Reachable s) (hm : s.main.phase ≠ .ending)
    (hd : (s.conn c).destructor ≠ none) (request : Socks4Request) :
    (s.conn c).hostThread ≠ .openRemote request := by
  intro hp
  have hf := SocksConnection.framed ((ownedBy h).reachable c)
  rcases posted_of_destructor h hm hd (by rw [hp]; nofun) with hposted | hposted
  · rw [hp] at hposted
    exact hposted.1 rfl
  · cases hq : (s.conn c).remoteThread with
    | idle =>
      rw [hq] at hposted
      exact hposted.1 rfl
    | relay q =>
      obtain ⟨p, hp', -⟩ := hf.exists_relaying hq
      cases hp.symm.trans hp'

/-- **A remote socket that a destructor has closed stays closed** while the server serves. -/
theorem sealed (h : machine.Reachable s) (hm : s.main.phase ≠ .ending) (c : ℕ) :
    (s.conn c).Sealed := by
  refine h.invariant (P := fun s => s.main.phase ≠ .ending → (s.conn c).Sealed) ?_ ?_ hm
  · rintro _ ⟨order, rfl⟩ -
    exact .of_none rfl
  · intro s a t hr ih ht hm
    have ho := ownedBy hr
    have hs := (step_cases ht).2.2
    have hm' : s.main.phase ≠ .ending := fun he => hm (hs.ending he)
    cases ho.connSteps hs c with
    | same he => exact he ▸ ih hm'
    | create hc alloc he =>
      rw [he]
      exact .of_none rfl
    | step b hb hx =>
      exact (ih hm').steps (SocksConnection.framed (ho.reachable c))
        (SocksConnection.step_cases hx) (ne_openRemote hr hm')

/-- While the server serves, the threads of a destroyed connection wait for no peer. -/
theorem not_waits (h : machine.Reachable s) (hm : s.main.phase ≠ .ending) {runner : Runner}
    {p : DtorPoint} (hd : (s.conn c).destructor = some (runner, p)) (hp : p.AfterClose) :
    ¬ (s.conn c).HostWaits ∧ ¬ (s.conn c).RemoteWaits := by
  have hshut := SocksConnection.shut ((ownedBy h).reachable c) ⟨_, hd, hp⟩
  refine SocksConnection.not_waits hshut.socket (sealed h hm c _ hd ?_)
  rintro rfl
  exact hp

/-! ## What a program at rest waits for -/

/-- A program that was not terminated has aborted no destructor. -/
theorem ne_aborted (h : machine.Reachable s) (hterm : s.terminated = false) (c : ℕ) :
    (s.conn c).destructor.map Prod.snd ≠ some .aborted := by
  refine h.invariant (P := fun s => s.terminated = false →
    (s.conn c).destructor.map Prod.snd ≠ some .aborted) ?_ ?_ hterm
  · rintro _ ⟨order, rfl⟩ - ha
    cases ha
  · intro s a t hr ih ht hterm' ha
    obtain ⟨hterm, -, hs⟩ := step_cases ht
    have ho := ownedBy hr
    cases ho.connSteps hs c with
    | same he => exact ih hterm (he ▸ ha)
    | create hc alloc he =>
      rw [he] at ha
      cases ha
    | step b hb hx =>
      rcases (SocksConnection.step_cases hx).aborted (SocksConnection.framed (ho.reachable c)) ha
        with ha | rfl
      · exact ih hterm ha
      · cases hb
        cases hs with
        | server hb hs => cases hs
        | @destructor c x hx =>
          change (Function.update s.conn c x c).destructor.map Prod.snd = _ at ha
          rw [Function.update_self] at ha
          exact of_decide_eq_false hterm' ha

theorem step_ne_of_stuck (hstuck : silent.Stuck s) (a : Action) (ha : s.Own a) :
    machine.step s a ≠ some t := by
  rw [Machine.stuck_restrict_iff.mp hstuck a ha]
  exact Option.some_ne_none t |>.symm

section Stuck

variable (hterm : s.terminated = false) (he : s.main ≠ .exited) (hstuck : silent.Stuck s)

include hterm he hstuck

/-- The host thread is over, or waits for the client or the remote, unless it runs the
destructor. -/
theorem host_of_stuck (h : machine.Reachable s)
    (hd : (s.conn c).hostThread.call ≠ some .destroying) :
    (s.conn c).HostOver ∨ (s.conn c).HostWaits := by
  by_contra hne
  obtain ⟨hover, hwaits⟩ := not_or.mp hne
  obtain ⟨out, x, -, hx⟩ := SocksConnection.exists_hostStep (s.useCount c) hover
    ((runs h).caught hterm c) hd
  exact step_ne_of_stuck hstuck (.host c out) hwaits (step_host hterm he hx)

theorem remote_of_stuck (hd : (s.conn c).remoteThread.call ≠ some .destroying) :
    (s.conn c).RemoteOver ∨ (s.conn c).RemoteWaits := by
  by_contra hne
  obtain ⟨hover, hwaits⟩ := not_or.mp hne
  obtain ⟨out, x, -, hx⟩ := SocksConnection.exists_remoteStep (s.useCount c) hover hd
  exact step_ne_of_stuck hstuck (.remote c out) hwaits (step_remote hterm he hx)

/-- A destructor has no step. -/
theorem destroyStep_of_stuck (c : ℕ) : (s.conn c).destroyStep = none := by
  by_contra hne
  obtain ⟨x, hx⟩ := Option.ne_none_iff_exists'.mp hne
  exact step_ne_of_stuck hstuck (.destructor c) trivial (step_destructor hterm he hx)

/-- A destructor that is under way waits for a thread that waits for a peer. -/
theorem waits_of_stuck (h : machine.Reachable s) {runner : Runner} {p : DtorPoint}
    (hd : (s.conn c).destructor = some (runner, p)) (hp : p ≠ .done) :
    (s.conn c).HostWaits ∨ (s.conn c).RemoteWaits := by
  by_contra hne
  obtain ⟨hh, hr⟩ := not_or.mp hne
  have ho := ownedBy h
  have hreach := ho.reachable c
  have hsome : (s.conn c).destructor ≠ none := by
    rw [hd]
    exact Option.some_ne_none _
  have hcreated : c < s.next := by
    by_contra hge
    exact hsome (ho.unused c (not_lt.mp hge)).2.2.2
  have huse := (ho.useCount_eq hcreated).resolve_left hsome
  have habort : p ≠ .aborted := by
    rintro rfl
    exact ne_aborted h hterm c (by rw [hd]; rfl)
  obtain ⟨b, x, hown, hx⟩ := SocksConnection.exists_ownStep (SocksConnection.runs hreach) hd hp
    habort ((runs h).caught hterm c) hh hr
  cases b with
  | host n out =>
    obtain ⟨hn, hx⟩ := Option.ite_none_right_eq_some.mp hx
    obtain rfl := hn.resolve_left hsome
    exact step_ne_of_stuck hstuck (.host c out) hh (step_host hterm he (huse ▸ hx))
  | remote n out =>
    obtain ⟨hn, hx⟩ := Option.ite_none_right_eq_some.mp hx
    obtain rfl := hn.resolve_left hsome
    exact step_ne_of_stuck hstuck (.remote c out) hr (step_remote hterm he (huse ▸ hx))
  | destructor =>
    exact step_ne_of_stuck hstuck (.destructor c) trivial (step_destructor hterm he hx)
  | accept stream => exact hown
  | start => exact hown
  | destroy => exact hown

/-- The main thread waits in its loop, or for a destructor. -/
theorem main_of_stuck (hb : s.destroying = none) : s.main = .loop ∧ s.queue = [] := by
  obtain ⟨alloc, hfresh⟩ := s.exists_fresh
  have hnot : ¬ (s.terminated = true ∨ s.main = .exited) := by
    rintro (ht | hm)
    · cases ht.symm.trans hterm
    · exact he hm
  have hmain : s.mainStep = none := by
    by_contra hne
    obtain ⟨t, ht⟩ := Option.ne_none_iff_exists'.mp hne
    exact step_ne_of_stuck hstuck .main trivial ((if_neg hnot).trans ((if_pos hb).trans ht))
  have halloc (p : MainPoint) (ht : s.serverStep (.alloc alloc) = s.startAccept alloc p) : False :=
    step_ne_of_stuck hstuck (.alloc alloc) trivial
      ((if_neg hnot).trans ((if_pos hb).trans (ht.trans (if_pos hfresh))))
  have hl : s.main = .loop := by
    by_contra hl
    have hi : s.main ≠ .initLkl := fun hi =>
      step_ne_of_stuck hstuck (.init fun _ => 0) trivial
        ((if_neg hnot).trans ((if_pos hb).trans (if_pos hi)))
    have hc : s.main ≠ .construct := fun hc => halloc .loop (by simp only [serverStep, hc])
    have hr : ∀ c, s.main ≠ .rearm c := fun c hr =>
      halloc (.finish c) (by simp only [serverStep, hr])
    obtain ⟨t, ht⟩ := exists_mainStep hr hi hc hl he
    cases hmain.symm.trans ht
  refine ⟨hl, ?_⟩
  by_contra hq
  obtain ⟨hd, rest, hq⟩ := List.exists_cons_of_ne_nil hq
  unfold mainStep runHandler at hmain
  rw [hl, hq] at hmain
  cases hd <;> cases hmain

/-- While the server serves, a destructor that has started is done. -/
theorem freed_of_stuck (h : machine.Reachable s) (hm : s.main.phase ≠ .ending)
    (hd : (s.conn c).destructor ≠ none) : (s.conn c).Freed := by
  obtain ⟨⟨runner, p⟩, hd⟩ := Option.ne_none_iff_exists'.mp hd
  by_contra hfreed
  have hp : p ≠ .done := by
    rintro rfl
    exact hfreed (by rw [SocksConnection.Freed, hd]; rfl)
  have hnone := destroyStep_of_stuck hterm he hstuck c
  have hafter : p.AfterClose := by
    unfold SocksConnection.destroyStep at hnone
    rw [hd] at hnone
    cases p with
    | closeRemote => cases hnone
    | closeHost => cases hnone
    | _ => trivial
  obtain ⟨hh, hr⟩ := not_waits h hm hd hafter
  exact (waits_of_stuck hterm he hstuck h hd hp).elim hh hr

/-- A connection that is referred to is served. -/
theorem served_of_stuck (h : machine.Reachable s) (hl : s.main = .loop) (hq : s.queue = [])
    (hc : c < s.next) (ha : s.accepting ≠ some c) (hd : (s.conn c).destructor = none) :
    s.Served c := by
  have ho := ownedBy h
  have hm : s.main.phase ≠ .ending := by
    rw [hl]
    intro h
    cases h
  have hdrop : s.main ≠ .dropHandlers := fun hp => by cases hl.symm.trans hp
  have hexit : s.main ≠ .exited := fun hp => by cases hl.symm.trans hp
  have hthread : s.main ≠ .startThread c := fun hp => by cases hl.symm.trans hp
  have hclosing := SocksConnection.closing (ho.reachable c)
  simp only [SocksConnection.Closing, hd] at hclosing
  have hhost := host_of_stuck hterm he hstuck h hclosing.1
  have hremote := remote_of_stuck hterm he hstuck hclosing.2.1
  -- the threads hold no reference, so the list of the server does
  have hlisted : c ∈ s.connections := by
    have howned := ho.owned c hc
    have hne : s.owners.count c + (s.conn c).held ≠ 0 := fun h0 => howned.mp h0 hd
    rw [SocksConnection.held_of_waits hhost hremote, Nat.add_zero] at hne
    have hmem : c ∈ s.owners := List.count_pos_iff.mp (Nat.pos_of_ne_zero hne)
    rcases mem_owners.mp hmem with hmem | hmem | hmem | hmem
    · exact hmem
    · rw [hq] at hmem
      cases hmem
    · exact absurd hmem.symm ha
    · rw [hl] at hmem
      cases hmem
  obtain ⟨hstart, hstop⟩ := (mem_connections h hm c).mp hlisted
  refine ⟨hlisted, fun hposted => ?_, hhost.imp_left fun hover => hover.resolve_left ?_, hremote⟩
  · rcases (ledger h c).stop_cases hdrop hexit hposted with
      hmem | hmem | hmem
    · rw [hq] at hmem
      cases hmem
    · rw [hl] at hmem
      cases hmem
    · exact hstop hmem
  · exact ((started h c).thread hstart).resolve_right hthread

/-- **Nothing is left undone at rest** while the server serves. -/
theorem atRest_of_stuck (h : machine.Reachable s) (hm : s.main.phase ≠ .ending) : s.AtRest := by
  have hfreed (c : ℕ) := freed_of_stuck (c := c) hterm he hstuck h hm
  have hb : s.destroying = none := by
    by_contra hne
    obtain ⟨c, hc⟩ := Option.ne_none_iff_exists'.mp hne
    obtain ⟨p, hp, hdone⟩ := (runs h).destroying c hc
    have hf := hfreed c (by rw [hp]; nofun)
    rw [SocksConnection.Freed, hp] at hf
    exact hdone (Option.some.inj hf)
  obtain ⟨hl, hq⟩ := main_of_stuck hterm he hstuck hb
  refine ⟨hl, hq, hb, fun ha => ?_, fun c hc => ?_⟩
  · have hone := acceptsOne h
    simp only [AcceptsOne, accepts, hl, hq, ha, MainPoint.phase, MainPoint.rearms] at hone
    cases hone
  · by_cases ha : s.accepting = some c
    · exact .inl ha
    · by_cases hd : (s.conn c).destructor = none
      · exact .inr (.inr (served_of_stuck hterm he hstuck h hl hq hc ha hd))
      · exact .inr (.inl (hfreed c hd))

end Stuck

/-- **The program comes to rest** while its peers are silent: no run of its own steps is infinite,
under every order, and where it has no step, it was terminated, or `main` has returned, or nothing
is left undone; or the server is being destroyed, and waits for a thread that waits for a peer. -/
theorem comes_to_rest (h : machine.Reachable s) :
    ¬ silent.Infinite s ∧
    (silent.Stuck s → s.terminated = true ∨ s.main = .exited ∨ s.AtRest ∨
      s.main.phase = .ending ∧
        ∃ c, s.destroying = some c ∧ ((s.conn c).HostWaits ∨ (s.conn c).RemoteWaits)) := by
  constructor
  · refine silent.not_infinite (P := machine.Reachable) (μ := work) ?_ h
    intro s a t hr hs
    obtain ⟨hown, ht⟩ := Machine.restrict_step_iff.mp hs
    obtain ⟨hterm, -, hsteps⟩ := step_cases ht
    refine ⟨hr.step ht, hsteps.work_lt (ownedBy hr) hterm ?_⟩
    rintro error stream rfl
    exact hown
  · intro hstuck
    refine or_iff_not_imp_left.mpr fun hterm => or_iff_not_imp_left.mpr fun he => ?_
    have hterm := Bool.eq_false_of_not_eq_true hterm
    by_cases hm : s.main.phase = .ending
    · refine .inr ⟨hm, ?_⟩
      cases hb : s.destroying with
      | none =>
        obtain ⟨hl, -⟩ := main_of_stuck hterm he hstuck hb
        rw [hl] at hm
        cases hm
      | some c =>
        obtain ⟨p, hp, hdone⟩ := (runs h).destroying c hb
        exact ⟨c, rfl, waits_of_stuck hterm he hstuck h hp hdone⟩
    · exact .inl (atRest_of_stuck hterm he hstuck h hm)

/-- The server with one connection, whose client is silent. -/
theorem comes_to_rest_serving : serving.AtRest := by
  have ho := ownedBy reachable_serving
  have hstuck : silent.Stuck serving := by
    refine Machine.stuck_restrict_iff.mpr fun a ha => Option.eq_none_iff_forall_ne_some.mpr ?_
    intro t ht
    obtain ⟨-, -, hs⟩ := step_cases (s := serving) (t := t) (a := a) ht
    cases hs with
    | server hb hs =>
      cases hs with
      | signal hm => exact ha
      | accepted hm hacc hx => exact ha
      | refused hm hacc => exact ha
      | runAccept hm hq => cases hq
      | runStart hm hq => cases hq
      | runStop hm hq => cases hq
      | _ hm => cases hm
    | @host c out x hx =>
      match c, ho.lt_of_host hx with
      | 0, _ => exact ha rfl
      | 1, _ => cases out <;> cases hx
    | @remote c out x hx =>
      match c, ho.lt_of_remote hx with
      | 0, _ => cases hx
      | 1, _ => cases hx
    | @destructor c x hx =>
      match c, ho.lt_of_destroy hx with
      | 0, _ => cases hx
      | 1, _ => cases hx
  rcases (comes_to_rest reachable_serving).2 hstuck with h | h | h | ⟨h, -⟩
  · cases h
  · cases h
  · exact h
  · cases h

end SocksServer

end LklSocks
