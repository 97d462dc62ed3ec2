import LklSocks.SocksConnection.Lifetime

/-!
# How the threads end

A thread of a connection ends in one of three ways: its call of `stopConnection` returns, it finds
that no strong reference is left, or its relay loop is left by an error other than EOF, which
calls nothing. An exception leaves `handshake` only out of its `catch (...)`. And a thread that
releases the last strong reference, at the end of its call of `stopConnection`, runs the destructor.

## Main definitions

* `SocksConnection.Posted`: a thread has posted a stop handler
* `SocksConnection.Returned`: a relay loop has returned
* `SocksConnection.Releasing`: a thread is about to release its reference for good
* `ConnectionAction.SilentExit`: a relay loop is left by an error other than EOF
* `ConnectionAction.Last`: a thread releases the last reference

## Main results

* `SocksConnection.Steps.posted_iff`: a stop handler is posted by a step of a call
* `SocksConnection.Steps.returned`: how a relay loop returns
* `SocksConnection.Steps.escaped`: how an exception leaves `handshake`
* `SocksConnection.Steps.runner`: how a destructor starts
-/

namespace LklSocks

/-- The handler of a call of `stopConnection` was posted. -/
def HasPosted (call : Option StopCall) : Prop := call ≠ none ∧ call ≠ some .argument

instance (call : Option StopCall) : Decidable (HasPosted call) :=
  inferInstanceAs (Decidable (_ ∧ _))

/-- A step of a call posts the handler if the call has its argument only. -/
theorem CallStep.hasPosted_iff {useCount : ℕ} {call call' : Option StopCall}
    (h : CallStep useCount call call') :
    HasPosted call' ↔ HasPosted call ∨ call = some .argument := by
  cases h with
  | none => simp [HasPosted]
  | share hu => simp [HasPosted]
  | next hc =>
    rename_i call next
    cases call with
    | argument =>
      obtain rfl : StopCall.posted = next := Option.some.inj hc
      simp [HasPosted]
    | posted =>
      have hne : next ≠ .argument := by
        rintro rfl
        simp only [StopCall.next, Option.some.injEq] at hc
        split at hc <;> cases hc
      simp [HasPosted, hne]
    | destroying => cases hc
    | done => cases hc

/-- A call reaches the destructor when it releases the last reference. -/
theorem CallStep.destroying {useCount : ℕ} {call : Option StopCall}
    (h : CallStep useCount call (some .destroying)) : call = some .posted ∧ useCount = 1 := by
  cases h with
  | next hc =>
    rename_i call
    cases call with
    | argument => cases hc
    | posted =>
      refine ⟨rfl, ?_⟩
      by_contra hne
      simp [StopCall.next, hne] at hc
    | destroying => cases hc
    | done => cases hc

/-- A call has its handler posted after a step only if it had before, or posts it. -/
theorem CallStep.posted {useCount : ℕ} {call : Option StopCall}
    (h : CallStep useCount call (some .posted)) : call = some .argument := by
  cases h with
  | next hc =>
    rename_i call
    cases call with
    | argument => rfl
    | posted =>
      simp only [StopCall.next, Option.some.injEq] at hc
      split at hc <;> cases hc
    | destroying => cases hc
    | done => cases hc

/-- How a relay loop returns: by an error other than EOF, with no strong reference left, or from
its call of `stopConnection`. -/
theorem Relay.Steps.finished {useCount : ℕ} {r r' : Relay} {out : Outcome}
    (h : r.Steps useCount out r') (hf : r'.point.Finished) :
    (∃ ec, ec ≠ .eof ∧ r.point = .caught ec) ∨ useCount = 0 ∨ HasPosted r.point.call := by
  cases h with
  | silent hp he => exact .inl ⟨_, he, hp⟩
  | expired hp hu => exact .inr (.inl hu)
  | stop hp hc =>
    rename_i call next
    obtain rfl : next = .done := hf
    refine .inr (.inr ?_)
    rw [hp]
    cases call with
    | argument => cases hc
    | _ => exact ⟨nofun, nofun⟩
  | write hp hw =>
    simp only at hf
    split at hf <;> exact hf.elim
  | share hp hu => cases hf
  | _ => exact hf.elim

/-- The call of `stopConnection` in which the thread that makes a step stands. -/
def ConnectionAction.call (c : SocksConnection) : ConnectionAction → Option StopCall
  | host _ _ => c.hostThread.call
  | remote _ _ => c.remoteThread.call
  | _ => none

/-- The step leaves a relay loop by an error other than EOF. -/
def ConnectionAction.SilentExit (c : SocksConnection) : ConnectionAction → Prop
  | host _ _ => ∃ ec, ec ≠ .eof ∧ c.hostThread = .relay (.caught ec)
  | remote _ _ => ∃ ec, ec ≠ .eof ∧ c.remoteThread = .relay (.caught ec)
  | _ => False

/-- A thread that makes the step finds that no strong reference is left. -/
def ConnectionAction.Expired : ConnectionAction → Prop
  | host useCount _ => useCount = 0
  | remote useCount _ => useCount = 0
  | _ => False

/-- The step releases the argument of a call of `stopConnection`, which is the last reference. -/
def ConnectionAction.Last (c : SocksConnection) : ConnectionAction → Prop
  | host useCount _ => useCount = 1 ∧ c.hostThread.call = some .posted
  | remote useCount _ => useCount = 1 ∧ c.remoteThread.call = some .posted
  | _ => False

namespace SocksConnection

variable {c c' : SocksConnection} {a : ConnectionAction}

/-- A thread of the connection has posted a stop handler. -/
def Posted (c : SocksConnection) : Prop :=
  HasPosted c.hostThread.call ∨ HasPosted c.remoteThread.call

/-- `receiveHost` has returned. -/
def HostReturned (c : SocksConnection) : Prop := ∃ p, c.hostThread = .relay p ∧ p.Finished

/-- `receiveHost` or `receiveRemote` has returned. -/
def Returned (c : SocksConnection) : Prop := c.HostReturned ∨ c.remoteThread.Finished

/-- The destructor does not touch the threads. -/
theorem DestroySteps.threads {runner : Runner} (hs : c.DestroySteps runner c') :
    c'.hostThread = c.hostThread ∧ c'.remoteThread = c.remoteThread := by
  cases hs <;> exact ⟨rfl, rfl⟩

theorem DestroySteps.destructor_ne {runner : Runner} (hs : c.DestroySteps runner c') :
    c'.destructor ≠ none := by
  cases hs <;> nofun

theorem releaseHost_threads (c : SocksConnection) :
    c.releaseHost.hostThread = c.hostThread ∧ c.releaseHost.remoteThread = c.remoteThread := by
  obtain ⟨_, -, he⟩ := c.releaseHost_eq
  rw [he]
  exact ⟨rfl, rfl⟩

theorem releaseRemote_threads (c : SocksConnection) :
    c.releaseRemote.hostThread = c.hostThread ∧ c.releaseRemote.remoteThread = c.remoteThread := by
  obtain ⟨_, -, he⟩ := c.releaseRemote_eq
  rw [he]
  exact ⟨rfl, rfl⟩

/-- A stop handler is posted by a step of a call of `stopConnection`, and only so. -/
theorem Steps.posted_iff (hf : c.Framed) (hs : c.Steps a c') :
    c'.Posted ↔ c.Posted ∨ a.call c = some .argument := by
  unfold Posted
  cases hs with
  | accept ho hd => simp [ConnectionAction.call]
  | start hp hd => simp [ConnectionAction.call, hp, HostPoint.call]
  | host hu hs =>
    rename_i useCount out d
    obtain ⟨hcall, hremote, -⟩ := hs.call hf
    rw [d.releaseHost_threads.1, d.releaseHost_threads.2, hremote, hcall.hasPosted_iff]
    exact or_right_comm
  | remote hu hq hs =>
    rename_i useCount out q r
    have hcall := remoteStep_call hq hs
    rw [(c.relayedRemote r).releaseRemote_threads.1, (c.relayedRemote r).releaseRemote_threads.2,
      hcall.hasPosted_iff]
    exact or_assoc.symm
  | destroy hd => simp [ConnectionAction.call]
  | destructor hs =>
    rw [hs.threads.1, hs.threads.2]
    simp [ConnectionAction.call]

/-- A destructor that has started stays so. -/
theorem Steps.destructor_ne (hf : c.Framed) (hs : c.Steps a c') (hd : c.destructor ≠ none) :
    c'.destructor ≠ none := by
  cases hs with
  | accept ho hd' => exact absurd hd' hd
  | start hp hd' => exact absurd hd' hd
  | host hu hs =>
    rename_i useCount out d
    obtain ⟨-, -, hdtor⟩ := hs.call hf
    obtain ⟨e, he, heq⟩ := d.releaseHost_eq
    rw [heq]
    rcases he with rfl | rfl
    · exact hdtor ▸ hd
    · nofun
  | remote hu hq hs =>
    rename_i useCount out q r
    obtain ⟨e, he, heq⟩ := (c.relayedRemote r).releaseRemote_eq
    rw [heq]
    rcases he with rfl | rfl
    · exact hd
    · nofun
  | destroy hd' => exact absurd hd' hd
  | destructor hs => exact hs.destructor_ne

/-- A stop handler was posted for the connection, or its destructor has started. -/
def Announced (c : SocksConnection) : Prop := c.Posted ∨ c.destructor ≠ none

theorem Steps.announced (hf : c.Framed) (hs : c.Steps a c') (h : c.Announced) : c'.Announced := by
  rcases h with hp | hd
  · exact .inl ((hs.posted_iff hf).mpr (.inl hp))
  · exact .inr (hs.destructor_ne hf hd)

/-- How a relay loop of a connection returns. -/
theorem Steps.returned (hs : c.Steps a c') (hr : c'.Returned) :
    c.Returned ∨ a.SilentExit c ∨ a.Expired ∨ c.Posted := by
  cases hs with
  | accept ho hd => exact .inl hr
  | start hp hd =>
    rcases hr with ⟨p, hp', -⟩ | hr
    · cases hp'
    · exact .inl (.inr hr)
  | host hu hs =>
    rename_i useCount out d
    unfold Returned HostReturned at hr
    rw [d.releaseHost_threads.1, d.releaseHost_threads.2] at hr
    cases hs with
    | relay hp hs =>
      rcases hr with ⟨p, hp', hfin⟩ | hr
      · obtain rfl := HostPoint.relay.inj hp'
        rcases hs.finished hfin with ⟨ec, he, hec⟩ | hzero | hposted
        · exact .inr (.inl ⟨ec, he, hp.trans (congrArg _ hec)⟩)
        · exact .inr (.inr (.inl hzero))
        · refine .inr (.inr (.inr (.inl ?_)))
          rw [hp]
          exact hposted
      · exact .inl (.inr hr)
    | startRemote hp =>
      rcases hr with ⟨p, hp', hfin⟩ | hr
      · obtain rfl := HostPoint.relay.inj hp'
        exact hfin.elim
      · exact hr.elim
    | endReply hp hw hlast =>
      rename_i code rest n
      rcases hr with ⟨p, hp', -⟩ | hr
      · cases code <;> cases hp'
      · exact .inl (.inr hr)
    | _ =>
      rcases hr with ⟨p, hp', -⟩ | hr
      · cases hp'
      · exact .inl (.inr hr)
  | remote hu hq hs =>
    rename_i useCount out q r
    unfold Returned HostReturned at hr
    rw [(c.relayedRemote r).releaseRemote_threads.1, (c.relayedRemote r).releaseRemote_threads.2]
      at hr
    rcases hr with hr | hfin
    · exact .inl (.inl hr)
    · rcases hs.finished hfin with ⟨ec, he, hec⟩ | hzero | hposted
      · exact .inr (.inl ⟨ec, he, hq.trans (congrArg _ hec)⟩)
      · exact .inr (.inr (.inl hzero))
      · refine .inr (.inr (.inr (.inr ?_)))
        rw [hq]
        exact hposted
  | destroy hd => exact .inl hr
  | destructor hs =>
    unfold Returned HostReturned at hr
    rw [hs.threads.1, hs.threads.2] at hr
    exact .inl hr

/-- A silent exit returns from a relay loop, and changes neither the posted handlers nor the
destructor. -/
theorem Steps.of_silentExit (hs : c.Steps a c') (he : a.SilentExit c) :
    c'.Returned ∧ c'.destructor = c.destructor ∧ a.call c = none := by
  cases hs with
  | host hu hs =>
    obtain ⟨ec, hne, hp⟩ := he
    cases hs with
    | relay hp' hs =>
      obtain rfl := HostPoint.relay.inj (hp.symm.trans hp')
      cases hs with
      | silent hc hne' =>
        refine ⟨.inl ⟨.returned, ?_, trivial⟩, ?_, ?_⟩
        · rw [(relayedHost _ _).releaseHost_threads.1]
          rfl
        · rw [releaseHost_of_ne (by simp [relayedHost, HostPoint.call, RelayPoint.call])]
          rfl
        · simp [ConnectionAction.call, hp, HostPoint.call, RelayPoint.call]
      | eof hc =>
        obtain rfl := RelayPoint.caught.inj hc
        exact absurd rfl hne
      | _ hc => cases hc
    | _ hp' => cases hp.symm.trans hp'
  | remote hu hq hs =>
    obtain ⟨ec, hne, hp⟩ := he
    obtain rfl := RemotePoint.relay.inj (hp.symm.trans hq)
    cases hs with
    | silent hc hne' =>
      refine ⟨.inr ?_, ?_, ?_⟩
      · rw [(relayedRemote _ _).releaseRemote_threads.2]
        trivial
      · rw [releaseRemote_of_ne (by simp [relayedRemote, RemotePoint.call, RelayPoint.call])]
        rfl
      · simp [ConnectionAction.call, hp, RemotePoint.call, RelayPoint.call]
    | eof hc =>
      obtain rfl := RelayPoint.caught.inj hc
      exact absurd rfl hne
    | _ hc => cases hc
  | _ => exact he.elim

/-- An exception leaves `handshake` only when its `catch (...)` finds that no strong reference is
left. -/
theorem Steps.escaped (hs : c.Steps a c') (he : c'.hostThread = .escaped) :
    c.hostThread = .escaped ∨
      ∃ useCount out, a = .host useCount out ∧ useCount = 0 ∧ c.hostThread = .catchAll := by
  cases hs with
  | accept ho hd => exact .inl he
  | start hp hd => cases he
  | host hu hs =>
    rename_i useCount out d
    rw [d.releaseHost_threads.1] at he
    cases hs with
    | expired hp hu' => exact .inr ⟨useCount, .ok, rfl, hu', hp⟩
    | endReply hp hw hlast =>
      rename_i code rest n
      cases code <;> cases he
    | _ => cases he
  | remote hu hq hs =>
    rename_i useCount out q r
    rw [(c.relayedRemote r).releaseRemote_threads.1] at he
    exact .inl he
  | destroy hd => exact .inl he
  | destructor hs => exact .inl (hs.threads.1 ▸ he)

theorem Steps.of_expired {out : Outcome} (hs : c.Steps (.host 0 out) c')
    (hp : c.hostThread = .catchAll) : c'.hostThread = .escaped := by
  cases hs with
  | host hu hs =>
    cases hs with
    | expired hp' hu' => rfl
    | share hp' hu' => exact absurd rfl hu'
    | _ hp' => cases hp.symm.trans hp'

/-! ## The last reference -/

/-- A thread has posted its stop handler and not yet released the argument of the call, and the
other thread is not about to post one. -/
def Releasing (c : SocksConnection) : Prop :=
  (c.hostThread.call = some .posted ∨ c.remoteThread.call = some .posted) ∧
    c.hostThread.call ≠ some .argument ∧ c.remoteThread.call ≠ some .argument

instance (c : SocksConnection) : Decidable c.Releasing :=
  inferInstanceAs (Decidable (_ ∧ _ ∧ _))

/-- A thread gets to the release of its reference only by posting a handler. -/
theorem Steps.releasing (hf : c.Framed) (hs : c.Steps a c') (hr : c'.Releasing) :
    c.Releasing ∨ a.call c = some .argument := by
  cases hs with
  | accept ho hd => exact .inl hr
  | start hp hd =>
    obtain ⟨hposted, -, hremote⟩ := hr
    refine .inl ⟨.inr (hposted.resolve_left nofun), ?_, hremote⟩
    rw [hp]
    nofun
  | host hu hs =>
    rename_i useCount out d
    obtain ⟨hcall, hremote, -⟩ := hs.call hf
    by_cases harg : c.hostThread.call = some .argument
    · exact .inr harg
    · unfold Releasing at hr
      rw [d.releaseHost_threads.1, d.releaseHost_threads.2, hremote] at hr
      obtain ⟨hposted, -, hr⟩ := hr
      refine .inl ⟨.inr (hposted.resolve_left fun hp => harg ?_), harg, hr⟩
      rw [hp] at hcall
      exact hcall.posted
  | remote hu hq hs =>
    rename_i useCount out q r
    have hcall := remoteStep_call hq hs
    by_cases harg : c.remoteThread.call = some .argument
    · exact .inr harg
    · unfold Releasing at hr
      rw [(c.relayedRemote r).releaseRemote_threads.1,
        (c.relayedRemote r).releaseRemote_threads.2] at hr
      obtain ⟨hposted, hh, -⟩ := hr
      refine .inl ⟨.inl (hposted.resolve_right fun hp => harg ?_), hh, harg⟩
      rw [hp] at hcall
      exact hcall.posted
  | destroy hd => exact .inl hr
  | destructor hs =>
    unfold Releasing at hr
    rw [hs.threads.1, hs.threads.2] at hr
    exact .inl hr

/-- A destructor is run by the main thread, or it ran before, or the step releases the last
reference. -/
theorem Steps.runner {runner : Runner} {point : DtorPoint} (hf : c.Framed) (hs : c.Steps a c')
    (hd : c'.destructor = some (runner, point)) :
    runner = .main ∨ (∃ p, c.destructor = some (runner, p)) ∨ a.Last c := by
  cases hs with
  | accept ho hd' => exact .inr (.inl ⟨point, hd⟩)
  | start hp hd' => exact .inr (.inl ⟨point, hd⟩)
  | host hu hs =>
    rename_i useCount out d
    obtain ⟨hcall, -, hdtor⟩ := hs.call hf
    unfold releaseHost at hd
    split at hd
    · next hlast =>
      rw [hlast] at hcall
      exact .inr (.inr ⟨hcall.destroying.2, hcall.destroying.1⟩)
    · exact .inr (.inl ⟨point, hdtor ▸ hd⟩)
  | remote hu hq hs =>
    rename_i useCount out q r
    have hcall := remoteStep_call hq hs
    unfold releaseRemote at hd
    split at hd
    · next hlast =>
      rw [hlast] at hcall
      exact .inr (.inr ⟨hcall.destroying.2, hcall.destroying.1⟩)
    · exact .inr (.inl ⟨point, hd⟩)
  | destroy hd' =>
    obtain ⟨rfl, -⟩ := Prod.mk.inj (Option.some.inj hd)
    exact .inl rfl
  | destructor hs =>
    refine .inr (.inl ?_)
    cases hs with
    | _ hd' =>
      obtain ⟨rfl, -⟩ := Prod.mk.inj (Option.some.inj hd)
      exact ⟨_, hd'⟩

theorem hostThread_of_call {call : StopCall} (hp : c.hostThread.call = some call) :
    c.hostThread = .stop call ∨ c.hostThread = .relay (.stop call) := by
  cases hh : c.hostThread with
  | stop k =>
    rw [hh] at hp
    exact .inl (congrArg HostPoint.stop (Option.some.inj hp))
  | relay point =>
    rw [hh] at hp
    cases point with
    | stop k => exact .inr (congrArg (HostPoint.relay ∘ RelayPoint.stop) (Option.some.inj hp))
    | _ => cases hp
  | _ =>
    rw [hh] at hp
    cases hp

theorem remoteThread_of_call {call : StopCall} (hp : c.remoteThread.call = some call) :
    c.remoteThread = .relay (.stop call) := by
  cases hh : c.remoteThread with
  | idle =>
    rw [hh] at hp
    cases hp
  | relay point =>
    rw [hh] at hp
    cases point with
    | stop k => exact congrArg (RemotePoint.relay ∘ RelayPoint.stop) (Option.some.inj hp)
    | _ => cases hp

/-- The release of the argument by the host thread, when `useCount` references exist. -/
theorem hostStep_release (useCount : ℕ) (hp : c.hostThread.call = some .posted) :
    ∃ x, c.hostStep useCount .ok = some x ∧ x.remoteThread = c.remoteThread ∧
      (useCount = 1 → x.destructor = some (.host, .closeRemote)) ∧
      (useCount ≠ 1 → x.hostThread.call = some .done) := by
  by_cases hu : useCount = 1 <;> rcases hostThread_of_call hp with hp | hp <;>
    simp [hostStep, handshake, receiveHost, Relay.step, relayedHost, releaseHost, hp, hu,
      StopCall.next, HostPoint.call, RelayPoint.call]

/-- The release of the argument by the remote thread, when it is the last reference. -/
theorem remoteStep_release (hp : c.remoteThread.call = some .posted) :
    ∃ x, c.remoteStep 1 .ok = some x ∧ x.destructor = some (.remote, .closeRemote) := by
  simp [remoteStep, receiveRemote, Relay.step, relayedRemote, releaseRemote,
    remoteThread_of_call hp, StopCall.next, RemotePoint.call, RelayPoint.call]

end SocksConnection

end LklSocks
