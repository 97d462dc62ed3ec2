import LklSocks.Lkl.Descriptors

/-!
# The data of the reactor

The calls that register a descriptor with the reactor are commented out, so no implementation ever
has registered data. The calls of `cancel_ops` and `start_op` are still there and hand the data to
the reactor. A run is without a breach exactly if none of its steps gets that far.

## Main definitions

* `Lkl.ServiceEvent.Valid`: the reactor gets registered data, if it gets any
* `Lkl.SocketService.RegisteredWhenOpen`: the data of the open implementations is registered
* `Lkl.SocketService.Opens`, `Lkl.SocketService.Reaches`: an operation opens an implementation, or
  reaches the reactor

## Main results

* `Lkl.SocketService.unregistered_of_reachable`: no data is ever registered
* `Lkl.SocketService.Performs.handsOver`: what an operation hands to the reactor
* `Lkl.SocketService.reactor_data_valid_iff`: the runs in which the reactor gets valid data
-/

namespace LklSocks

namespace Lkl

open ErrorCode

variable {δ : Type} {reactor : Reactor δ}

/-! ## One implementation -/

/-- The descriptor and the data that an event hands to the reactor. -/
def ServiceEvent.reactorUse : ServiceEvent δ → Option (ℤ × δ)
  | cancelOps d data => some (d, data)
  | startOp _ d data => some (d, data)
  | _ => none

open ServiceEvent

theorem Closes.reactorUse {x : Option ℤ} {events : List (ServiceEvent δ)} (h : Closes x events) :
    events.filterMap ServiceEvent.reactorUse = [] := by
  cases h with
  | nothing => rfl
  | once d r => rfl
  | again d r hr => rfl

namespace Impl

variable {x y : Impl δ} {p : ℤ → Prop}

/-- The socket does not block, or `lkl_ioctl` puts it into this mode with the result `r`. -/
def GoesNonBlocking (x : Impl δ) (r : ℤ) : Prop :=
  HasBits x.state nonBlocking ∨ x.IsOpen ∧ 0 ≤ toInt (call 0 r).1

/-- A connect with the result `r` of `lkl_connect` is under way. -/
def ConnectPending (x : Impl δ) (r : ℤ) : Prop :=
  (Lkl.connect 0 x.socket r).1 ≠ 0 ∧
    ((Lkl.connect 0 x.socket r).2 = inProgress ∨ (Lkl.connect 0 x.socket r).2 = wouldBlock)

instance (x : Impl δ) (r : ℤ) : Decidable (x.GoesNonBlocking r) :=
  inferInstanceAs (Decidable (_ ∨ _))

instance (x : Impl δ) (r : ℤ) : Decidable (x.ConnectPending r) :=
  inferInstanceAs (Decidable (_ ∧ _))

theorem Effect.reactorUse {events : List (ServiceEvent δ)} (h : Effect p x y events) :
    events.filterMap ServiceEvent.reactorUse = [] := by
  cases h with
  | keep hy => rfl
  | take hx hy hd => rfl
  | close hy he => exact he.reactorUse

theorem setInternalNonBlocking_fst (x : Impl δ) (r : ℤ) :
    (setInternalNonBlocking 0 x.socket x.state true r).1 = true ↔
      x.IsOpen ∧ 0 ≤ toInt (call 0 r).1 := by
  unfold setInternalNonBlocking IsOpen
  by_cases hs : x.socket = invalidSocket
  · simp [hs]
  · by_cases hr : 0 ≤ toInt (call 0 r).1 <;> simp [hs, hr]

/-- The data that an operation hands to the reactor under the condition `p`. -/
def HandsOver (x : Impl δ) (p : Prop) (events : List (ServiceEvent δ)) : Prop :=
  p ∧ events.filterMap ServiceEvent.reactorUse = [(x.socket, x.reactorData)] ∨
    ¬ p ∧ events.filterMap ServiceEvent.reactorUse = []

theorem cancel_handsOver (x : Impl δ) : x.HandsOver x.IsOpen x.cancel.events := by
  unfold cancel
  by_cases hx : x.IsOpen
  · rw [if_neg (not_not.mpr hx)]
    exact .inl ⟨hx, rfl⟩
  · rw [if_pos hx]
    exact .inr ⟨hx, rfl⟩

theorem startOp_handsOver (x : Impl δ) (type : OpType) (noop : Bool) (r : ℤ) :
    x.HandsOver (noop = false ∧ x.GoesNonBlocking r) (x.startOp type noop r).events := by
  unfold startOp
  by_cases hnoop : noop = false
  · rw [if_pos hnoop]
    by_cases hbits : HasBits x.state nonBlocking
    · rw [if_pos hbits]
      exact .inl ⟨⟨hnoop, .inl hbits⟩, rfl⟩
    · rw [if_neg hbits]
      have hfst := x.setInternalNonBlocking_fst r
      by_cases hok : (setInternalNonBlocking 0 x.socket x.state true r).1 = true
      · simp only [if_pos hok]
        exact .inl ⟨⟨hnoop, .inr (hfst.mp hok)⟩, rfl⟩
      · simp only [if_neg hok]
        refine .inr ⟨?_, rfl⟩
        rintro ⟨-, hgoes⟩
        exact hok (hfst.mpr (hgoes.resolve_left hbits))
  · rw [if_neg hnoop]
    exact .inr ⟨fun h => hnoop h.1, rfl⟩

theorem startAcceptOp_handsOver (x : Impl δ) (peerIsOpen : Bool) (r : ℤ) :
    x.HandsOver (peerIsOpen = false ∧ x.GoesNonBlocking r)
      (x.startAcceptOp peerIsOpen r).events := by
  unfold startAcceptOp
  by_cases hpeer : peerIsOpen = false
  · rw [if_pos hpeer]
    rcases x.startOp_handsOver .read false r with ⟨⟨-, hgoes⟩, he⟩ | ⟨hnot, he⟩
    · exact .inl ⟨⟨hpeer, hgoes⟩, he⟩
    · exact .inr ⟨fun h => hnot ⟨rfl, h.2⟩, he⟩
  · rw [if_neg hpeer]
    exact .inr ⟨fun h => hpeer h.1, rfl⟩

theorem connectOp_handsOver (x : Impl δ) (r : ℤ) :
    x.HandsOver (x.ConnectPending r) (x.connectOp r).events := by
  unfold connectOp
  by_cases hpending : x.ConnectPending r
  · simp only [if_pos (show _ ∧ _ from hpending)]
    exact .inl ⟨hpending, rfl⟩
  · simp only [if_neg (show ¬ (_ ∧ _) from hpending)]
    exact .inr ⟨hpending, rfl⟩

theorem startConnectOp_handsOver (x : Impl δ) (r connect : ℤ) :
    x.HandsOver (x.GoesNonBlocking r ∧ x.ConnectPending connect)
      (x.startConnectOp r connect).events := by
  have hconnect (state : UInt8) (hgoes : x.GoesNonBlocking r) :
      x.HandsOver (x.GoesNonBlocking r ∧ x.ConnectPending connect)
        (connectOp { x with state := state } connect).events := by
    rcases connectOp_handsOver { x with state := state } connect with ⟨hpending, he⟩ | ⟨hnot, he⟩
    · exact .inl ⟨⟨hgoes, hpending⟩, he⟩
    · exact .inr ⟨fun h => hnot h.2, he⟩
  unfold startConnectOp
  by_cases hbits : HasBits x.state nonBlocking
  · rw [if_pos hbits]
    exact hconnect x.state (.inl hbits)
  · rw [if_neg hbits]
    have hfst := x.setInternalNonBlocking_fst r
    by_cases hok : (setInternalNonBlocking 0 x.socket x.state true r).1 = true
    · simp only [if_pos hok]
      exact hconnect _ (.inr (hfst.mp hok))
    · simp only [if_neg hok]
      refine .inr ⟨?_, rfl⟩
      rintro ⟨hgoes, -⟩
      exact hok (hfst.mpr (hgoes.resolve_left hbits))

end Impl

/-! ## The operations that reach the reactor -/

namespace SocketService

variable {s t : SocketService δ} {evs : List (ServiceEvent δ)} {a : ServiceAction} {i : ℕ} {d : ℤ}

/-- The operation gives a descriptor to an implementation that has none. -/
def Opens (s : SocketService δ) : ServiceAction → Prop
  | .openSocket i _ r => (∃ x ∈ s.impl i, ¬ x.IsOpen) ∧ 0 ≤ r
  | .assign i _ d => (∃ x ∈ s.impl i, ¬ x.IsOpen) ∧ d ≠ invalidSocket
  | _ => False

/-- The operation gets to `cancel_ops` or to `start_op`. -/
def Reaches (s : SocketService δ) : ServiceAction → Prop
  | .cancel i => ∃ x ∈ s.impl i, x.IsOpen
  | .startOp i _ noop r => ∃ x ∈ s.impl i, noop = false ∧ x.GoesNonBlocking r
  | .startAcceptOp i peerIsOpen r => ∃ x ∈ s.impl i, peerIsOpen = false ∧ x.GoesNonBlocking r
  | .startConnectOp i r connect =>
    ∃ x ∈ s.impl i, x.GoesNonBlocking r ∧ x.ConnectPending connect
  | _ => False

/-- An operation that reaches the reactor hands the descriptor and the data of one implementation
to it, and the others hand over nothing. -/
def HandsOver (s : SocketService δ) (p : Prop) (evs : List (ServiceEvent δ)) : Prop :=
  (p ∧ ∃ i x, s.impl i = some x ∧ evs.filterMap reactorUse = [(x.socket, x.reactorData)]) ∨
    ¬ p ∧ evs.filterMap reactorUse = []

theorem HandsOver.of_impl {x : Impl δ} {p : Impl δ → Prop} (hi : s.impl i = some x)
    (h : x.HandsOver (p x) evs) : s.HandsOver (∃ y ∈ s.impl i, p y) evs := by
  rcases h with ⟨hp, huse⟩ | ⟨hp, huse⟩
  · exact .inl ⟨⟨x, hi, hp⟩, i, x, hi, huse⟩
  · refine .inr ⟨?_, huse⟩
    rintro ⟨y, hy, hp'⟩
    obtain rfl := Option.some.inj (hi.symm.trans hy)
    exact hp hp'

/-- What an operation hands to the reactor. -/
theorem Performs.handsOver (h : s.Performs reactor a t evs) : s.HandsOver (s.Reaches a) evs := by
  cases h with
  | construct => exact .inr ⟨id, rfl⟩
  | @openSocket i protocol r x hr hi =>
    have hrange : r < 0 ∨ r < 2 ^ 31 ∧ True := hr.imp_right fun hr => ⟨hr.1, trivial⟩
    exact .inr ⟨id, (x.openSocket_effect (p := fun _ => True) protocol hrange).1.reactorUse⟩
  | @assign i protocol d x hd hi =>
    exact .inr ⟨id, (x.assign_effect (p := fun _ => True) protocol fun _ => trivial).reactorUse⟩
  | @accept i peer rounds x y result hr hi hpeer h =>
    have hrange : ∀ q ∈ rounds, q.1 < 0 ∨ q.1 < 2 ^ 31 ∧ True :=
      fun q hq => (hr q hq).imp_right fun hr => ⟨hr.1, trivial⟩
    exact .inr ⟨id, (Impl.accept_effect (p := fun _ => True) hrange h).1.reactorUse⟩
  | @close i calls x hi => exact .inr ⟨id, (x.close_effect (p := fun _ => True) calls).reactorUse⟩
  | moveConstruct hother => exact .inr ⟨id, rfl⟩
  | @moveAssignSelf i calls x hi => exact .inr ⟨id, (x.destroy_closes calls).reactorUse⟩
  | @moveAssign i other calls x y hne hi hother =>
    exact .inr ⟨id, (x.destroy_closes calls).reactorUse⟩
  | @destroy i calls x hi => exact .inr ⟨id, (x.destroy_closes calls).reactorUse⟩
  | @call a i f x ha hi =>
    cases ha with
    | cancel => exact .of_impl hi x.cancel_handsOver
    | startOp i type noop r => exact .of_impl hi (x.startOp_handsOver type noop r)
    | startAcceptOp i peerIsOpen r => exact .of_impl hi (x.startAcceptOp_handsOver peerIsOpen r)
    | startConnectOp i r connect => exact .of_impl hi (x.startConnectOp_handsOver r connect)
    | setNonBlocking i mode r => exact .inr ⟨id, rfl⟩
    | setNativeNonBlocking i mode r => exact .inr ⟨id, rfl⟩
    | setOption i option r => exact .inr ⟨id, rfl⟩

/-! ## The data in every run -/

/-- No implementation has registered data. -/
def Unregistered (reactor : Reactor δ) (s : SocketService δ) : Prop :=
  ∀ i x, s.impl i = some x → ∀ d, ¬ reactor.Registered x.reactorData d

theorem Unregistered.inherits (h : s.Unregistered reactor) {x : Impl δ} (hi : s.impl i = some x)
    {data : δ} (hdata : reactor.Inherits data x.reactorData) (d : ℤ) :
    ¬ reactor.Registered data d :=
  fun hd => h i x hi d (hdata d hd)

theorem Unregistered.set (h : s.Unregistered reactor) {x : Option (Impl δ)}
    (hx : ∀ y, x = some y → ∀ d, ¬ reactor.Registered y.reactorData d) :
    (s.set i x).Unregistered reactor := by
  intro j y hj
  by_cases hji : j = i
  · rw [hji, set_impl, Function.update_self] at hj
    exact hx y hj
  · rw [set_impl, Function.update_of_ne hji] at hj
    exact h j y hj

theorem Unregistered.create (h : s.Unregistered reactor) {x : Impl δ}
    (hx : ∀ d, ¬ reactor.Registered x.reactorData d) : (s.create x).Unregistered reactor := by
  intro j y hj
  by_cases hji : j = s.next
  · rw [hji, create_impl, Function.update_self] at hj
    obtain rfl := Option.some.inj hj
    exact hx
  · rw [create_impl, Function.update_of_ne hji] at hj
    exact h j y hj

theorem Steps.unregistered (h : s.Steps reactor t evs) (hs : s.Unregistered reactor) :
    t.Unregistered reactor := by
  have hinherits {i : ℕ} {x : Impl δ} (hi : s.impl i = some x) {y : Impl δ}
      (hdata : reactor.Inherits y.reactorData x.reactorData) :
      ∀ z, some y = some z → ∀ d, ¬ reactor.Registered z.reactorData d := by
    intro z hz
    obtain rfl := Option.some.inj hz
    exact hs.inherits hi hdata
  cases h with
  | construct hx hdata => exact hs.create (hdata ▸ reactor.not_registered_fresh)
  | operate hi hdata he => exact hs.set (hinherits hi hdata)
  | keep hi h => exact hs.set (hinherits hi (.of_eq h.reactorData_eq))
  | moveConstruct hother hx hy hdata hdata' =>
    exact (hs.set (hinherits hother hdata')).create (hs.inherits hother hdata)
  | moveAssign hne hi hother hx hy hdata hdata' he =>
    exact (hs.set (hinherits hother hdata)).set (hinherits hother hdata')
  | destroy hi he => exact hs.set nofun

/-- **No data is ever registered.** -/
theorem unregistered_of_reachable (h : (machine reactor).Reachable s) : s.Unregistered reactor := by
  refine h.invariant (P := fun s => s.Unregistered reactor) ?_ ?_
  · rintro _ rfl
    nofun
  · intro s a t hr hs h
    exact (steps_of_step hr h).unregistered hs

/-- The data of the open implementations is registered for their descriptors. -/
def RegisteredWhenOpen (reactor : Reactor δ) (s : SocketService δ) : Prop :=
  ∀ i x, s.impl i = some x → x.IsOpen → reactor.Registered x.reactorData x.socket

/-- Without registered data, the open implementations are in breach. -/
theorem registeredWhenOpen_iff (hs : s.Unregistered reactor) :
    s.RegisteredWhenOpen reactor ↔ ∀ d, ¬ Ownership.Held s.owners d := by
  constructor
  · rintro h d ⟨i, hi⟩
    obtain ⟨x, hx, hopen, -⟩ := owners_eq_some.mp hi
    exact hs i x hx x.socket (h i x hx hopen)
  · intro h i x hx hopen
    exact absurd ⟨i, owners_eq_some.mpr ⟨x, hx, hopen, rfl⟩⟩ (h x.socket)

end SocketService

/-- What the event hands to the reactor is registered for the descriptor of an open
implementation. -/
def ServiceEvent.Valid (reactor : Reactor δ) (s : SocketService δ) (e : ServiceEvent δ) : Prop :=
  ∀ d data, e.reactorUse = some (d, data) → reactor.Registered data d ∧ ∃ i, s.Holds i d

namespace SocketService

variable {s t : SocketService δ} {evs : List (ServiceEvent δ)} {a : ServiceAction} {d : ℤ}

/-! ## The runs without a breach -/

/-- While no implementation is open, an operation that obtains a descriptor opens one. -/
theorem Performs.opens (h : s.Performs reactor a t evs) (hs : ∀ d, ¬ Ownership.Held s.owners d)
    (hd : .obtained d ∈ evs) : s.Opens a := by
  obtain ⟨i, ho⟩ := h.obtains hd
  cases ho with
  | openSocket hi hx hd => exact ⟨⟨_, hi, hx⟩, hd⟩
  | assign hi hx hd => exact ⟨⟨_, hi, hx⟩, hd⟩
  | accept hi hpeer hx hy hagain hd =>
    -- an accept needs an open implementation
    exact absurd ⟨_, owners_eq_some.mpr ⟨_, hi, hx, rfl⟩⟩ (hs _)

/-- An operation that opens an implementation obtains a descriptor. -/
theorem Performs.exists_obtained (h : s.Performs reactor a t evs) (ha : s.Opens a) :
    ∃ d, .obtained d ∈ evs := by
  cases a with
  | openSocket i protocol r =>
    obtain ⟨⟨x, hi, hx⟩, hr⟩ := ha
    exact ⟨r, (h.of_obtains (.openSocket hi hx hr)).1⟩
  | assign i protocol d =>
    obtain ⟨⟨x, hi, hx⟩, hd⟩ := ha
    exact ⟨d, (h.of_obtains (.assign hi hx hd)).1⟩
  | _ => exact ha.elim

theorem held_after_opens (hs : (machine reactor).Reachable s)
    (h : (machine reactor).step s a = some t) (ha : s.Opens a) :
    ∃ d, Ownership.Held t.owners d := by
  obtain ⟨d, hd⟩ := (performs_of_step h).exists_obtained ha
  have htaken := taken_mem_iff.mpr hd
  rcases (steps_of_step hs h).owned (numbered_of_reachable hs) with ⟨-, hevents⟩ | ⟨b, hb, hevents⟩
  · rw [hevents] at htaken
    cases htaken
  · exact ⟨d, Ownership.held_of_taken hb (hevents ▸ htaken)⟩

/-- While no implementation is open, only an operation that opens one changes that. -/
theorem not_held_after (hs : (machine reactor).Reachable s)
    (h : (machine reactor).step s a = some t) (ha : ¬ s.Opens a)
    (hnone : ∀ d, ¬ Ownership.Held s.owners d) (d : ℤ) : ¬ Ownership.Held t.owners d := by
  intro hd
  have howned := (steps_of_step hs h).owned (numbered_of_reachable hs)
  rcases howned with ⟨howners, -⟩ | ⟨b, hb, hevents⟩
  · exact hnone d (howners ▸ hd)
  · have htaken := (Ownership.held_or_taken hb hd).resolve_left (hnone d)
    rw [hevents] at htaken
    exact ha ((performs_of_step h).opens hnone (taken_mem_iff.mp htaken))

/-- The data of the open implementations is registered in every state of a run exactly if the run
opens none. -/
theorem registeredWhenOpen_iff_takes (reactor : Reactor δ) (as : List ServiceAction) :
    (∀ t, (machine reactor).Visits empty as t → t.RegisteredWhenOpen reactor) ↔
      ∀ t a u, (machine reactor).Takes empty as t a u → ¬ t.Opens a := by
  have hinit : (machine reactor).init empty := rfl
  have hiff {t : SocketService δ} (ht : (machine reactor).Visits empty as t) :=
    registeredWhenOpen_iff (unregistered_of_reachable (ht.reachable hinit))
  refine Machine.visits_iff_takes ?_ ?_ ?_
  · nofun
  · intro t a u hT ht ha
    have hnone := (hiff hT.visits_left).mp ht
    exact (hiff hT.visits_right).mpr
      (not_held_after (hT.visits_left.reachable hinit) hT.step_eq ha hnone)
  · intro t a u hT hu ha
    obtain ⟨d, hd⟩ := held_after_opens (hT.visits_left.reachable hinit) hT.step_eq ha
    exact (hiff hT.visits_right).mp hu d hd

/-- Everything that the steps of a run hand to the reactor is valid exactly if none of them reaches
it. -/
theorem valid_iff_takes (reactor : Reactor δ) (as : List ServiceAction) :
    (∀ t a u, (machine reactor).Takes empty as t a u →
        ∀ e ∈ t.events reactor a, e.Valid reactor t) ↔
      ∀ t a u, (machine reactor).Takes empty as t a u → ¬ t.Reaches a := by
  refine forall_congr' fun t => forall_congr' fun a => forall_congr' fun u =>
    forall_congr' fun hT => ?_
  have ht := hT.visits_left.reachable (show (machine reactor).init empty from rfl)
  rcases (performs_of_step hT.step_eq).handsOver with
    ⟨ha, i, x, hi, huse⟩ | ⟨ha, huse⟩
  · refine iff_of_false ?_ (not_not.mpr ha)
    intro hvalid
    have hmem : (x.socket, x.reactorData) ∈ (t.events reactor a).filterMap reactorUse := by
      rw [huse]
      exact List.mem_singleton.mpr rfl
    obtain ⟨e, he, hed⟩ := List.mem_filterMap.mp hmem
    exact unregistered_of_reachable ht i x hi x.socket (hvalid e he _ _ hed).1
  · refine iff_of_true ?_ ha
    intro e he d data hed
    exact absurd hed (by simp [List.filterMap_eq_nil_iff.mp huse e he])

/-- **When the data of the reactor is valid.** In a run, the data of the open implementations is
registered in every state exactly if no step opens one, and whatever the reactor gets is valid
exactly if no step reaches it. -/
theorem reactor_data_valid_iff (reactor : Reactor δ) (as : List ServiceAction) :
    ((∀ t, (machine reactor).Visits empty as t → t.RegisteredWhenOpen reactor) ↔
        ∀ t a u, (machine reactor).Takes empty as t a u → ¬ t.Opens a) ∧
      ((∀ t a u, (machine reactor).Takes empty as t a u →
          ∀ e ∈ t.events reactor a, e.Valid reactor t) ↔
        ∀ t a u, (machine reactor).Takes empty as t a u → ¬ t.Reaches a) :=
  ⟨registeredWhenOpen_iff_takes reactor as, valid_iff_takes reactor as⟩

/-- A socket is opened, and its operations are cancelled. -/
def cancelRun : List ServiceAction := [.construct, .openSocket 0 .stream 3, .cancel 0]

theorem not_valid_cancelRun :
    ¬ (∀ t, (machine Reactor.epoll).Visits empty cancelRun t →
        t.RegisteredWhenOpen Reactor.epoll) ∧
      ¬ ∀ t a u, (machine Reactor.epoll).Takes empty cancelRun t a u →
        ∀ e ∈ t.events Reactor.epoll a, e.Valid Reactor.epoll t := by
  constructor
  · rw [registeredWhenOpen_iff_takes]
    intro h
    refine h _ (.openSocket 0 .stream 3) _ ⟨[.construct], by decide, rfl, rfl⟩ ?_
    exact ⟨⟨_, rfl, by decide⟩, by decide⟩
  · rw [valid_iff_takes]
    intro h
    refine h _ (.cancel 0) _ ⟨[.construct, .openSocket 0 .stream 3], by decide, rfl, rfl⟩ ?_
    exact ⟨_, rfl, by decide⟩

end SocketService

end Lkl

end LklSocks
