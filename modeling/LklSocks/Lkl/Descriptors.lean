import LklSocks.Lkl.SocketService
import LklSocks.Machine.Ownership

/-!
# Who owns the descriptors

The implementations own the descriptors of LKL exclusively. An operation takes a descriptor into an
implementation that has none, closes the one an implementation owns, or moves one between two
implementations. A holder never closes a descriptor in the kernel of the host: it is empty, or was
released, when it is destroyed.

## Main definitions

* `Lkl.Impl.descriptor`, `Lkl.SocketService.Holds`: the descriptor that an implementation owns
* `Lkl.Closes`: the calls that close one descriptor
* `Lkl.Impl.Effect`: what an operation on one implementation does to its descriptor
* `Lkl.SocketService.Performs`: what each action does
* `Lkl.SocketService.Steps`: the steps of the service, by what they do to the descriptors
* `Lkl.SocketService.Obtains`: the operations that obtain a descriptor

## Main results

* `Lkl.Impl.accept_cases`: an accept leaves its peer alone or gives it a descriptor of LKL
* `Lkl.SocketService.perform_cases`: inversion
* `Lkl.SocketService.implements_ownership`: the service runs as exclusive ownership
* `Lkl.SocketService.descriptors_owned`: the descriptors in every run
-/

namespace LklSocks

namespace Lkl

open ErrorCode

variable {δ : Type} {reactor : Reactor δ}

/-! ## The results of the calls -/

/-- Every negative result is the invalid socket. -/
theorem toInt_call_of_neg {errno r : ℤ} (h : r < 0) : toInt (call errno r).1 = invalidSocket := by
  rcases call_cases errno r with ⟨hr, -, -⟩ | ⟨-, -, hc⟩ | ⟨-, -, hc⟩
  · omega
  · rw [hc]
    exact toInt_neg_one
  · rw [hc]
    exact toInt_neg_one

theorem toInt_call_of_nonneg {errno r : ℤ} (h : 0 ≤ r) (hr : r < 2 ^ 31) :
    toInt (call errno r).1 = r := by
  rcases call_cases errno r with ⟨-, -, hc⟩ | ⟨hneg, -, -⟩ | ⟨hneg, -, -⟩
  · rw [hc]
    exact toInt_of_lt h hr
  · omega
  · omega

theorem accept_fst {errno s r : ℤ} (hr : r < 0 ∨ r < 2 ^ 31) :
    (accept errno s r).1 = invalidSocket ∨
      s ≠ invalidSocket ∧ 0 ≤ r ∧ (accept errno s r).1 = r := by
  unfold accept
  split
  · exact .inl rfl
  · next hs =>
    by_cases hneg : r < 0
    · simp only [toInt_call_of_neg hneg, if_true]
      exact .inl trivial
    · simp only [toInt_call_of_nonneg (not_lt.mp hneg) (hr.resolve_left hneg)]
      refine .inr ⟨hs, not_lt.mp hneg, ?_⟩
      split <;> rfl

/-- The loop goes on after rounds that all ask for another one. -/
theorem syncAccept_append {errno s : ℤ} {state : UInt8} {before : List (ℤ × ℤ)}
    (h : syncAccept errno s state before = none) (rounds : List (ℤ × ℤ)) :
    syncAccept errno s state (before ++ rounds) = syncAccept errno s state rounds := by
  induction before with
  | nil => rfl
  | cons q before ih =>
    obtain ⟨r, p⟩ := q
    rw [List.cons_append]
    simp only [syncAccept] at h ⊢
    split at h
    · cases h
    · split at h
      · split at h
        · cases h
        · next hne hagain hready =>
          rw [if_neg hne, if_pos hagain, if_neg hready]
          exact ih h
      · cases h

/-- `sync_accept` returns no socket, or that of the first round that does not ask for another. -/
theorem syncAccept_cases {errno s : ℤ} {state : UInt8} {rounds : List (ℤ × ℤ)}
    {result : ℤ × ErrorCode} (hr : ∀ q ∈ rounds, q.1 < 0 ∨ q.1 < 2 ^ 31)
    (h : syncAccept errno s state rounds = some result) :
    result.1 = invalidSocket ∨
      ∃ before p after, rounds = before ++ (result.1, p) :: after ∧
        syncAccept errno s state before = none ∧ s ≠ invalidSocket ∧ 0 ≤ result.1 := by
  induction rounds with
  | nil => cases h
  | cons q rounds ih =>
    obtain ⟨r, p⟩ := q
    have hround : (accept errno s r).1 = invalidSocket ∨
        s ≠ invalidSocket ∧ 0 ≤ r ∧ (accept errno s r).1 = r :=
      accept_fst (hr (r, p) List.mem_cons_self)
    simp only [syncAccept] at h
    split at h
    · next hne =>
      obtain rfl := Option.some.inj h
      rcases hround with hround | ⟨hs, hnonneg, hround⟩
      · exact absurd hround hne
      · refine .inr ⟨[], p, rounds, ?_, rfl, hs, ?_⟩
        · rw [hround, List.nil_append]
        · rwa [hround]
    · next hinvalid =>
      split at h
      · next hagain =>
        split at h
        · obtain rfl := Option.some.inj h
          exact .inl rfl
        · next hready =>
          rcases ih (fun q hq => hr q (List.mem_cons_of_mem _ hq)) h with
            hnone | ⟨before, p', after, rfl, hbefore, hs, hnonneg⟩
          · exact .inl hnone
          · refine .inr ⟨(r, p) :: before, p', after, rfl, ?_, hs, hnonneg⟩
            rw [syncAccept]
            simp only [if_neg hinvalid, if_pos hagain, if_neg hready]
            exact hbefore
      · obtain rfl := Option.some.inj h
        exact .inl rfl

/-! ## One implementation -/

/-- The data is registered for no descriptor for which the source was not. -/
def Reactor.Inherits (reactor : Reactor δ) (data source : δ) : Prop :=
  ∀ d, reactor.Registered data d → reactor.Registered source d

theorem Reactor.Inherits.of_eq {data source : δ} (h : data = source) :
    reactor.Inherits data source := by
  rintro d hd
  rwa [← h]

/-- The descriptor that an implementation owns. -/
def Impl.descriptor (x : Impl δ) : Option ℤ := if x.IsOpen then some x.socket else none

/-- The calls that close a descriptor, if there is one: one, or a second one after an error that
asks for it. -/
inductive Closes : Option ℤ → List (ServiceEvent δ) → Prop
  | nothing : Closes none []
  | once (d r : ℤ) : Closes (some d) [.close d r]
  | again (d r : ℤ) {r' : ℤ} (h : WouldBlock 0 r) : Closes (some d) [.close d r, .closeAgain d r']

/-- The event neither obtains nor closes a descriptor. -/
def ServiceEvent.Quiet : ServiceEvent δ → Prop
  | cancelOps _ _ => True
  | startOp _ _ _ => True
  | completed _ => True
  | _ => False

/-- What an operation does to the descriptor of its implementation: it keeps it, takes one that is
unused, or closes it. -/
inductive Impl.Effect (unused : ℤ → Prop) (x y : Impl δ) : List (ServiceEvent δ) → Prop
  | keep (hy : y.descriptor = x.descriptor) : Effect unused x y []
  | take {d : ℤ} (hx : x.descriptor = none) (hy : y.descriptor = some d) (hd : unused d) :
      Effect unused x y [.obtained d]
  | close {events : List (ServiceEvent δ)} (hy : y.descriptor = none)
      (he : Closes x.descriptor events) : Effect unused x y events

namespace Impl

variable {x y : Impl δ} {p : ℤ → Prop} {r : ℤ}

theorem descriptor_of_isOpen (h : x.IsOpen) : x.descriptor = some x.socket := if_pos h

theorem descriptor_of_not (h : ¬ x.IsOpen) : x.descriptor = none := if_neg h

theorem descriptor_congr (h : y.socket = x.socket) : y.descriptor = x.descriptor := by
  by_cases hx : x.IsOpen
  · have hy : y.IsOpen := fun hs => hx (h.symm.trans hs)
    rw [descriptor_of_isOpen hx, descriptor_of_isOpen hy, h]
  · have hy : ¬ y.IsOpen := fun hy => hx fun hs => hy (h.trans hs)
    rw [descriptor_of_not hx, descriptor_of_not hy]

theorem descriptor_eq_some {d : ℤ} : x.descriptor = some d ↔ x.IsOpen ∧ x.socket = d := by
  unfold descriptor
  split <;> simp [*]

/-- `socket_ops::close` closes the descriptor of the implementation. -/
theorem closes_close (x : Impl δ) (state : UInt8) (destruction : Bool) (calls : CloseCalls) :
    Closes x.descriptor (Lkl.close (δ := δ) 0 x.socket state destruction calls).2.2 := by
  unfold Lkl.close
  by_cases hs : x.socket = invalidSocket
  · rw [if_pos hs, descriptor_of_not (not_not.mpr hs)]
    exact .nothing
  · rw [if_neg hs, descriptor_of_isOpen hs]
    by_cases hw : WouldBlock 0 calls.first
    · simp only [if_pos hw]
      exact .again _ _ hw
    · simp only [if_neg hw]
      exact .once _ _

theorem destroy_closes (x : Impl δ) (calls : CloseCalls) :
    Closes x.descriptor (x.destroy calls).2 := by
  unfold destroy
  split
  · exact x.closes_close _ _ _
  · next hs =>
    rw [descriptor_of_not hs]
    exact .nothing

theorem destroy_reactorData (x : Impl δ) (calls : CloseCalls) :
    (x.destroy calls).1.reactorData = x.reactorData := by
  unfold destroy
  split <;> rfl

theorem close_effect (x : Impl δ) (calls : CloseCalls) :
    Effect p x (x.close calls).impl (x.close calls).events :=
  .close rfl (x.closes_close x.state false calls)

theorem withProtocol_fields (result : Result δ) (protocol : SocketType) :
    (withProtocol result protocol).impl.socket = result.impl.socket ∧
      (withProtocol result protocol).impl.reactorData = result.impl.reactorData ∧
      (withProtocol result protocol).ec = result.ec ∧
      (withProtocol result protocol).events = result.events := by
  unfold withProtocol
  split <;> exact ⟨rfl, rfl, rfl, rfl⟩

theorem openSocket_of_not (h : x.IsOpen ∨ r < 0) (protocol : SocketType) :
    (x.openSocket protocol r).impl.socket = x.socket ∧
      (x.openSocket protocol r).impl.reactorData = x.reactorData ∧
      (x.openSocket protocol r).events = [] := by
  obtain ⟨hsocket, hdata, -, hevents⟩ := withProtocol_fields (x.doOpen protocol r) protocol
  unfold openSocket
  rw [hsocket, hdata, hevents]
  unfold doOpen
  by_cases hopen : x.IsOpen
  · rw [if_pos hopen]
    exact ⟨rfl, rfl, rfl⟩
  · rw [if_neg hopen]
    have hfd : (Lkl.socket 0 r).1 = invalidSocket := toInt_call_of_neg (h.resolve_left hopen)
    simp only [SocketHolder.get, hfd, if_true]
    exact ⟨trivial, trivial, rfl⟩

theorem openSocket_of_nonneg (hx : ¬ x.IsOpen) (h : 0 ≤ r) (hr : r < 2 ^ 31)
    (protocol : SocketType) :
    x.openSocket protocol r =
      ⟨{ x with socket := r, state := protocol.state, protocol := protocol }, .code success,
        [.obtained r]⟩ := by
  have hfd : (Lkl.socket 0 r).1 = r := toInt_call_of_nonneg h hr
  have hne : r ≠ invalidSocket := by
    rintro rfl
    exact absurd h (by decide)
  unfold openSocket doOpen
  rw [if_neg hx]
  simp only [SocketHolder.get, SocketHolder.release, hfd, if_neg hne]
  rfl

/-- Opening takes the descriptor that LKL returns. -/
theorem openSocket_effect (protocol : SocketType) (hr : r < 0 ∨ r < 2 ^ 31 ∧ p r) :
    Effect p x (x.openSocket protocol r).impl (x.openSocket protocol r).events ∧
      (x.openSocket protocol r).impl.reactorData = x.reactorData := by
  by_cases h : x.IsOpen ∨ r < 0
  · obtain ⟨hsocket, hdata, hevents⟩ := openSocket_of_not h protocol
    rw [hevents]
    exact ⟨.keep (descriptor_congr hsocket), hdata⟩
  · obtain ⟨hx, hneg⟩ := not_or.mp h
    obtain ⟨hlt, hunused⟩ := hr.resolve_left hneg
    have hnonneg := not_lt.mp hneg
    rw [openSocket_of_nonneg hx hnonneg hlt]
    have hne : r ≠ invalidSocket := by
      rintro rfl
      exact absurd hnonneg (by decide)
    exact ⟨.take (descriptor_of_not hx) (descriptor_of_isOpen hne) hunused, rfl⟩

theorem assign_of_isOpen (hx : x.IsOpen) (protocol : SocketType) (d : ℤ) :
    x.assign protocol d = ⟨x, .alreadyOpen, []⟩ := by
  unfold assign doAssign
  rw [if_pos hx]
  rfl

theorem assign_of_not_isOpen (hx : ¬ x.IsOpen) (protocol : SocketType) (d : ℤ) :
    x.assign protocol d =
      ⟨{ x with socket := d, state := protocol.state ||| possibleDup, protocol := protocol },
        .code success, []⟩ := by
  unfold assign doAssign
  rw [if_neg hx]
  rfl

theorem assign_reactorData (protocol : SocketType) (d : ℤ) :
    (x.assign protocol d).impl.reactorData = x.reactorData := by
  by_cases hx : x.IsOpen
  · rw [assign_of_isOpen hx]
  · rw [assign_of_not_isOpen hx]

theorem assign_events (protocol : SocketType) (d : ℤ) : (x.assign protocol d).events = [] := by
  by_cases hx : x.IsOpen
  · rw [assign_of_isOpen hx]
  · rw [assign_of_not_isOpen hx]

/-- An assignment takes the descriptor of its caller. -/
theorem assign_effect (protocol : SocketType) {d : ℤ} (hd : ¬ x.IsOpen → p d) :
    Effect p x (x.assign protocol d).impl
      (if x.IsOpen ∨ d = invalidSocket then (x.assign protocol d).events
        else .obtained d :: (x.assign protocol d).events) := by
  by_cases hx : x.IsOpen
  · rw [if_pos (.inl hx), assign_of_isOpen hx]
    exact .keep rfl
  · rw [assign_of_not_isOpen hx]
    -- the caller may hand over the invalid socket, which nobody owns
    by_cases hinvalid : d = invalidSocket
    · rw [if_pos (.inr hinvalid)]
      refine .keep ?_
      rw [descriptor_of_not hx]
      exact descriptor_of_not (not_not.mpr hinvalid)
    · rw [if_neg (not_or.mpr ⟨hx, hinvalid⟩)]
      exact .take (descriptor_of_not hx) (descriptor_of_isOpen hinvalid) (hd hx)

/-- The peer of an accept that has come to a socket of LKL, whose holder is released. -/
theorem accept_of_socket {peer : Impl δ} (hpeer : ¬ peer.IsOpen) {rounds : List (ℤ × ℤ)}
    {d : ℤ} {ec : ErrorCode} (hd : d ≠ invalidSocket)
    (h : syncAccept 0 x.socket x.state rounds = some (d, ec)) :
    x.accept peer rounds = some
      ⟨{ peer with
          socket := d, state := x.protocol.state ||| possibleDup, protocol := x.protocol },
        .code success, [.obtained d]⟩ := by
  unfold accept
  rw [if_neg hpeer, h]
  simp [SocketHolder.get, SocketHolder.release, SocketHolder.destructor, hd,
    assign_of_not_isOpen hpeer]

/-- An accept leaves its peer alone, or has come to a socket of LKL. -/
theorem accept_cases {peer : Impl δ} {rounds : List (ℤ × ℤ)} {result : Result δ}
    (hr : ∀ q ∈ rounds, q.1 < 0 ∨ q.1 < 2 ^ 31) (h : x.accept peer rounds = some result) :
    result.impl = peer ∧ result.events = [] ∨
      ¬ peer.IsOpen ∧ x.IsOpen ∧ ∃ before d p after, rounds = before ++ (d, p) :: after ∧
        syncAccept 0 x.socket x.state before = none ∧ 0 ≤ d ∧ result =
          ⟨{ peer with
              socket := d, state := x.protocol.state ||| possibleDup, protocol := x.protocol },
            .code success, [.obtained d]⟩ := by
  by_cases hpeer : peer.IsOpen
  · obtain rfl := Option.some.inj ((if_pos hpeer).symm.trans h)
    exact .inl ⟨rfl, rfl⟩
  · obtain ⟨⟨d, ec⟩, hsync, hresult⟩ := Option.map_eq_some_iff.mp ((if_neg hpeer).symm.trans h)
    by_cases hd : d = invalidSocket
    · subst hresult
      simp [SocketHolder.get, SocketHolder.destructor, hd]
    · obtain rfl := Option.some.inj (h.symm.trans (accept_of_socket hpeer hd hsync))
      rcases syncAccept_cases hr hsync with
        hinvalid | ⟨before, p, after, hrounds, hbefore, hx, hnonneg⟩
      · exact absurd hinvalid hd
      · exact .inr ⟨hpeer, hx, before, d, p, after, hrounds, hbefore, hnonneg, rfl⟩

/-- An accept takes the descriptor that LKL returns into the peer. -/
theorem accept_effect {peer : Impl δ} {rounds : List (ℤ × ℤ)} {result : Result δ}
    (hr : ∀ q ∈ rounds, q.1 < 0 ∨ q.1 < 2 ^ 31 ∧ p q.1)
    (h : x.accept peer rounds = some result) :
    Effect p peer result.impl result.events ∧
      result.impl.reactorData = peer.reactorData := by
  rcases accept_cases (fun q hq => (hr q hq).imp_right And.left) h with
    ⟨himpl, hevents⟩ | ⟨hpeer, -, before, d, q, after, rfl, -, hnonneg, rfl⟩
  · rw [himpl, hevents]
    exact ⟨.keep rfl, rfl⟩
  · have hunused : p d :=
      ((hr (d, q) (List.mem_append_right _ List.mem_cons_self)).resolve_left
        (not_lt.mpr hnonneg)).2
    have hd : d ≠ invalidSocket := by
      rintro rfl
      exact absurd hnonneg (by decide)
    exact ⟨.take (descriptor_of_not hpeer) (descriptor_of_isOpen hd) hunused, rfl⟩

/-- The operation leaves the descriptor and the data of the reactor alone. -/
structure Keeps (x : Impl δ) (result : Result δ) : Prop where
  socket_eq : result.impl.socket = x.socket
  reactorData_eq : result.impl.reactorData = x.reactorData
  quiet : ∀ e ∈ result.events, e.Quiet

theorem Keeps.of_state {state : UInt8} {result : Result δ}
    (h : Keeps { x with state := state } result) : x.Keeps result :=
  ⟨h.socket_eq, h.reactorData_eq, h.quiet⟩

theorem cancel_keeps (x : Impl δ) : x.Keeps x.cancel := by
  unfold cancel
  split
  · exact ⟨rfl, rfl, nofun⟩
  · exact ⟨rfl, rfl, List.forall_mem_singleton.mpr trivial⟩

theorem startOp_keeps (x : Impl δ) (type : OpType) (noop : Bool) (r : ℤ) :
    x.Keeps (x.startOp type noop r) := by
  have hquiet {e : ServiceEvent δ} (he : e.Quiet) : ∀ e' ∈ [e], e'.Quiet :=
    List.forall_mem_singleton.mpr he
  unfold startOp
  split
  · split
    · exact ⟨rfl, rfl, hquiet trivial⟩
    · dsimp only
      split
      · exact ⟨rfl, rfl, hquiet trivial⟩
      · exact ⟨rfl, rfl, hquiet trivial⟩
  · exact ⟨rfl, rfl, hquiet trivial⟩

theorem startAcceptOp_keeps (x : Impl δ) (peerIsOpen : Bool) (r : ℤ) :
    x.Keeps (x.startAcceptOp peerIsOpen r) := by
  unfold startAcceptOp
  split
  · exact x.startOp_keeps .read false r
  · exact ⟨rfl, rfl, List.forall_mem_singleton.mpr trivial⟩

theorem connectOp_keeps (x : Impl δ) (r : ℤ) : x.Keeps (x.connectOp r) := by
  unfold connectOp
  dsimp only
  split
  · exact ⟨rfl, rfl, List.forall_mem_singleton.mpr trivial⟩
  · exact ⟨rfl, rfl, List.forall_mem_singleton.mpr trivial⟩

theorem startConnectOp_keeps (x : Impl δ) (r connect : ℤ) :
    x.Keeps (x.startConnectOp r connect) := by
  unfold startConnectOp
  split
  · exact x.connectOp_keeps connect
  · dsimp only
    split
    · exact (connectOp_keeps _ connect).of_state
    · exact ⟨rfl, rfl, List.forall_mem_singleton.mpr trivial⟩

end Impl

/-! ## The service -/

namespace ServiceEvent

/-- What an event says about the ownership of a descriptor. -/
def ownership : ServiceEvent δ → Option (OwnershipEvent ℤ)
  | obtained d => some (.taken d)
  | close d _ => some (.dropped d)
  | _ => none

/-- The event is a call of `lkl_close`. -/
def isLklClose : ServiceEvent δ → Bool
  | close _ _ => true
  | closeAgain _ _ => true
  | _ => false

theorem Quiet.ownership {e : ServiceEvent δ} (h : e.Quiet) : e.ownership = none := by
  cases e with
  | obtained d => exact h.elim
  | close d r => exact h.elim
  | closeAgain d r => rfl
  | hostClose d => rfl
  | cancelOps d data => rfl
  | startOp type d data => rfl
  | completed ec => rfl

theorem Quiet.isLklClose {e : ServiceEvent δ} (h : e.Quiet) : e.isLklClose = false := by
  cases e with
  | obtained d => rfl
  | close d r => exact h.elim
  | closeAgain d r => exact h.elim
  | hostClose d => rfl
  | cancelOps d data => rfl
  | startOp type d data => rfl
  | completed ec => rfl

theorem taken_mem_iff {d : ℤ} {events : List (ServiceEvent δ)} :
    .taken d ∈ events.filterMap ownership ↔ obtained d ∈ events := by
  refine List.mem_filterMap.trans ⟨?_, fun h => ⟨_, h, rfl⟩⟩
  rintro ⟨e, he, hd⟩
  cases e with
  | obtained d' =>
    obtain rfl : d' = d := by simpa [ownership] using hd
    exact he
  | close d' r => simp [ownership] at hd
  | _ => cases hd

theorem exists_close_of_mem {d : ℤ} {events : List (ServiceEvent δ)}
    (h : .dropped d ∈ events.filterMap ownership) : ∃ r, close d r ∈ events := by
  obtain ⟨e, he, hd⟩ := List.mem_filterMap.mp h
  cases e with
  | close d' r =>
    obtain rfl : d' = d := by simpa [ownership] using hd
    exact ⟨r, he⟩
  | obtained d' => simp [ownership] at hd
  | _ => cases hd

end ServiceEvent

open ServiceEvent

theorem Closes.ownership {x : Option ℤ} {events : List (ServiceEvent δ)} (h : Closes x events) :
    events.filterMap ServiceEvent.ownership = x.toList.map .dropped := by
  cases h with
  | nothing => rfl
  | once d r => rfl
  | again d r hr => rfl

theorem Closes.isLklClose {x : Option ℤ} {events : List (ServiceEvent δ)} (h : Closes x events) :
    ∀ e ∈ events, e.isLklClose = true := by
  cases h with
  | nothing => nofun
  | once d r => simp [ServiceEvent.isLklClose]
  | again d r hr => simp [ServiceEvent.isLklClose]

theorem Closes.filter {x : Option ℤ} {events : List (ServiceEvent δ)} (h : Closes x events) :
    events.filter ServiceEvent.isLklClose = events :=
  List.filter_eq_self.mpr h.isLklClose

theorem Closes.obtained_notMem {x : Option ℤ} {events : List (ServiceEvent δ)}
    (h : Closes x events) (d : ℤ) : .obtained d ∉ events := by
  intro hd
  cases h.isLklClose _ hd

theorem Closes.hostClose_notMem {x : Option ℤ} {events : List (ServiceEvent δ)}
    (h : Closes x events) (d : ℤ) : .hostClose d ∉ events := by
  intro hd
  cases h.isLklClose _ hd

namespace SocketService

variable {s t : SocketService δ} {evs : List (ServiceEvent δ)} {a : ServiceAction}
  {i j : ℕ} {d : ℤ}

/-- The implementation is open with the descriptor. -/
def Holds (s : SocketService δ) (i : ℕ) (d : ℤ) : Prop :=
  ∃ x, s.impl i = some x ∧ x.IsOpen ∧ x.socket = d

/-- What the implementations own. -/
def owners (s : SocketService δ) (i : ℕ) : Option ℤ := (s.impl i).bind Impl.descriptor

/-- The numbers from `next` on are those of objects to come. -/
def Numbered (s : SocketService δ) : Prop := ∀ i, s.next ≤ i → s.impl i = none

theorem owners_eq_some : s.owners i = some d ↔ s.Holds i d := by
  refine Option.bind_eq_some_iff.trans ⟨?_, ?_⟩
  · rintro ⟨x, hx, hd⟩
    exact ⟨x, hx, Impl.descriptor_eq_some.mp hd⟩
  · rintro ⟨x, hx, hd⟩
    exact ⟨x, hx, Impl.descriptor_eq_some.mpr hd⟩

theorem owners_eq {x : Impl δ} (h : s.impl i = some x) : s.owners i = x.descriptor := by
  rw [owners, h]
  rfl

theorem owners_next (h : s.Numbered) : s.owners s.next = none := by
  rw [owners, h s.next le_rfl]
  rfl

theorem owners_set (s : SocketService δ) (i : ℕ) (x : Option (Impl δ)) :
    (s.set i x).owners = Function.update s.owners i (x.bind Impl.descriptor) :=
  Function.comp_update (fun x : Option (Impl δ) => x.bind Impl.descriptor) s.impl i x

theorem owners_create (s : SocketService δ) (x : Impl δ) :
    (s.create x).owners = Function.update s.owners s.next x.descriptor :=
  Function.comp_update (fun x : Option (Impl δ) => x.bind Impl.descriptor) s.impl s.next (some x)

theorem Numbered.set (h : s.Numbered) (hi : s.impl i ≠ none) (x : Option (Impl δ)) :
    (s.set i x).Numbered := by
  intro j hj
  have hne : j ≠ i := fun hji => hi (hji ▸ h j hj)
  exact (Function.update_of_ne hne ..).trans (h j hj)

theorem Numbered.create (h : s.Numbered) (x : Impl δ) : (s.create x).Numbered := by
  intro j hj
  have hnext : s.next + 1 ≤ j := hj
  exact (Function.update_of_ne (by omega) ..).trans (h j (by omega))

/-- A descriptor is free if no implementation holds it. -/
def Free (s : SocketService δ) (d : ℤ) : Prop := ∀ i, ¬ s.Holds i d

theorem LklResult.free (hs : s.Numbered) {r : ℤ} (h : s.LklResult r) :
    r < 0 ∨ r < 2 ^ 31 ∧ s.Free r := by
  refine h.imp_right fun ⟨hr, hne⟩ => ⟨hr, ?_⟩
  rintro i ⟨x, hi, hopen, hd⟩
  have hnext : i < s.next := by
    by_contra hle
    rw [hs i (not_lt.mp hle)] at hi
    cases hi
  exact hne i hnext x hi hopen hd

theorem Unowned.free (hs : s.Numbered) {x : Impl δ} (hi : s.impl i = some x) (hx : ¬ x.IsOpen)
    (h : s.Unowned i d) : s.Free d := by
  rintro j ⟨y, hj, hopen, hd⟩
  have hnext : j < s.next := by
    by_contra hle
    rw [hs j (not_lt.mp hle)] at hj
    cases hj
  refine h j hnext ?_ y hj hopen hd
  rintro rfl
  obtain rfl := Option.some.inj (hi.symm.trans hj)
  exact hx hopen

/-- The steps of the service, by what they do to the descriptors and to the data of the reactor. -/
inductive Steps (reactor : Reactor δ) (s : SocketService δ) :
    SocketService δ → List (ServiceEvent δ) → Prop
  | construct {x : Impl δ} (hx : x.descriptor = none) (hdata : x.reactorData = reactor.fresh) :
      Steps reactor s (s.create x) []
  | operate {i : ℕ} {x y : Impl δ} {evs : List (ServiceEvent δ)} (hi : s.impl i = some x)
      (hdata : reactor.Inherits y.reactorData x.reactorData) (he : x.Effect s.Free y evs) :
      Steps reactor s (s.set i (some y)) evs
  | keep {i : ℕ} {x : Impl δ} {result : Result δ} (hi : s.impl i = some x)
      (h : x.Keeps result) : Steps reactor s (s.set i (some result.impl)) result.events
  | moveConstruct {other : ℕ} {x y y' : Impl δ} (hother : s.impl other = some y)
      (hx : x.descriptor = y.descriptor) (hy : y'.descriptor = none)
      (hdata : reactor.Inherits x.reactorData y.reactorData)
      (hdata' : reactor.Inherits y'.reactorData y.reactorData) :
      Steps reactor s ((s.set other (some y')).create x) []
  | moveAssign {i other : ℕ} {x y x' y' : Impl δ} {evs : List (ServiceEvent δ)}
      (hne : i ≠ other) (hi : s.impl i = some x) (hother : s.impl other = some y)
      (hx : x'.descriptor = y.descriptor) (hy : y'.descriptor = none)
      (hdata : reactor.Inherits x'.reactorData y.reactorData)
      (hdata' : reactor.Inherits y'.reactorData y.reactorData)
      (he : Closes x.descriptor evs) :
      Steps reactor s ((s.set i (some x')).set other (some y')) evs
  | destroy {i : ℕ} {x : Impl δ} {evs : List (ServiceEvent δ)} (hi : s.impl i = some x)
      (he : Closes x.descriptor evs) : Steps reactor s (s.set i none) evs

/-- The action calls an operation that leaves the descriptor of its implementation alone. -/
inductive Calls : ServiceAction → ℕ → (Impl δ → Result δ) → Prop
  | cancel (i : ℕ) : Calls (.cancel i) i Impl.cancel
  | startOp (i : ℕ) (type : OpType) (noop : Bool) (r : ℤ) :
      Calls (.startOp i type noop r) i fun x => x.startOp type noop r
  | startAcceptOp (i : ℕ) (peerIsOpen : Bool) (r : ℤ) :
      Calls (.startAcceptOp i peerIsOpen r) i fun x => x.startAcceptOp peerIsOpen r
  | startConnectOp (i : ℕ) (r connect : ℤ) :
      Calls (.startConnectOp i r connect) i fun x => x.startConnectOp r connect
  | setNonBlocking (i : ℕ) (mode : Bool) (r : ℤ) :
      Calls (.setNonBlocking i mode r) i fun x => x.setNonBlocking mode r
  | setNativeNonBlocking (i : ℕ) (mode : Bool) (r : ℤ) :
      Calls (.setNativeNonBlocking i mode r) i fun x => x.setNativeNonBlocking mode r
  | setOption (i : ℕ) (option : SocketOption) (r : ℤ) :
      Calls (.setOption i option r) i fun x => x.setOption option r

theorem Calls.keeps {f : Impl δ → Result δ} (h : Calls a i f) (x : Impl δ) : x.Keeps (f x) := by
  cases h with
  | cancel => exact x.cancel_keeps
  | startOp i type noop r => exact x.startOp_keeps type noop r
  | startAcceptOp i peerIsOpen r => exact x.startAcceptOp_keeps peerIsOpen r
  | startConnectOp i r connect => exact x.startConnectOp_keeps r connect
  | setNonBlocking i mode r => exact ⟨rfl, rfl, nofun⟩
  | setNativeNonBlocking i mode r => exact ⟨rfl, rfl, nofun⟩
  | setOption i option r => exact ⟨rfl, rfl, nofun⟩

/-- What each action does. -/
inductive Performs (reactor : Reactor δ) (s : SocketService δ) :
    ServiceAction → SocketService δ → List (ServiceEvent δ) → Prop
  | construct : Performs reactor s .construct (s.create (Impl.uninitialized reactor).construct) []
  | openSocket {i : ℕ} {protocol : SocketType} {r : ℤ} {x : Impl δ} (hr : s.LklResult r)
      (hi : s.impl i = some x) :
      Performs reactor s (.openSocket i protocol r) (s.set i (some (x.openSocket protocol r).impl))
        (x.openSocket protocol r).events
  | assign {i : ℕ} {protocol : SocketType} {d : ℤ} {x : Impl δ} (hd : s.Unowned i d)
      (hi : s.impl i = some x) :
      Performs reactor s (.assign i protocol d) (s.set i (some (x.assign protocol d).impl))
        (if x.IsOpen ∨ d = invalidSocket then (x.assign protocol d).events
          else .obtained d :: (x.assign protocol d).events)
  | accept {i peer : ℕ} {rounds : List (ℤ × ℤ)} {x y : Impl δ} {result : Result δ}
      (hr : ∀ q ∈ rounds, s.LklResult q.1) (hi : s.impl i = some x) (hpeer : s.impl peer = some y)
      (h : x.accept y rounds = some result) :
      Performs reactor s (.accept i peer rounds) (s.set peer (some result.impl)) result.events
  | close {i : ℕ} {calls : CloseCalls} {x : Impl δ} (hi : s.impl i = some x) :
      Performs reactor s (.close i calls) (s.set i (some (x.close calls).impl))
        (x.close calls).events
  | moveConstruct {other : ℕ} {y : Impl δ} (hother : s.impl other = some y) :
      Performs reactor s (.moveConstruct other)
        ((s.set other (some (Impl.moveConstruct reactor (Impl.uninitialized reactor) y).2)).create
          (Impl.moveConstruct reactor (Impl.uninitialized reactor) y).1) []
  | moveAssignSelf {i : ℕ} {calls : CloseCalls} {x : Impl δ} (hi : s.impl i = some x) :
      Performs reactor s (.moveAssign i i calls)
        (s.set i (some (x.moveAssignSelf reactor calls).1)) (x.destroy calls).2
  | moveAssign {i other : ℕ} {calls : CloseCalls} {x y : Impl δ} (hne : i ≠ other)
      (hi : s.impl i = some x) (hother : s.impl other = some y) :
      Performs reactor s (.moveAssign i other calls)
        ((s.set i (some (x.moveAssign reactor y calls).1)).set other
          (some (x.moveAssign reactor y calls).2.1)) (x.destroy calls).2
  | destroy {i : ℕ} {calls : CloseCalls} {x : Impl δ} (hi : s.impl i = some x) :
      Performs reactor s (.destroy i calls) (s.set i none) (x.destroy calls).2
  | call {a : ServiceAction} {i : ℕ} {f : Impl δ → Result δ} {x : Impl δ} (ha : Calls a i f)
      (hi : s.impl i = some x) :
      Performs reactor s a (s.set i (some (f x).impl)) (f x).events

/-- **Inversion** of an action. -/
theorem perform_cases (h : s.perform reactor a = some (t, evs)) : s.Performs reactor a t evs := by
  have hcall {i : ℕ} {f : Impl δ → Result δ} (ha : Calls a i f)
      (h : (s.impl i).map (fun x => s.apply i (f x)) = some (t, evs)) :
      s.Performs reactor a t evs := by
    obtain ⟨x, hi, he⟩ := Option.map_eq_some_iff.mp h
    obtain ⟨rfl, rfl⟩ := Prod.mk.inj he
    exact .call ha hi
  cases a with
  | construct =>
    obtain ⟨rfl, rfl⟩ := Prod.mk.inj (Option.some.inj h)
    exact .construct
  | openSocket i protocol r =>
    obtain ⟨hr, h⟩ := Option.ite_none_right_eq_some.mp h
    obtain ⟨x, hi, he⟩ := Option.map_eq_some_iff.mp h
    obtain ⟨rfl, rfl⟩ := Prod.mk.inj he
    exact .openSocket hr hi
  | assign i protocol d =>
    obtain ⟨hd, h⟩ := Option.ite_none_right_eq_some.mp h
    obtain ⟨x, hi, he⟩ := Option.map_eq_some_iff.mp h
    obtain ⟨rfl, rfl⟩ := Prod.mk.inj he
    exact .assign hd hi
  | accept i peer rounds =>
    obtain ⟨hr, h⟩ := Option.ite_none_right_eq_some.mp h
    obtain ⟨x, hi, h⟩ := Option.bind_eq_some_iff.mp h
    obtain ⟨y, hpeer, h⟩ := Option.bind_eq_some_iff.mp h
    obtain ⟨result, hresult, he⟩ := Option.map_eq_some_iff.mp h
    obtain ⟨rfl, rfl⟩ := Prod.mk.inj he
    exact .accept hr hi hpeer hresult
  | close i calls =>
    obtain ⟨x, hi, he⟩ := Option.map_eq_some_iff.mp h
    obtain ⟨rfl, rfl⟩ := Prod.mk.inj he
    exact .close hi
  | moveConstruct other =>
    obtain ⟨y, hother, he⟩ := Option.map_eq_some_iff.mp h
    obtain ⟨rfl, rfl⟩ := Prod.mk.inj he
    exact .moveConstruct hother
  | moveAssign i other calls =>
    by_cases hio : i = other
    · obtain rfl := hio
      obtain ⟨x, hi, he⟩ := Option.map_eq_some_iff.mp ((if_pos rfl).symm.trans h)
      obtain ⟨rfl, rfl⟩ := Prod.mk.inj he
      exact .moveAssignSelf hi
    · obtain ⟨x, hi, h⟩ := Option.bind_eq_some_iff.mp ((if_neg hio).symm.trans h)
      obtain ⟨y, hother, he⟩ := Option.map_eq_some_iff.mp h
      obtain ⟨rfl, rfl⟩ := Prod.mk.inj he
      exact .moveAssign hio hi hother
  | destroy i calls =>
    obtain ⟨x, hi, he⟩ := Option.map_eq_some_iff.mp h
    obtain ⟨rfl, rfl⟩ := Prod.mk.inj he
    exact .destroy hi
  | cancel i => exact hcall (.cancel i) h
  | startOp i type noop r => exact hcall (.startOp i type noop r) h
  | startAcceptOp i peerIsOpen r => exact hcall (.startAcceptOp i peerIsOpen r) h
  | startConnectOp i r connect => exact hcall (.startConnectOp i r connect) h
  | setNonBlocking i mode r => exact hcall (.setNonBlocking i mode r) h
  | setNativeNonBlocking i mode r => exact hcall (.setNativeNonBlocking i mode r) h
  | setOption i option r => exact hcall (.setOption i option r) h

/-- What an action does to the descriptors and to the data of the reactor. -/
theorem Performs.steps (h : s.Performs reactor a t evs) (hs : s.Numbered) :
    s.Steps reactor t evs := by
  cases h with
  | construct => exact .construct rfl rfl
  | @openSocket i protocol r x hr hi =>
    obtain ⟨heffect, hdata⟩ := x.openSocket_effect protocol (hr.free hs)
    exact .operate hi (.of_eq hdata) heffect
  | @assign i protocol d x hd hi =>
    exact .operate hi (.of_eq (x.assign_reactorData protocol d))
      (x.assign_effect protocol fun hx => hd.free hs hi hx)
  | accept hr hi hpeer h =>
    obtain ⟨heffect, hdata⟩ := Impl.accept_effect (fun q hq => (hr q hq).free hs) h
    exact .operate hpeer (.of_eq hdata) heffect
  | @close i calls x hi => exact .operate hi (.of_eq rfl) (x.close_effect calls)
  | moveConstruct hother =>
    exact .moveConstruct hother (Impl.descriptor_congr rfl) rfl
      (fun e he => reactor.registered_of_move _ _ _ e (.inl he))
      (fun e he => reactor.registered_of_move _ _ _ e (.inr he))
  | @moveAssignSelf i calls x hi =>
    refine .operate hi (fun e he => ?_) (.close rfl (x.destroy_closes calls))
    rw [← x.destroy_reactorData calls]
    exact reactor.registered_of_move _ _ _ e (.inr he)
  | @moveAssign i other calls x y hne hi hother =>
    exact .moveAssign hne hi hother (Impl.descriptor_congr rfl) rfl
      (fun e he => reactor.registered_of_move _ _ _ e (.inl he))
      (fun e he => reactor.registered_of_move _ _ _ e (.inr he)) (x.destroy_closes calls)
  | @destroy i calls x hi => exact .destroy hi (x.destroy_closes calls)
  | @call a i f x ha hi => exact .keep hi (ha.keeps x)

theorem Steps.numbered (h : s.Steps reactor t evs) (hs : s.Numbered) : t.Numbered := by
  cases h with
  | construct hx hdata => exact hs.create _
  | operate hi hdata he => exact hs.set (by simp [hi]) _
  | keep hi h => exact hs.set (by simp [hi]) _
  | moveConstruct hother hx hy hdata hdata' => exact (hs.set (by simp [hother]) _).create _
  | @moveAssign i other x y x' y' evs hne hi hother hx hy hdata hdata' he =>
    refine (hs.set (by simp [hi]) _).set ?_ _
    rw [set_impl, Function.update_of_ne hne.symm, hother]
    nofun
  | destroy hi he => exact hs.set (by simp [hi]) _

/-- A step leaves the owners alone, or is one step of exclusive ownership. -/
theorem Steps.owned (h : s.Steps reactor t evs) (hs : s.Numbered) :
    t.owners = s.owners ∧ evs.filterMap ownership = [] ∨
      ∃ b, Ownership.machine.step s.owners b = some t.owners ∧
        Ownership.events s.owners b = evs.filterMap ownership := by
  cases h with
  | construct hx hdata =>
    refine .inl ⟨?_, rfl⟩
    rw [owners_create, hx, Function.update_eq_self_iff, owners_next hs]
  | @operate i x y evs hi hdata he =>
    have howners := s.owners_set i (some y)
    rw [Option.bind_some] at howners
    rw [howners]
    cases he with
    | keep hy =>
      refine .inl ⟨?_, rfl⟩
      rw [hy, Function.update_eq_self_iff, owners_eq hi]
    | @take d hx hy hd =>
      refine .inr ⟨.take i d, ?_, rfl⟩
      rw [hy]
      have hfree : ¬ Ownership.Held s.owners d := by
        rintro ⟨j, hj⟩
        exact hd j (owners_eq_some.mp hj)
      exact if_pos ⟨(owners_eq hi).trans hx, hfree⟩
    | close hy he =>
      refine .inr ⟨.drop i, ?_, ?_⟩
      · rw [hy]
        rfl
      · rw [he.ownership, ← owners_eq hi]
        rfl
  | @keep i x result hi h =>
    refine .inl ⟨?_, List.filterMap_eq_nil_iff.mpr fun e he => (h.quiet e he).ownership⟩
    rw [owners_set, Option.bind_some, Impl.descriptor_congr h.socket_eq,
      Function.update_eq_self_iff, owners_eq hi]
  | @moveConstruct other x y y' hother hx hy hdata hdata' =>
    refine .inr ⟨.move s.next other, ?_, ?_⟩
    · -- the source exists already, so it is not the new object
      have hne : s.next ≠ other := by
        rintro rfl
        rw [hs s.next le_rfl] at hother
        cases hother
      rw [owners_create, owners_set, Option.bind_some, hx, hy, ← owners_eq hother]
      exact congrArg some (Function.update_comm hne _ _ _)
    · exact congrArg (fun o : Option ℤ => o.toList.map OwnershipEvent.dropped) (owners_next hs)
  | @moveAssign i other x y x' y' evs hne hi hother hx hy hdata hdata' he =>
    refine .inr ⟨.move i other, ?_, ?_⟩
    · rw [owners_set, owners_set, Option.bind_some, Option.bind_some, hx, hy, ← owners_eq hother]
      rfl
    · rw [he.ownership, ← owners_eq hi]
      rfl
  | @destroy i x evs hi he =>
    refine .inr ⟨.drop i, ?_, ?_⟩
    · rw [owners_set]
      rfl
    · rw [he.ownership, ← owners_eq hi]
      rfl

/-- The calls of `lkl_close` close one descriptor, which is what the step drops. -/
theorem Steps.closes (h : s.Steps reactor t evs) :
    ∃ x, Closes x (evs.filter isLklClose) ∧ ∀ d ∈ x, .dropped d ∈ evs.filterMap ownership := by
  have hcloses {x : Option ℤ} {evs : List (ServiceEvent δ)} (he : Closes x evs) :
      ∃ x, Closes x (evs.filter isLklClose) ∧
        ∀ d ∈ x, .dropped d ∈ evs.filterMap ownership := by
    refine ⟨x, he.filter.symm ▸ he, fun d hd => ?_⟩
    rw [he.ownership]
    exact Ownership.mem_toList_map_dropped.mpr hd
  cases h with
  | construct hx hdata => exact hcloses .nothing
  | operate hi hdata he =>
    cases he with
    | keep hy => exact hcloses .nothing
    | take hx hy hd => exact ⟨none, .nothing, nofun⟩
    | close hy he => exact hcloses he
  | @keep i x result hi h =>
    have hnone : result.events.filter isLklClose = [] := by
      refine List.filter_eq_nil_iff.mpr fun e he => ?_
      simp [(h.quiet e he).isLklClose]
    rw [hnone]
    exact ⟨none, .nothing, nofun⟩
  | moveConstruct hother hx hy hdata hdata' => exact hcloses .nothing
  | moveAssign hne hi hother hx hy hdata hdata' he => exact hcloses he
  | destroy hi he => exact hcloses he

/-- No step closes a descriptor in the kernel of the host. -/
theorem Steps.hostClose_notMem (h : s.Steps reactor t evs) (d : ℤ) :
    .hostClose d ∉ evs := by
  cases h with
  | construct hx hdata => exact List.not_mem_nil
  | operate hi hdata he =>
    cases he with
    | keep hy => exact List.not_mem_nil
    | take hx hy hd => simp
    | close hy he => exact he.hostClose_notMem d
  | keep hi h => exact fun hd => h.quiet _ hd
  | moveConstruct hother hx hy hdata hdata' => exact List.not_mem_nil
  | moveAssign hne hi hother hx hy hdata hdata' he => exact he.hostClose_notMem d
  | destroy hi he => exact he.hostClose_notMem d

/-- An operation obtains a descriptor for an implementation: `lkl_socket` or the `lkl_accept` of a
round returns it, or the caller hands it over. -/
inductive Obtains (s : SocketService δ) : ServiceAction → ℕ → ℤ → Prop
  | openSocket {i : ℕ} {protocol : SocketType} {d : ℤ} {x : Impl δ} (hi : s.impl i = some x)
      (hx : ¬ x.IsOpen) (hd : 0 ≤ d) : Obtains s (.openSocket i protocol d) i d
  | assign {i : ℕ} {protocol : SocketType} {d : ℤ} {x : Impl δ} (hi : s.impl i = some x)
      (hx : ¬ x.IsOpen) (hd : d ≠ invalidSocket) : Obtains s (.assign i protocol d) i d
  | accept {i peer : ℕ} {before after : List (ℤ × ℤ)} {d p : ℤ} {x y : Impl δ}
      (hi : s.impl i = some x) (hpeer : s.impl peer = some y) (hx : x.IsOpen) (hy : ¬ y.IsOpen)
      (hagain : syncAccept 0 x.socket x.state before = none) (hd : 0 ≤ d) :
      Obtains s (.accept i peer (before ++ (d, p) :: after)) peer d

/-- What an operation obtains is among its events, and its implementation holds it. -/
theorem Performs.of_obtains (h : s.Performs reactor a t evs) (ho : s.Obtains a i d) :
    .obtained d ∈ evs ∧ t.Holds i d := by
  cases ho with
  | openSocket hi hx hd =>
    cases h with
    | openSocket hr hi' =>
      obtain rfl := Option.some.inj (hi.symm.trans hi')
      rw [Impl.openSocket_of_nonneg hx hd (hr.resolve_left (not_lt.mpr hd)).1]
      refine ⟨List.mem_singleton_self _, _, Function.update_self .., ?_, rfl⟩
      rintro rfl
      exact absurd hd (by decide)
    | call ha hi' => cases ha
  | assign hi hx hd =>
    cases h with
    | assign hd' hi' =>
      obtain rfl := Option.some.inj (hi.symm.trans hi')
      rw [if_neg (not_or.mpr ⟨hx, hd⟩), Impl.assign_of_not_isOpen hx]
      exact ⟨List.mem_cons_self, _, Function.update_self .., hd, rfl⟩
    | call ha hi' => cases ha
  | @accept i peer before after d p x y hi hpeer hx hy hagain hd =>
    cases h with
    | accept hr hi' hpeer' hresult =>
      obtain rfl := Option.some.inj (hi.symm.trans hi')
      obtain rfl := Option.some.inj (hpeer.symm.trans hpeer')
      have hne : d ≠ invalidSocket := by
        rintro rfl
        exact absurd hd (by decide)
      have hrange := (hr (d, p) (List.mem_append_right _ List.mem_cons_self)).resolve_left
        (not_lt.mpr hd)
      have hsync : syncAccept 0 x.socket x.state (before ++ (d, p) :: after) =
          some (d, success) := by
        rw [syncAccept_append hagain, syncAccept]
        simp [Lkl.accept, show x.socket ≠ invalidSocket from hx,
          toInt_call_of_nonneg hd hrange.1, hne]
      obtain rfl := Option.some.inj ((Impl.accept_of_socket hy hne hsync).symm.trans hresult)
      exact ⟨List.mem_singleton_self _, _, Function.update_self .., hne, rfl⟩
    | call ha hi' => cases ha

/-- A descriptor is obtained in no other way. -/
theorem Performs.obtains (h : s.Performs reactor a t evs) (hd : .obtained d ∈ evs) :
    ∃ i, s.Obtains a i d := by
  cases h with
  | construct => cases hd
  | @openSocket i protocol r x hr hi =>
    by_cases hnot : x.IsOpen ∨ r < 0
    · rw [(Impl.openSocket_of_not hnot protocol).2.2] at hd
      cases hd
    · obtain ⟨hx, hneg⟩ := not_or.mp hnot
      have hnonneg := not_lt.mp hneg
      rw [Impl.openSocket_of_nonneg hx hnonneg (hr.resolve_left hneg).1] at hd
      cases List.mem_singleton.mp hd
      exact ⟨i, .openSocket hi hx hnonneg⟩
  | @assign i protocol d' x hd' hi =>
    rw [x.assign_events protocol d'] at hd
    split at hd
    · cases hd
    · next hnot =>
      obtain ⟨hx, hne⟩ := not_or.mp hnot
      cases List.mem_singleton.mp hd
      exact ⟨i, .assign hi hx hne⟩
  | @accept i peer rounds x y result hr hi hpeer hresult =>
    rcases Impl.accept_cases (fun q hq => (hr q hq).imp_right And.left) hresult with
      ⟨-, hevents⟩ | ⟨hy, hx, before, d', p, after, rfl, hagain, hnonneg, rfl⟩
    · rw [hevents] at hd
      cases hd
    · cases List.mem_singleton.mp hd
      exact ⟨peer, .accept hi hpeer hx hy hagain hnonneg⟩
  | @close i calls x hi => exact absurd hd ((x.closes_close x.state false calls).obtained_notMem d)
  | moveConstruct hother => cases hd
  | @moveAssignSelf i calls x hi => exact absurd hd ((x.destroy_closes calls).obtained_notMem d)
  | @moveAssign i other calls x y hne hi hother =>
    exact absurd hd ((x.destroy_closes calls).obtained_notMem d)
  | @destroy i calls x hi => exact absurd hd ((x.destroy_closes calls).obtained_notMem d)
  | @call a i f x ha hi => exact ((ha.keeps x).quiet _ hd).elim

/-! ## The runs of the service -/

theorem perform_of_step (h : (machine reactor).step s a = some t) :
    s.perform reactor a = some (t, s.events reactor a) := by
  obtain ⟨⟨u, evs⟩, hp, rfl⟩ := Option.map_eq_some_iff.mp h
  rw [events, hp]
  rfl

theorem performs_of_step (h : (machine reactor).step s a = some t) :
    s.Performs reactor a t (s.events reactor a) := perform_cases (perform_of_step h)

theorem numbered_of_reachable (h : (machine reactor).Reachable s) : s.Numbered := by
  refine h.invariant ?_ ?_
  · rintro _ rfl i -
    rfl
  · intro s a t _ hs h
    exact ((performs_of_step h).steps hs).numbered hs

theorem steps_of_step (hs : (machine reactor).Reachable s)
    (h : (machine reactor).step s a = some t) : s.Steps reactor t (s.events reactor a) :=
  (performs_of_step h).steps (numbered_of_reachable hs)

/-- The service **implements exclusive ownership** of the descriptors. -/
theorem implements_ownership (reactor : Reactor δ) :
    Machine.Implements (machine reactor) Ownership.machine owners
      (fun s a => (s.events reactor a).filterMap ownership) Ownership.events where
  init := by
    rintro _ rfl
    rfl
  step := by
    intro s a t hs h
    have howned := (steps_of_step hs h).owned (numbered_of_reachable hs)
    rcases howned with ⟨howners, hevents⟩ | ⟨b, hb, hevents⟩
    · exact ⟨[], congrArg some howners.symm, hevents.symm⟩
    · refine ⟨[b], ?_, ?_⟩
      · rw [Machine.exec_cons, hb]
        rfl
      · simp [Machine.trace, hb, hevents]

theorem owners_exclusive (h : (machine reactor).Reachable s) : Ownership.Exclusive s.owners := by
  obtain ⟨s₀, as, hi, he⟩ := h
  obtain ⟨bs, hb, -⟩ := (implements_ownership reactor).exec hi he
  exact Ownership.exclusive ((Machine.Reachable.of_init rfl).exec (hi ▸ hb))

/-- What an operation closes was held, and is not held any more. -/
theorem held_of_closed (hs : (machine reactor).Reachable s)
    (h : (machine reactor).step s a = some t)
    (hd : .dropped d ∈ (s.events reactor a).filterMap ownership) :
    (∃ i, s.Holds i d) ∧ ∀ i, ¬ t.Holds i d := by
  rcases (steps_of_step hs h).owned (numbered_of_reachable hs) with ⟨-, hevents⟩ | ⟨b, hb, hevents⟩
  · rw [hevents] at hd
    cases hd
  · rw [← hevents] at hd
    obtain ⟨⟨i, hi⟩, hnot⟩ := Ownership.dropped (owners_exclusive hs) hb hd
    exact ⟨⟨i, owners_eq_some.mp hi⟩, fun j hj => hnot ⟨j, owners_eq_some.mpr hj⟩⟩

/-- A descriptor that was obtained is held, or was closed since. -/
theorem held_or_closed {as : List ServiceAction} (he : (machine reactor).exec empty as = some s)
    {pre post : List (ServiceEvent δ)}
    (h : (machine reactor).trace (events reactor) empty as = pre ++ .obtained d :: post) :
    (∃ r, .close d r ∈ post) ∨ ∃ i, s.Holds i d := by
  obtain ⟨bs, hb, htrace⟩ := (implements_ownership reactor).exec rfl he
  rw [Machine.trace_filterMap, h, List.filterMap_append,
    List.filterMap_cons_some (show ownership (.obtained d) = some (.taken d) from rfl)] at htrace
  rcases Ownership.accounted hb htrace with hdropped | ⟨i, hi⟩
  · exact .inl (exists_close_of_mem hdropped)
  · exact .inr ⟨i, owners_eq_some.mp hi⟩

/-- **The descriptors of LKL**, in every run. No two implementations hold the same one. What LKL
returns or a caller hands over is obtained, and held by the implementation that it was obtained for.
Each descriptor that was obtained was closed since, or is held by exactly one implementation. A step
closes at most one, which was held until then and is held by none after it, with one repetition at
most. The kernel of the host closes none. -/
theorem descriptors_owned {as : List ServiceAction}
    (he : (machine reactor).exec empty as = some s) :
    (∀ i j d, s.Holds i d → s.Holds j d → i = j) ∧
      (∀ pre d post,
        (machine reactor).trace (events reactor) empty as = pre ++ .obtained d :: post →
          (∃ r, .close d r ∈ post) ∨ ∃! i, s.Holds i d) ∧
      (∀ t a u, (machine reactor).Takes empty as t a u →
        ∃ x, Closes x ((t.events reactor a).filter isLklClose) ∧
          ∀ d ∈ x, (∃ i, t.Holds i d) ∧ ∀ i, ¬ u.Holds i d) ∧
      (∀ t a u, (machine reactor).Takes empty as t a u →
        (∀ i d, t.Obtains a i d → .obtained d ∈ t.events reactor a ∧ u.Holds i d) ∧
          ∀ d, .obtained d ∈ t.events reactor a → ∃ i, t.Obtains a i d) ∧
      ∀ d, .hostClose d ∉ (machine reactor).trace (events reactor) empty as := by
  have hinit : (machine reactor).init empty := rfl
  have hexclusive (i j : ℕ) (d : ℤ) (hi : s.Holds i d) (hj : s.Holds j d) : i = j :=
    owners_exclusive ⟨empty, as, hinit, he⟩ i j d (owners_eq_some.mpr hi) (owners_eq_some.mpr hj)
  refine ⟨hexclusive, ?_, ?_, ?_, ?_⟩
  · intro pre d post htrace
    rcases held_or_closed he htrace with hclosed | ⟨i, hi⟩
    · exact .inl hclosed
    · exact .inr ⟨i, hi, fun j hj => hexclusive j i d hj hi⟩
  · intro t a u hT
    have ht := hT.visits_left.reachable hinit
    obtain ⟨x, hx, hdropped⟩ := (steps_of_step ht hT.step_eq).closes
    exact ⟨x, hx, fun d hd => held_of_closed ht hT.step_eq (hdropped d hd)⟩
  · intro t a u hT
    have hp := performs_of_step hT.step_eq
    exact ⟨fun i d ho => hp.of_obtains ho, fun d hd => hp.obtains hd⟩
  · intro d hd
    obtain ⟨t, a, u, hT, hmem⟩ := Machine.exists_takes_of_mem_trace _ _ he hd
    exact (steps_of_step (hT.visits_left.reachable hinit) hT.step_eq).hostClose_notMem d hmem

/-- A socket is opened, the service accepts into a second one, and the second one is moved onto the
first, which is closed with one repetition. -/
def movedRun : List ServiceAction :=
  [.construct, .openSocket 0 .stream 3, .construct, .accept 0 1 [(-11, 1), (4, 0)],
    .moveAssign 0 1 ⟨-11, 0⟩]

theorem descriptors_owned_moved :
    ∃ s, (machine Reactor.epoll).exec empty movedRun = some s ∧
      (∀ i j d, s.Holds i d → s.Holds j d → i = j) ∧ ∃! i, s.Holds i 4 := by
  obtain ⟨s, hs⟩ : ∃ s, (machine Reactor.epoll).exec empty movedRun = some s :=
    Option.isSome_iff_exists.mp (by decide)
  obtain ⟨hexclusive, hobtained, -, -, -⟩ := descriptors_owned hs
  refine ⟨s, hs, hexclusive, ?_⟩
  refine (hobtained [.obtained 3] 4 [.close 3 (-11), .closeAgain 3 0] rfl).resolve_left ?_
  rintro ⟨r, hr⟩
  simp at hr

end SocketService

end Lkl

end LklSocks
