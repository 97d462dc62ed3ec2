import LklSocks.Lkl.SocketOps
import LklSocks.SocksConnection.Remaining

/-!
# A connection over the results of LKL

The outcomes of the operations on the remote socket are what the socket operations make of the
results of LKL. A transfer whose failure is not translated returns no bytes and no error: the relay
loop and `asio::write` take it for progress and go on. A connect whose failure is not translated
returns, and the client is told so. A socket that is not opened and reports nothing is found closed
by the connect that follows.

## Main definitions

* `LklAnswers`: the results of LKL in a step, and what comes with them
* `LklAnswers.answer`: what the operation gives its caller
* `SocksConnection.LklSteps`: the steps of a connection over the results of LKL
* `SocksConnection.Told`: what the client was told about the connects

## Main results

* `SocksConnection.Admissible.answer_ne_nothing_iff`: an operation makes no progress exactly when a
  failure of its transfer is not translated
* `SocksConnection.Told.lklSteps`: a step tells the client of its own connect only
* `SocksConnection.Told.iff`: whether the client is told of an established connection
-/

namespace LklSocks

/-- What an operation gives its caller: an outcome, or no bytes and no error. -/
inductive Answer
  | outcome (out : Outcome)
  | nothing
  deriving DecidableEq, Repr

def Answer.toOption : Answer → Option Outcome
  | outcome out => some out
  | nothing => none

/-- The operations on the remote socket. -/
inductive RemoteOperation
  | opening
  | connecting
  | sending
  | receiving
  deriving DecidableEq, Repr

/-- The results of LKL in a step: of `lkl_socket`, of the calls of `sync_connect`, and of those of a
transfer with their polls; and what comes with them, the bytes that the new peer is going to send
and the bytes that are received. -/
structure LklAnswers where
  errno : ℤ
  descriptor : ℤ
  socket : ℤ
  connect : Lkl.ConnectCalls
  incoming : List UInt8
  transfer : List ℤ
  bytes : List UInt8

/-- What a transfer gives its caller. -/
def Answer.transferred (n : ℤ) (ec : ErrorCode) (out : Outcome) : Answer :=
  if ec ≠ .success then .outcome (.error ec) else if n = 0 then .nothing else .outcome out

namespace LklAnswers

/-- What the operation gives its caller, if it returns after the last of the results. -/
def answer (k : LklAnswers) : RemoteOperation → Option Answer
  | .opening =>
    let (s, ec) := Lkl.socket k.errno k.socket
    if s ≠ Lkl.invalidSocket then some (.outcome .ok)
    else if ec ≠ .success then some (.outcome (.error ec))
    -- the connect that follows finds the socket closed
    else some (.outcome (.error (Lkl.syncConnect k.errno s k.connect)))
  | .connecting =>
    let ec := Lkl.syncConnect k.errno k.descriptor k.connect
    some (.outcome (if ec = .success then .connected k.incoming else .error ec))
  | .sending =>
    (Lkl.syncSend k.errno k.descriptor Lkl.streamFlags k.transfer).bind fun r =>
      if r.2.2 = [] then some (.transferred r.1 r.2.1 (.wrote r.1.toNat)) else none
  | .receiving =>
    (Lkl.syncRecv k.errno k.descriptor Lkl.streamFlags k.transfer).bind fun r =>
      if r.2.2 = [] ∧ (r.2.1 = .success → r.1 = k.bytes.length) then
        some (.transferred r.1 r.2.1 (.data k.bytes))
      else none

/-- The results of the transfer that the operation is. -/
def transfers (k : LklAnswers) : RemoteOperation → List ℤ
  | .sending => k.transfer
  | .receiving => k.transfer
  | _ => []

end LklAnswers

/-- The step with another outcome. -/
def ConnectionAction.withOutcome (out : Outcome) : ConnectionAction → ConnectionAction
  | host useCount _ => .host useCount out
  | remote useCount _ => .remote useCount out
  | a => a

namespace SocksConnection

/-- The operation on the remote socket that a step makes. -/
def remoteOperation (c : SocksConnection) : ConnectionAction → Option RemoteOperation
  | .host _ _ =>
    match c.hostThread with
    | .openRemote _ => some .opening
    | .connectRemote _ => some .connecting
    | .relay (.write _ _) => some .sending
    | _ => none
  | .remote _ _ =>
    match c.remoteThread with
    | .relay .read => some .receiving
    | _ => none
  | _ => none

/-- The results that LKL can give: the socket has a descriptor while it is open, a transfer has at
most as many bytes as an `int` counts, and no bytes are sent only by a failure. -/
structure Admissible (c : SocksConnection) (k : LklAnswers) (op : RemoteOperation) : Prop where
  descriptor : k.descriptor ≠ Lkl.invalidSocket ↔ c.remoteSocket.isOpen = true
  transfer : ∀ r ∈ k.transfer, r < 2 ^ 31
  sent : op = .sending → 0 ∉ k.transfer

theorem admissible_iff (c : SocksConnection) (k : LklAnswers) (op : RemoteOperation) :
    c.Admissible k op ↔
      (k.descriptor ≠ Lkl.invalidSocket ↔ c.remoteSocket.isOpen = true) ∧
        (∀ r ∈ k.transfer, r < 2 ^ 31) ∧ (op = .sending → 0 ∉ k.transfer) :=
  ⟨fun h => ⟨h.descriptor, h.transfer, h.sent⟩, fun h => ⟨h.1, h.2.1, h.2.2⟩⟩

instance (c : SocksConnection) (k : LklAnswers) (op : RemoteOperation) :
    Decidable (c.Admissible k op) :=
  decidable_of_iff' _ (c.admissible_iff k op)

/-- The results of a connect that reaches LKL. -/
def connectCalls (c : SocksConnection) (l : ConnectionAction × LklAnswers) :
    List Lkl.ConnectCalls :=
  if c.remoteOperation l.1 = some .connecting ∧ c.remoteSocket.isOpen = true then [l.2.connect]
  else []

/-- The steps over the results of LKL, one rule for each kind of answer. -/
inductive LklSteps (c : SocksConnection) (a : ConnectionAction) (k : LklAnswers) :
    SocksConnection → Prop
  | other {c' : SocksConnection} (ho : c.remoteOperation a = none) (hs : c.step a = some c') :
      LklSteps c a k c'
  | outcome {c' : SocksConnection} {op : RemoteOperation} {out : Outcome}
      (ho : c.remoteOperation a = some op) (hk : c.Admissible k op)
      (ha : k.answer op = some (.outcome out)) (hs : c.step (a.withOutcome out) = some c') :
      LklSteps c a k c'
  | nothing {op : RemoteOperation} (ho : c.remoteOperation a = some op)
      (hk : c.Admissible k op) (ha : k.answer op = some .nothing) : LklSteps c a k c

end SocksConnection

/-! ## The transfers -/

namespace Lkl

/-- A transfer that ends with no bytes and no error has ended with a failure, if the kernel sends
no empty part. -/
theorem sendLoop_failed {errno s : ℤ} {flags : TransferFlags} {calls : List ℤ}
    (hcalls : ∀ r ∈ calls, r < 2 ^ 31) (hs : s ≠ invalidSocket) (hzero : 0 ∉ calls)
    (hloop : sendLoop errno s flags calls = some (0, .success, [])) :
    ∃ r ∈ calls.getLast?, r < 0 := by
  fun_induction sendLoop errno s flags calls with
  | case1 => cases hloop
  | case2 r calls bytes code hsend hpos =>
    cases hloop
    have hcall := (send_eq_call errno r).symm.trans hsend
    rcases call_cases errno r with ⟨-, -, hc⟩ | ⟨-, -, hc⟩ | ⟨-, -, hc⟩
    · obtain rfl : r = 0 := congrArg Prod.fst (hc.symm.trans hcall)
      exact absurd List.mem_cons_self hzero
    · cases hc.symm.trans hcall
    · cases hc.symm.trans hcall
  | case3 r calls bytes code hsend hneg hfail =>
    cases hloop
    have hcall := (send_eq_call errno r).symm.trans hsend
    exact ⟨r, rfl, (neg_iff_of_call hcall).mp (not_le.mp hneg)⟩
  | case4 => cases hloop
  | case5 r bytes code hsend hneg hfail p calls ready code' hpoll hready =>
    cases hloop
    exact ⟨p, rfl, ((poll_spec hs (hcalls p (by simp)) hpoll).2 hready).1⟩
  | case6 r bytes code hsend hneg hfail p calls ready code' hpoll hready ih =>
    have hlast : (r :: p :: calls).getLast? = calls.getLast? := by
      cases calls with
      | nil => cases hloop
      | cons q calls => rfl
    rw [hlast]
    exact ih (fun r hr => hcalls r (by simp [hr])) (fun h => hzero (by simp [h])) hloop

end Lkl

theorem Answer.transferred_eq_nothing {n : ℤ} {ec : ErrorCode} {out : Outcome} :
    Answer.transferred n ec out = .nothing ↔ ¬ (n = 0 → ec ≠ .success) := by
  unfold transferred
  by_cases hec : ec = .success <;> by_cases hn : n = 0 <;> simp [hec, hn]

namespace LklAnswers

variable {k : LklAnswers} {answer : Answer}

/-- A receive gives no bytes and no error exactly when a failure is not translated. -/
theorem receiving_iff (hk : ∀ r ∈ k.transfer, r < 2 ^ 31)
    (ha : k.answer .receiving = some answer) :
    answer ≠ .nothing ↔ ∀ r ∈ k.transfer, Reported r := by
  obtain ⟨⟨n, ec, rest⟩, hrun, ha⟩ := Option.bind_eq_some_iff.mp ha
  obtain ⟨⟨hrest, -⟩, ha⟩ := Option.ite_none_right_eq_some.mp ha
  obtain rfl : rest = [] := hrest
  obtain rfl := Option.some.inj ha
  rw [Ne, Answer.transferred_eq_nothing, not_not]
  exact Lkl.syncRecv_iff k.errno k.descriptor rfl rfl hk hrun

/-- A send gives no bytes and no error exactly when a failure is not translated. -/
theorem sending_iff (hk : ∀ r ∈ k.transfer, r < 2 ^ 31) (hzero : 0 ∉ k.transfer)
    (ha : k.answer .sending = some answer) :
    answer ≠ .nothing ↔ ∀ r ∈ k.transfer, Reported r := by
  obtain ⟨⟨n, ec, rest⟩, hrun, ha⟩ := Option.bind_eq_some_iff.mp ha
  obtain ⟨hrest, ha⟩ := Option.ite_none_right_eq_some.mp ha
  obtain rfl : rest = [] := hrest
  obtain rfl := Option.some.inj ha
  rw [Ne, Answer.transferred_eq_nothing, not_not,
    ← Lkl.syncSend_iff k.errno k.descriptor rfl hk hrun]
  constructor
  · exact fun h r _ _ => h
  · rintro h rfl rfl
    unfold Lkl.syncSend at hrun
    split at hrun
    · cases hrun
    · next hs =>
      obtain ⟨r, hr, hneg⟩ := Lkl.sendLoop_failed hk hs hzero hrun
      exact h r hr hneg rfl rfl

/-- Only a transfer gives nothing. -/
theorem answer_ne_nothing {op : RemoteOperation} (hs : op ≠ .sending) (hr : op ≠ .receiving)
    (ha : k.answer op = some answer) : answer ≠ .nothing := by
  rintro rfl
  cases op with
  | opening =>
    simp only [LklAnswers.answer] at ha
    split at ha
    · cases ha
    · split at ha <;> cases ha
  | connecting => cases ha
  | sending => exact hs rfl
  | receiving => exact hr rfl

end LklAnswers

namespace SocksConnection

variable {c c' : SocksConnection} {a : ConnectionAction} {k : LklAnswers} {op : RemoteOperation}
  {out : Outcome}

/-- **An operation makes no progress exactly when a failure of its transfer is not translated.** -/
theorem Admissible.answer_ne_nothing_iff {answer : Answer} (hk : c.Admissible k op)
    (ha : k.answer op = some answer) :
    answer ≠ .nothing ↔ ∀ r ∈ k.transfers op, Reported r := by
  cases op with
  | opening =>
    have hne := LklAnswers.answer_ne_nothing (fun h => by cases h) (fun h => by cases h) ha
    exact iff_of_true hne fun r hr => absurd hr List.not_mem_nil
  | connecting =>
    have hne := LklAnswers.answer_ne_nothing (fun h => by cases h) (fun h => by cases h) ha
    exact iff_of_true hne fun r hr => absurd hr List.not_mem_nil
  | sending => exact LklAnswers.sending_iff hk.transfer (hk.sent rfl) ha
  | receiving => exact LklAnswers.receiving_iff hk.transfer ha

/-- A transfer that makes no progress is on an open socket. -/
theorem Admissible.isOpen_of_nothing (hk : c.Admissible k op) (ha : k.answer op = some .nothing) :
    c.remoteSocket.isOpen = true := by
  by_contra hopen
  have hinvalid : k.descriptor = Lkl.invalidSocket :=
    by_contra fun hne => hopen (hk.descriptor.mp hne)
  cases op with
  | opening => exact LklAnswers.answer_ne_nothing (fun h => by cases h) (fun h => by cases h) ha rfl
  | connecting =>
    exact LklAnswers.answer_ne_nothing (fun h => by cases h) (fun h => by cases h) ha rfl
  | sending =>
    obtain ⟨r, hrun, ha⟩ := Option.bind_eq_some_iff.mp ha
    obtain rfl := Option.some.inj ((if_pos hinvalid).symm.trans hrun)
    obtain ⟨-, ha⟩ := Option.ite_none_right_eq_some.mp ha
    cases ha
  | receiving =>
    obtain ⟨r, hrun, ha⟩ := Option.bind_eq_some_iff.mp ha
    obtain rfl := Option.some.inj ((if_pos hinvalid).symm.trans hrun)
    obtain ⟨-, ha⟩ := Option.ite_none_right_eq_some.mp ha
    cases ha

/-! ## The connect -/

/-- The step is a connect that returns. -/
def Connects (c : SocksConnection) (a : ConnectionAction) : Prop :=
  (∃ request, c.hostThread = .connectRemote request) ∧
    ∃ useCount incoming, a = .host useCount (.connected incoming)

/-- A connect is made once, and only one that returns begins a success reply. -/
theorem HandshakeSteps.success_iff {useCount : ℕ} (hs : c.HandshakeSteps useCount out c') :
    c'.hostThread.connectsLeft ≤ c.hostThread.connectsLeft ∧
    (.success ∈ c'.replies ↔ .success ∈ c.replies ∨ c.Connects (.host useCount out)) := by
  have hsame {p : HostPoint} (hp : c.hostThread = p) (hne : ∀ request, p ≠ .connectRemote request) :
      .success ∈ c.replies ↔ .success ∈ c.replies ∨ c.Connects (.host useCount out) := by
    refine (or_iff_left ?_).symm
    rintro ⟨⟨request, hr⟩, -⟩
    exact hne request (hp.symm.trans hr)
  have hfailed (hne : ∀ incoming, out ≠ .connected incoming) :
      .success ∈ c.replies ++ [.failed] ↔
        .success ∈ c.replies ∨ c.Connects (.host useCount out) := by
    rw [List.mem_append]
    refine or_congr Iff.rfl (iff_of_false (fun h => by cases List.mem_singleton.mp h) ?_)
    rintro ⟨-, u, incoming, ha⟩
    cases ha
    exact hne incoming rfl
  cases hs with
  | openError hp => exact ⟨hp ▸ Nat.zero_le _, hfailed fun incoming h => by cases h⟩
  | connectError hp => exact ⟨hp ▸ Nat.zero_le _, hfailed fun incoming h => by cases h⟩
  | @connected request incoming hp ho =>
    refine ⟨Nat.zero_le _, ?_⟩
    show .success ∈ c.replies ++ [.success] ↔ _
    rw [List.mem_append]
    exact or_congr Iff.rfl (iff_of_true (List.mem_singleton_self _)
      ⟨⟨request, hp⟩, useCount, incoming, rfl⟩)
  | @endReply code rest n hp hw hr =>
    refine ⟨?_, hsame hp fun request h => by cases h⟩
    rw [hp]
    cases code <;> exact le_rfl
  | _ hp => exact ⟨by rw [hp]; first | exact le_rfl | exact Nat.zero_le _,
      hsame hp fun request h => by cases h⟩

theorem Steps.success_iff (hs : c.Steps a c') :
    c'.hostThread.connectsLeft ≤ c.hostThread.connectsLeft ∧
    (.success ∈ c'.replies ↔ .success ∈ c.replies ∨ c.Connects a) := by
  have hother (ha : ∀ useCount out, a ≠ .host useCount out) :
      .success ∈ c.replies ↔ .success ∈ c.replies ∨ c.Connects a := by
    refine (or_iff_left ?_).symm
    rintro ⟨-, useCount, incoming, h⟩
    exact ha _ _ h
  cases hs with
  | accept ho hd => exact ⟨le_rfl, hother fun _ _ h => by cases h⟩
  | start hp hd => exact ⟨by rw [hp]; exact le_rfl, hother fun _ _ h => by cases h⟩
  | @host useCount out d hu hs =>
    have hd := hs.success_iff
    obtain ⟨_, -, he⟩ := d.releaseHost_eq
    rw [he]
    exact hd
  | @remote useCount out point r hu hp hs =>
    obtain ⟨_, -, he⟩ := (c.relayedRemote r).releaseRemote_eq
    rw [he]
    exact ⟨le_rfl, hother fun _ _ h => by cases h⟩
  | destroy hd => exact ⟨le_rfl, hother fun _ _ h => by cases h⟩
  | destructor hs =>
    have hrest := hother fun _ _ h => by cases h
    cases hs <;> exact ⟨le_rfl, hrest⟩

/-- What the client was told about the connects that reached LKL. -/
inductive Told (c : SocksConnection) : List Lkl.ConnectCalls → Prop
  | none (hr : .success ∉ c.replies) : Told c []
  | connect {calls : Lkl.ConnectCalls} {errno s : ℤ} (hs : s ≠ Lkl.invalidSocket)
      (hr : .success ∈ c.replies ↔ Lkl.syncConnect errno s calls = .success)
      (hp : c.hostThread.connectsLeft = 0) : Told c [calls]

theorem remoteOperation_eq_connecting (h : c.remoteOperation a = some .connecting) :
    (∃ request, c.hostThread = .connectRemote request) ∧
      ∃ useCount out, a = .host useCount out := by
  unfold remoteOperation at h
  split at h
  · split at h
    · cases h
    · next request hp => exact ⟨⟨request, hp⟩, _, _, rfl⟩
    · cases h
    · cases h
  · split at h <;> cases h
  · cases h

theorem connects_withOutcome (hp : ∃ request, c.hostThread = .connectRemote request)
    (ha : ∃ useCount out, a = .host useCount out) :
    c.Connects (a.withOutcome out) ↔ ∃ incoming, out = .connected incoming := by
  obtain ⟨useCount, out', rfl⟩ := ha
  constructor
  · rintro ⟨-, u, incoming, h⟩
    cases h
    exact ⟨incoming, rfl⟩
  · rintro ⟨incoming, rfl⟩
    exact ⟨hp, useCount, incoming, rfl⟩

/-- After the connect there is no other. -/
theorem Steps.connectsLeft_eq {useCount : ℕ} {request : Socks4Request}
    (hs : c.Steps (.host useCount out) c') (hp : c.hostThread = .connectRemote request) :
    c'.hostThread.connectsLeft = 0 := by
  cases hs with
  | @host _ _ d hu hs =>
    obtain ⟨_, -, he⟩ := d.releaseHost_eq
    rw [he]
    cases hs with
    | connected hp' ho => rfl
    | connectError hp' => rfl
    | _ hp' => cases hp.symm.trans hp'

/-- A step of the connection that is not a connect. -/
theorem Told.of_steps {xs : List Lkl.ConnectCalls} (h : c.Told xs) (hs : c.Steps a c')
    (ha : ¬ c.Connects a) : c'.Told xs := by
  obtain ⟨hleft, hiff⟩ := hs.success_iff
  have hreplies := hiff.trans (or_iff_left ha)
  cases h with
  | none hr => exact .none fun hm => hr (hreplies.mp hm)
  | connect hd hr hp => exact .connect hd (hreplies.trans hr) (Nat.le_zero.mp (hp ▸ hleft))

/-- The connect. -/
theorem Told.connecting {xs : List Lkl.ConnectCalls} (h : c.Told xs)
    (ho : c.remoteOperation a = some .connecting) (hk : c.Admissible k .connecting)
    (ha : k.answer .connecting = some (.outcome out))
    (hs : c.Steps (a.withOutcome out) c') : c'.Told (xs ++ c.connectCalls (a, k)) := by
  obtain ⟨⟨request, hp⟩, hhost⟩ := remoteOperation_eq_connecting ho
  have hconnects : c.Connects (a.withOutcome out) ↔ ∃ incoming, out = .connected incoming :=
    connects_withOutcome ⟨request, hp⟩ hhost
  obtain ⟨hleft, hiff⟩ := hs.success_iff
  have hout : (∃ incoming, out = .connected incoming) ↔
      Lkl.syncConnect k.errno k.descriptor k.connect = .success := by
    obtain rfl := Answer.outcome.inj (Option.some.inj ha)
    by_cases hec : Lkl.syncConnect k.errno k.descriptor k.connect = .success
    · rw [if_pos hec]
      exact iff_of_true ⟨_, rfl⟩ hec
    · rw [if_neg hec]
      exact iff_of_false (fun ⟨_, he⟩ => by cases he) hec
  cases h with
  | connect hd hr hleft' =>
    rw [hp] at hleft'
    cases hleft'
  | none hr =>
    have hsuccess : .success ∈ c'.replies ↔
        Lkl.syncConnect k.errno k.descriptor k.connect = .success := by
      rw [hiff, or_iff_right hr, hconnects, hout]
    unfold connectCalls
    by_cases hopen : c.remoteSocket.isOpen = true
    · rw [if_pos ⟨ho, hopen⟩]
      obtain ⟨useCount, out', rfl⟩ := hhost
      exact .connect (hk.descriptor.mpr hopen) hsuccess (hs.connectsLeft_eq hp)
    · rw [if_neg fun h => hopen h.2]
      have hinvalid : k.descriptor = Lkl.invalidSocket :=
        by_contra fun hne => hopen (hk.descriptor.mp hne)
      refine .none fun hm => ?_
      have hcode := hsuccess.mp hm
      rw [hinvalid] at hcode
      cases hcode

theorem Told.lklSteps {xs : List Lkl.ConnectCalls} (h : c.Told xs) (hs : c.LklSteps a k c') :
    c'.Told (xs ++ c.connectCalls (a, k)) := by
  have hrest (ho : c.remoteOperation a ≠ some .connecting) :
      xs ++ c.connectCalls (a, k) = xs := by
    rw [connectCalls, if_neg fun h => ho h.1, List.append_nil]
  have hno (ho : c.remoteOperation a ≠ some .connecting) : ¬ c.Connects a := by
    rintro ⟨⟨request, hp⟩, u, incoming, rfl⟩
    exact ho (by simp only [remoteOperation, hp])
  cases hs with
  | other ho hs =>
    have hne : c.remoteOperation a ≠ some .connecting := by
      rw [ho]
      intro h
      cases h
    rw [hrest hne]
    exact h.of_steps (step_cases hs) (hno hne)
  | @outcome _ op out ho hk ha hs =>
    by_cases hop : op = .connecting
    · subst hop
      exact h.connecting ho hk ha (step_cases hs)
    · have hne : c.remoteOperation a ≠ some .connecting := by
        rw [ho]
        exact fun h => hop (Option.some.inj h)
      rw [hrest hne]
      refine h.of_steps (step_cases hs) ?_
      rintro ⟨⟨request, hp⟩, u, incoming, he⟩
      cases a with
      | host n out' => exact hne (by simp only [remoteOperation, hp])
      | _ => cases he
  | @nothing op ho hk ha =>
    have hne : c.remoteOperation a ≠ some .connecting := by
      rw [ho]
      intro h
      obtain rfl := Option.some.inj h
      cases ha
    rw [hrest hne]
    exact h

/-- A success is promised for an established connection exactly when the results of the connect are
translated. -/
theorem Told.iff {xs : List Lkl.ConnectCalls} (h : c.Told xs) :
    (.success ∈ c.replies → ∃ calls ∈ xs, calls.Succeeded) ↔ ∀ calls ∈ xs, calls.Reported := by
  cases h with
  | none hr => exact iff_of_true (fun hm => absurd hm hr) fun calls hm => absurd hm List.not_mem_nil
  | connect hs hr hp =>
    rw [hr]
    simpa using Lkl.syncConnect_iff _ hs _

end SocksConnection

end LklSocks
