import LklSocks.Lkl.SocketService
import LklSocks.Machine.Attempts

/-!
# The non-blocking operations

Beside each synchronous operation `socket_ops` has one for a reactor, which makes its call once and
says whether it has to be made again when the socket is ready. Unlike the synchronous operation it
repeats a call that a signal interrupted. With this exception both come to the same end for the same
results of LKL, and store the same.

## Main definitions

* `Lkl.Transferred`: what a transfer gives its caller
* `Lkl.recvfrom`, `Lkl.recvmsg`, `Lkl.sendto`: the calls that `SocketOps` does not have
* `Lkl.transferLoop`, `Lkl.syncRecvfrom`, `Lkl.syncRecvmsg`, `Lkl.syncSendto`: their loops
* `Lkl.nonBlockingTransfer`, `Lkl.nonBlockingAccept`, `Lkl.nonBlockingConnect`: the non-blocking
  operations
* `Lkl.Ends`, `Lkl.AcceptEnds`: what a non-blocking operation comes to when it is driven
* `Lkl.Agrees`, `Lkl.AcceptAgrees`: a synchronous operation goes as the non-blocking one

## Main results

* `Lkl.nonBlocking_agrees`: the synchronous transfers go as the non-blocking ones
* `Lkl.nonBlocking_connections_agree`: so does `accept`, and nearly so `connect`
-/

namespace LklSocks

namespace ErrorCode

def interrupted : ErrorCode := .system Errno.EINTR.value

end ErrorCode

namespace Lkl

open ErrorCode

/-! ## The calls -/

/-- What a transfer gives its caller: the number of bytes, the error code, and what it stores in its
other arguments. -/
structure Transferred (ν : Type) where
  bytes : ℤ
  ec : ErrorCode
  out : ν
  deriving DecidableEq, Repr

/-- What LKL gives for a message: the result of the call, and the length of the address and the
flags that are in the `msghdr` after it. -/
structure MsgResult where
  result : ℤ
  namelen : ℕ
  flags : ℤ
  deriving DecidableEq, Repr

/-- `recvfrom`, which stores the length of the address. -/
def recvfrom (errno : ℤ) (msg : MsgResult) : Transferred ℕ :=
  let (result, ec) := call errno msg.result
  ⟨result, if 0 ≤ result then success else ec, msg.namelen⟩

/-- `recvmsg`, which stores the flags. -/
def recvmsg (errno : ℤ) (msg : MsgResult) : Transferred ℤ :=
  let (result, ec) := call errno msg.result
  if 0 ≤ result then ⟨result, success, msg.flags⟩ else ⟨result, ec, 0⟩

def sendto (errno r : ℤ) : ℤ × ErrorCode :=
  let (result, ec) := call errno r
  (result, if 0 ≤ result then success else ec)

/-- A call that stores nothing. -/
def plain (call : ℤ → ℤ × ErrorCode) (r : ℤ) : Transferred Unit := ⟨(call r).1, (call r).2, ()⟩

/-! ## The synchronous operations -/

variable {α ν : Type}

/-- The loop of `sync_recvfrom`, `sync_recvmsg` and `sync_sendto`, which differ in the call and in
the poll: what it gives and the results that are left, or nothing if the loop goes on after the last
result. -/
def transferLoop (call : α → Transferred ν) (poll : α → ℤ × ErrorCode)
    (userSetNonBlocking : Bool) : List α → Option (Transferred ν × List α)
  | [] => none
  | r :: calls =>
    let t := call r
    if 0 ≤ t.bytes then some (t, calls)
    else if userSetNonBlocking = true ∨ (t.ec ≠ wouldBlock ∧ t.ec ≠ tryAgain) then
      some (⟨0, t.ec, t.out⟩, calls)
    else
      match calls with
      | [] => none
      | p :: calls =>
        let (ready, ec) := poll p
        if ready < 0 then some (⟨0, ec, t.out⟩, calls)
        else transferLoop call poll userSetNonBlocking calls

/-- `sync_recvfrom`, for an address of the length `addrlen`. -/
def syncRecvfrom (errno s : ℤ) (userSetNonBlocking : Bool) (addrlen : ℕ)
    (calls : List MsgResult) : Option (Transferred ℕ × List MsgResult) :=
  if s = invalidSocket then some (⟨0, badDescriptor, addrlen⟩, calls)
  else
    transferLoop (recvfrom errno) (fun p => pollRead errno s false p.result) userSetNonBlocking
      calls

/-- `sync_recvmsg`, for the flags `outFlags` before it. -/
def syncRecvmsg (errno s : ℤ) (userSetNonBlocking : Bool) (outFlags : ℤ)
    (calls : List MsgResult) : Option (Transferred ℤ × List MsgResult) :=
  if s = invalidSocket then some (⟨0, badDescriptor, outFlags⟩, calls)
  else
    transferLoop (recvmsg errno) (fun p => pollRead errno s false p.result) userSetNonBlocking calls

def syncSendto (errno s : ℤ) (userSetNonBlocking : Bool) (calls : List ℤ) :
    Option (Transferred Unit × List ℤ) :=
  if s = invalidSocket then some (⟨0, badDescriptor, ()⟩, calls)
  else
    transferLoop (plain (sendto errno)) (pollWrite errno s false) userSetNonBlocking calls

/-! ## The non-blocking operations -/

/-- The non-blocking operations, which differ in the call; only `non_blocking_recv` looks for the
end of a stream. With `transferred` for `bytes_transferred` before it: whether the operation is
over, what it gives, and the results that are left. -/
def nonBlockingTransfer (call : α → Transferred ν) (isStream : Bool) (transferred : ℤ) :
    List α → Option (Bool × Transferred ν × List α)
  | [] => none
  | r :: calls =>
    let t := call r
    if isStream = true ∧ t.bytes = 0 then some (true, ⟨transferred, .eof, t.out⟩, calls)
    else if t.ec = interrupted then nonBlockingTransfer call isStream transferred calls
    else if t.ec = wouldBlock ∨ t.ec = tryAgain then
      some (false, ⟨transferred, t.ec, t.out⟩, calls)
    else if 0 ≤ t.bytes then some (true, ⟨t.bytes, success, t.out⟩, calls)
    else some (true, ⟨0, t.ec, t.out⟩, calls)

def nonBlockingRecv (errno : ℤ) (isStream : Bool) (transferred : ℤ) (calls : List ℤ) :
    Option (Bool × Transferred Unit × List ℤ) :=
  nonBlockingTransfer (plain (recv errno)) isStream transferred calls

def nonBlockingRecvfrom (errno transferred : ℤ) (calls : List MsgResult) :
    Option (Bool × Transferred ℕ × List MsgResult) :=
  nonBlockingTransfer (recvfrom errno) false transferred calls

def nonBlockingRecvmsg (errno transferred : ℤ) (calls : List MsgResult) :
    Option (Bool × Transferred ℤ × List MsgResult) :=
  nonBlockingTransfer (recvmsg errno) false transferred calls

def nonBlockingSend (errno transferred : ℤ) (calls : List ℤ) :
    Option (Bool × Transferred Unit × List ℤ) :=
  nonBlockingTransfer (plain (send errno)) false transferred calls

def nonBlockingSendto (errno transferred : ℤ) (calls : List ℤ) :
    Option (Bool × Transferred Unit × List ℤ) :=
  nonBlockingTransfer (plain (sendto errno)) false transferred calls

/-- `non_blocking_accept`: whether it is over, the socket and the code, and the results that are
left. -/
def nonBlockingAccept (errno s : ℤ) (state : UInt8) :
    List ℤ → Option (Bool × (ℤ × ErrorCode) × List ℤ)
  | [] => none
  | r :: calls =>
    let (newSocket, ec) := accept errno s r
    if newSocket ≠ invalidSocket then some (true, (newSocket, ec), calls)
    else if ec = interrupted then nonBlockingAccept errno s state calls
    else if AcceptsAgain state ec then some (false, (newSocket, ec), calls)
    else some (true, (newSocket, ec), calls)

/-- `non_blocking_connect`, for the results of `poll` and `getsockopt` and the value of `SO_ERROR`:
the code, or nothing while the connect is in progress. -/
def nonBlockingConnect (errno s poll getsockopt soError : ℤ) : Option ErrorCode :=
  let (ready, errno) := lklSetErrno poll errno
  if toInt ready = 0 then none
  else
    let (result, ec) := Lkl.getsockopt errno s getsockopt
    some (if result = 0 then (if soError ≠ 0 then .system soError else success) else ec)

/-! ## What they come to -/

/-- A non-blocking operation is over, or has to wait. -/
def outcome {β : Type} : Bool × β × List α → (β ⊕ β) × List α
  | (true, t, calls) => (.inl t, calls)
  | (false, t, calls) => (.inr t, calls)

/-- The poll before the next try fails. -/
def waitFails (poll : α → ℤ × ErrorCode) (t : Transferred ν) (p : α) : Option (Transferred ν) :=
  let (ready, ec) := poll p
  if ready < 0 then some ⟨0, ec, t.out⟩ else none

/-- What a non-blocking operation comes to. On a socket that the user made non-blocking it is made
once, on others each time after a poll until it is over. -/
def Ends (userSetNonBlocking : Bool) (op : List α → Option (Bool × Transferred ν × List α))
    (poll : α → ℤ × ErrorCode) (calls : List α) (t : Transferred ν) (rest : List α) : Prop :=
  if userSetNonBlocking = true then (op calls).map Prod.snd = some (t, rest)
  else Attempt.Driven (fun calls => (op calls).map outcome) (waitFails poll) calls t rest

/-- The poll before the next accept fails. -/
def acceptFails (errno s : ℤ) (_ : ℤ × ErrorCode) (p : ℤ) : Option (ℤ × ErrorCode) :=
  let (ready, ec) := pollRead errno s false p
  if ready < 0 then some (invalidSocket, ec) else none

/-- What `non_blocking_accept` comes to when it is made each time after a poll until it is over. -/
def AcceptEnds (errno s : ℤ) (state : UInt8) :
    List ℤ → ℤ × ErrorCode → List ℤ → Prop :=
  Attempt.Driven (fun calls => (nonBlockingAccept errno s state calls).map outcome)
    (acceptFails errno s)

/-- What a synchronous operation gives where a call is interrupted. -/
def interruptedAt (call : α → Transferred ν) (r : α) : Transferred ν :=
  ⟨0, interrupted, (call r).out⟩

/-- A synchronous operation comes to what the non-blocking one comes to, or it ends where a call is
interrupted, and the non-blocking one goes on with the results after it. -/
def Agrees (userSetNonBlocking : Bool) (call : α → Transferred ν) (poll : α → ℤ × ErrorCode)
    (sync : List α → Option (Transferred ν × List α))
    (op : List α → Option (Bool × Transferred ν × List α)) : Prop :=
  ∀ calls,
    (∀ t rest, sync calls = some (t, rest) ↔ Ends userSetNonBlocking op poll calls t rest) ∨
    ∃ r rest, r :: rest <:+ calls ∧ (call r).ec = interrupted ∧
      sync calls = some (interruptedAt call r, rest) ∧
      ∀ t rest', Ends userSetNonBlocking op poll calls t rest' ↔
        Ends userSetNonBlocking op poll rest t rest'

/-- The results of the rounds of `sync_accept`, in the order of the calls. -/
def ofRounds (rounds : List (ℤ × ℤ)) : List ℤ := rounds.flatMap fun q => [q.1, q.2]

/-- `sync_accept` comes to what `non_blocking_accept` comes to, or it ends where an accept is
interrupted, and `non_blocking_accept` goes on with the results after it. -/
def AcceptAgrees (errno s : ℤ) (state : UInt8) : Prop :=
  ∀ rounds,
    (∀ t, syncAccept errno s state rounds = some t ↔
      ∃ rest, AcceptEnds errno s state (ofRounds rounds) t rest) ∨
    ∃ r rest, r :: rest <:+ ofRounds rounds ∧ (accept errno s r).2 = interrupted ∧
      syncAccept errno s state rounds = some (invalidSocket, interrupted) ∧
      ∀ t rest', AcceptEnds errno s state (ofRounds rounds) t rest' ↔
        AcceptEnds errno s state rest t rest'

/-! ## Both as loops of attempts -/

/-- The code of a call that succeeds is clear. -/
def Resets (call : α → Transferred ν) : Prop := ∀ r, 0 ≤ (call r).bytes → (call r).ec = success

/-- An attempt at a transfer. -/
def attempt (call : α → Transferred ν) (isStream : Bool) (r : α) :
    Attempt (Transferred ν) (Transferred ν) :=
  let t := call r
  if isStream = true ∧ t.bytes = 0 then .done ⟨0, .eof, t.out⟩
  else if t.ec = interrupted then .again
  else if t.ec = wouldBlock ∨ t.ec = tryAgain then .wait ⟨0, t.ec, t.out⟩
  else if 0 ≤ t.bytes then .done ⟨t.bytes, success, t.out⟩
  else .done ⟨0, t.ec, t.out⟩

/-- An attempt on a socket that the user made non-blocking does not wait. -/
def userAttempt (userSetNonBlocking : Bool) (call : α → Transferred ν) (isStream : Bool) :
    α → Attempt (Transferred ν) (Transferred ν) :=
  if userSetNonBlocking = true then Attempt.collapse id (attempt call isStream)
  else attempt call isStream

/-- An attempt of a synchronous operation, which does not repeat an interrupted call. -/
def syncAttempt (userSetNonBlocking : Bool) (call : α → Transferred ν) (isStream : Bool) :
    α → Attempt (Transferred ν) (Transferred ν) :=
  Attempt.once (interruptedAt call) (userAttempt userSetNonBlocking call isStream)

variable {call : α → Transferred ν} {poll : α → ℤ × ErrorCode} {isStream userSetNonBlocking : Bool}
  {sync : List α → Option (Transferred ν × List α)} {r : α}

theorem map_outcome_nonBlockingTransfer (calls : List α) :
    (nonBlockingTransfer call isStream 0 calls).map outcome =
      Attempt.row (attempt call isStream) calls := by
  fun_induction nonBlockingTransfer call isStream 0 calls with
  | case1 => rfl
  | case2 r calls t heof =>
    have ha : attempt call isStream r = .done ⟨0, .eof, t.out⟩ := if_pos heof
    simp only [Attempt.row, ha]
    rfl
  | case3 r calls t heof hint ih =>
    have ha : attempt call isStream r = .again := (if_neg heof).trans (if_pos hint)
    rw [Attempt.row_again ha, ih]
  | case4 r calls t heof hint hwait =>
    have ha : attempt call isStream r = .wait ⟨0, t.ec, t.out⟩ :=
      (if_neg heof).trans ((if_neg hint).trans (if_pos hwait))
    simp only [Attempt.row, ha]
    rfl
  | case5 r calls t heof hint hwait hpos =>
    have ha : attempt call isStream r = .done ⟨t.bytes, success, t.out⟩ :=
      (if_neg heof).trans ((if_neg hint).trans ((if_neg hwait).trans (if_pos hpos)))
    simp only [Attempt.row, ha]
    rfl
  | case6 r calls t heof hint hwait hpos =>
    have ha : attempt call isStream r = .done ⟨0, t.ec, t.out⟩ :=
      (if_neg heof).trans ((if_neg hint).trans ((if_neg hwait).trans (if_neg hpos)))
    simp only [Attempt.row, ha]
    rfl

theorem userAttempt_eq_again (h : userAttempt userSetNonBlocking call isStream r = .again) :
    (call r).ec = interrupted := by
  have ha : attempt call isStream r = .again := by
    unfold userAttempt at h
    split at h
    · unfold Attempt.collapse at h
      split at h
      · cases h
      · exact h
    · exact h
  by_contra hint
  unfold attempt at ha
  dsimp only at ha
  rw [if_neg hint] at ha
  split at ha
  · cases ha
  · split at ha
    · cases ha
    · split at ha <;> cases ha

/-- What a non-blocking operation comes to, as a loop of attempts. -/
theorem ends_iff {calls rest : List α} {t : Transferred ν} :
    Ends userSetNonBlocking (nonBlockingTransfer call isStream 0) poll calls t rest ↔
      Attempt.blocking (userAttempt userSetNonBlocking call isStream) (waitFails poll) calls =
        some (t, rest) := by
  unfold Ends userAttempt
  split
  · have hsnd (r : Bool × Transferred ν × List α) :
        ((outcome r).1.elim id id, (outcome r).2) = r.2 := by
      obtain ⟨_ | _, t, calls⟩ := r <;> rfl
    rw [Attempt.blocking_collapse, ← map_outcome_nonBlockingTransfer, Option.map_map]
    exact iff_of_eq (congrArg (fun f => Option.map f _ = _) (funext hsnd).symm)
  · rw [funext map_outcome_nonBlockingTransfer]
    exact Attempt.driven_row_iff

/-- A synchronous operation that is the loop of its attempts goes as the non-blocking one. -/
theorem agrees_of_blocking
    (hsync : ∀ calls, sync calls =
      Attempt.blocking (syncAttempt userSetNonBlocking call isStream) (waitFails poll) calls) :
    Agrees userSetNonBlocking call poll sync (nonBlockingTransfer call isStream 0) := by
  intro calls
  simp only [ends_iff, hsync]
  rcases Attempt.blocking_once (userAttempt userSetNonBlocking call isStream) (waitFails poll)
    (interruptedAt call) calls with h | ⟨r, rest, hs, ha, hsome, hrest⟩
  · left
    intro t rest
    rw [← h]
    rfl
  · right
    exact ⟨r, rest, hs, userAttempt_eq_again ha, hsome, fun t rest' => by rw [hrest]⟩

/-! ## The attempts of the synchronous operations -/

theorem wouldBlock_ne_interrupted : wouldBlock ≠ interrupted := by decide

theorem syncAttempt_of_eof (h : isStream = true ∧ (call r).bytes = 0) :
    syncAttempt userSetNonBlocking call isStream r = .done ⟨0, .eof, (call r).out⟩ := by
  have ha : attempt call isStream r = .done ⟨0, .eof, (call r).out⟩ := if_pos h
  cases userSetNonBlocking <;> simp [syncAttempt, Attempt.once, userAttempt, Attempt.collapse, ha]

theorem syncAttempt_of_nonneg (hcall : Resets call) (h : 0 ≤ (call r).bytes)
    (heof : ¬ (isStream = true ∧ (call r).bytes = 0)) :
    syncAttempt userSetNonBlocking call isStream r = .done (call r) := by
  have hec : (call r).ec = success := hcall r h
  have ha : attempt call isStream r = .done (call r) := by
    unfold attempt
    dsimp only
    rw [if_neg heof, hec, if_neg (by decide), if_neg (by decide), if_pos h]
    exact congrArg _ (congrArg (Transferred.mk _ · _) hec.symm)
  cases userSetNonBlocking <;> simp [syncAttempt, Attempt.once, userAttempt, Attempt.collapse, ha]

theorem syncAttempt_of_failed (h : (call r).bytes < 0)
    (hec : (call r).ec ≠ wouldBlock ∧ (call r).ec ≠ tryAgain) :
    syncAttempt userSetNonBlocking call isStream r = .done ⟨0, (call r).ec, (call r).out⟩ := by
  have heof : ¬ (isStream = true ∧ (call r).bytes = 0) := fun he => h.ne he.2
  by_cases hint : (call r).ec = interrupted
  · have ha : attempt call isStream r = .again := (if_neg heof).trans (if_pos hint)
    cases userSetNonBlocking <;>
      simp [syncAttempt, Attempt.once, userAttempt, Attempt.collapse, ha, interruptedAt, hint]
  · have ha : attempt call isStream r = .done ⟨0, (call r).ec, (call r).out⟩ :=
      (if_neg heof).trans ((if_neg hint).trans ((if_neg (not_or.mpr hec)).trans
        (if_neg (not_le.mpr h))))
    cases userSetNonBlocking <;>
      simp [syncAttempt, Attempt.once, userAttempt, Attempt.collapse, ha]

theorem syncAttempt_of_wouldBlock (h : (call r).bytes < 0)
    (hec : ¬ ((call r).ec ≠ wouldBlock ∧ (call r).ec ≠ tryAgain)) :
    syncAttempt userSetNonBlocking call isStream r =
      if userSetNonBlocking = true then .done ⟨0, (call r).ec, (call r).out⟩
      else .wait ⟨0, (call r).ec, (call r).out⟩ := by
  have heof : ¬ (isStream = true ∧ (call r).bytes = 0) := fun he => h.ne he.2
  have hwait : (call r).ec = wouldBlock ∨ (call r).ec = tryAgain := by
    by_contra hn
    exact hec (not_or.mp hn)
  have hint : (call r).ec ≠ interrupted := by
    rcases hwait with he | he
    · exact he ▸ wouldBlock_ne_interrupted
    · exact he ▸ wouldBlock_ne_interrupted
  have ha : attempt call isStream r = .wait ⟨0, (call r).ec, (call r).out⟩ :=
    (if_neg heof).trans ((if_neg hint).trans (if_pos hwait))
  cases userSetNonBlocking <;> simp [syncAttempt, Attempt.once, userAttempt, Attempt.collapse, ha]

theorem transferLoop_eq (hcall : Resets call) (calls : List α) :
    transferLoop call poll userSetNonBlocking calls =
      Attempt.blocking (syncAttempt userSetNonBlocking call false) (waitFails poll) calls := by
  have heof {r : α} : ¬ (false = true ∧ (call r).bytes = 0) := fun h => Bool.false_ne_true h.1
  fun_induction transferLoop call poll userSetNonBlocking calls with
  | case1 => rfl
  | case2 r calls t hpos =>
    simp only [Attempt.blocking, syncAttempt_of_nonneg hcall hpos heof]
    rfl
  | case3 r calls t hneg hfail =>
    have hneg := not_le.mp hneg
    by_cases hec : (call r).ec ≠ wouldBlock ∧ (call r).ec ≠ tryAgain
    · simp only [Attempt.blocking, syncAttempt_of_failed hneg hec]
      rfl
    · have huser := hfail.resolve_right hec
      simp only [Attempt.blocking, syncAttempt_of_wouldBlock hneg hec, if_pos huser]
      rfl
  | case4 r t hneg hfail =>
    obtain ⟨huser, hec⟩ := not_or.mp hfail
    simp only [Attempt.blocking, syncAttempt_of_wouldBlock (not_le.mp hneg) hec, if_neg huser]
  | case5 r t hneg hfail p calls ready ec hpoll hready =>
    obtain ⟨huser, hec⟩ := not_or.mp hfail
    simp only [Attempt.blocking, syncAttempt_of_wouldBlock (not_le.mp hneg) hec, if_neg huser,
      waitFails, hpoll, if_pos hready]
    rfl
  | case6 r t hneg hfail p calls ready ec hpoll hready ih =>
    obtain ⟨huser, hec⟩ := not_or.mp hfail
    simp only [Attempt.blocking, syncAttempt_of_wouldBlock (not_le.mp hneg) hec, if_neg huser,
      waitFails, hpoll, if_neg hready]
    exact ih

/-! ## The transfers -/

/-- The result of a loop of `SocketOps`, which stores nothing. -/
def ofLoop (r : ℤ × ErrorCode × List ℤ) : Transferred Unit × List ℤ := (⟨r.1, r.2.1, ()⟩, r.2.2)

theorem resets_plain (errno : ℤ) : Resets (plain (Lkl.call errno)) :=
  fun _ hr => (success_of_call rfl hr).1

theorem plain_recv (errno : ℤ) : plain (recv errno) = plain (Lkl.call errno) :=
  congrArg plain (funext (recv_eq_call errno))

theorem plain_send (errno : ℤ) : plain (send errno) = plain (Lkl.call errno) :=
  congrArg plain (funext (send_eq_call errno))

theorem resets_recvfrom (errno : ℤ) : Resets (recvfrom errno) :=
  fun _ hr => if_pos hr

theorem resets_recvmsg (errno : ℤ) : Resets (recvmsg errno) := by
  intro msg hr
  unfold recvmsg at hr ⊢
  dsimp only at hr ⊢
  split
  · rfl
  · next hneg =>
    rw [if_neg hneg] at hr
    exact absurd hr hneg

theorem resets_sendto (errno : ℤ) : Resets (plain (sendto errno)) :=
  fun _ hr => if_pos hr

/-- Whether `sync_recv` waits for the socket. -/
def TransferFlags.noWait (flags : TransferFlags) : Bool :=
  flags.userSetNonBlocking || flags.msgDontwait

theorem noWait_eq_true {flags : TransferFlags} :
    flags.noWait = true ↔ flags.userSetNonBlocking = true ∨ flags.msgDontwait = true :=
  Bool.or_eq_true_iff

/-- A call that would block has failed. -/
theorem neg_of_wouldBlock (hcall : Resets call)
    (hec : ¬ ((call r).ec ≠ wouldBlock ∧ (call r).ec ≠ tryAgain)) : (call r).bytes < 0 := by
  by_contra hneg
  have hsuccess : (call r).ec = success := hcall r (not_lt.mp hneg)
  rw [hsuccess] at hec
  exact hec ⟨by decide, by decide⟩

theorem recvLoop_eq (errno s : ℤ) (flags : TransferFlags) (calls : List ℤ) :
    (recvLoop errno s flags calls).map ofLoop =
      Attempt.blocking (syncAttempt flags.noWait (plain (recv errno)) flags.streamOriented)
        (waitFails (pollRead errno s false)) calls := by
  have hcall : Resets (plain (recv errno)) := plain_recv errno ▸ resets_plain errno
  fun_induction recvLoop errno s flags calls with
  | case1 => rfl
  | case2 r calls bytes ec hrecv hpos =>
    obtain rfl : (plain (recv errno) r).bytes = bytes := congrArg Prod.fst hrecv
    obtain rfl : (plain (recv errno) r).ec = ec := congrArg Prod.snd hrecv
    simp only [Attempt.blocking, syncAttempt_of_nonneg hcall hpos.le fun h => hpos.ne' h.2]
    rfl
  | case3 r calls bytes ec hrecv hpos heof =>
    obtain rfl : (plain (recv errno) r).bytes = bytes := congrArg Prod.fst hrecv
    simp only [Attempt.blocking, syncAttempt_of_eof ⟨heof.1, heof.2.1⟩]
    rfl
  | case4 r calls bytes ec hrecv hpos heof hfail =>
    obtain rfl : (plain (recv errno) r).bytes = bytes := congrArg Prod.fst hrecv
    obtain rfl : (plain (recv errno) r).ec = ec := congrArg Prod.snd hrecv
    by_cases hec : (plain (recv errno) r).ec ≠ wouldBlock ∧ (plain (recv errno) r).ec ≠ tryAgain
    · rcases lt_or_eq_of_le (not_lt.mp hpos) with hneg | hzero
      · simp only [Attempt.blocking, syncAttempt_of_failed hneg hec]
        rfl
      · have hstream : ¬ (flags.streamOriented = true ∧ (plain (recv errno) r).bytes = 0) :=
          fun h => heof ⟨h.1, hzero, hec⟩
        simp only [Attempt.blocking, syncAttempt_of_nonneg hcall hzero.ge hstream]
        exact congrArg (fun n => some (Transferred.mk n (plain (recv errno) r).ec (), calls))
          hzero.symm
    · have huser := noWait_eq_true.mpr (hfail.resolve_right hec)
      have hneg := neg_of_wouldBlock hcall hec
      simp only [Attempt.blocking, syncAttempt_of_wouldBlock hneg hec, if_pos huser]
      rfl
  | case5 r bytes ec hrecv hpos heof hfail =>
    obtain rfl : (plain (recv errno) r).ec = ec := congrArg Prod.snd hrecv
    obtain ⟨huser, hec⟩ := not_or.mp hfail
    have hneg := neg_of_wouldBlock hcall hec
    rw [← noWait_eq_true] at huser
    simp only [Attempt.blocking, syncAttempt_of_wouldBlock hneg hec, if_neg huser]
    rfl
  | case6 r bytes ec hrecv hpos heof hfail p calls ready ec' hpoll hready =>
    obtain rfl : (plain (recv errno) r).ec = ec := congrArg Prod.snd hrecv
    obtain ⟨huser, hec⟩ := not_or.mp hfail
    have hneg := neg_of_wouldBlock hcall hec
    rw [← noWait_eq_true] at huser
    simp only [Attempt.blocking, syncAttempt_of_wouldBlock hneg hec, if_neg huser, waitFails, hpoll,
      if_pos hready]
    rfl
  | case7 r bytes ec hrecv hpos heof hfail p calls ready ec' hpoll hready ih =>
    obtain rfl : (plain (recv errno) r).ec = ec := congrArg Prod.snd hrecv
    obtain ⟨huser, hec⟩ := not_or.mp hfail
    have hneg := neg_of_wouldBlock hcall hec
    rw [← noWait_eq_true] at huser
    simp only [Attempt.blocking, syncAttempt_of_wouldBlock hneg hec, if_neg huser, waitFails, hpoll,
      if_neg hready]
    exact ih

/-- The loop of `sync_send` is the one of the other transfers. -/
theorem sendLoop_eq (errno s : ℤ) (flags : TransferFlags) (calls : List ℤ) :
    (sendLoop errno s flags calls).map ofLoop =
      transferLoop (plain (send errno)) (pollWrite errno s false) flags.userSetNonBlocking
        calls := by
  fun_induction sendLoop errno s flags calls with
  | case1 => rfl
  | case2 r calls bytes ec hsend hpos =>
    obtain rfl : (plain (send errno) r).bytes = bytes := congrArg Prod.fst hsend
    obtain rfl : (plain (send errno) r).ec = ec := congrArg Prod.snd hsend
    rw [transferLoop.eq_def]
    exact (if_pos hpos).symm
  | case3 r calls bytes ec hsend hneg hfail =>
    obtain rfl : (plain (send errno) r).bytes = bytes := congrArg Prod.fst hsend
    obtain rfl : (plain (send errno) r).ec = ec := congrArg Prod.snd hsend
    rw [transferLoop.eq_def]
    exact ((if_neg hneg).trans (if_pos hfail)).symm
  | case4 r bytes ec hsend hneg hfail =>
    obtain rfl : (plain (send errno) r).bytes = bytes := congrArg Prod.fst hsend
    obtain rfl : (plain (send errno) r).ec = ec := congrArg Prod.snd hsend
    simp only [transferLoop, if_neg hneg, if_neg hfail]
    rfl
  | case5 r bytes ec hsend hneg hfail p calls ready ec' hpoll hready =>
    obtain rfl : (plain (send errno) r).bytes = bytes := congrArg Prod.fst hsend
    obtain rfl : (plain (send errno) r).ec = ec := congrArg Prod.snd hsend
    simp only [transferLoop, if_neg hneg, if_neg hfail, hpoll, if_pos hready]
    rfl
  | case6 r bytes ec hsend hneg hfail p calls ready ec' hpoll hready ih =>
    obtain rfl : (plain (send errno) r).bytes = bytes := congrArg Prod.fst hsend
    obtain rfl : (plain (send errno) r).ec = ec := congrArg Prod.snd hsend
    simp only [transferLoop, if_neg hneg, if_neg hfail, hpoll, if_neg hready]
    exact ih

/-- **The synchronous transfers go as the non-blocking ones.** For all results of LKL they end with
the same number of bytes and the same error, store the same and leave the same results, or the
synchronous one ends at the first interrupted call. Only `sync_recv` and `sync_send` look at their
buffers: with empty ones on a stream they return at once, and LKL is not called. -/
theorem nonBlocking_agrees (errno : ℤ) {s : ℤ} (hs : s ≠ invalidSocket) (flags : TransferFlags)
    (addrlen : ℕ) (outFlags : ℤ) :
    (¬ (flags.allEmpty = true ∧ flags.streamOriented = true) →
      Agrees flags.noWait (plain (recv errno)) (pollRead errno s false)
        (fun calls => (syncRecv errno s flags calls).map ofLoop)
        (nonBlockingRecv errno flags.streamOriented 0) ∧
      Agrees flags.userSetNonBlocking (plain (send errno)) (pollWrite errno s false)
        (fun calls => (syncSend errno s flags calls).map ofLoop) (nonBlockingSend errno 0)) ∧
    (flags.allEmpty = true ∧ flags.streamOriented = true → ∀ calls,
      syncRecv errno s flags calls = some (0, success, calls) ∧
      syncSend errno s flags calls = some (0, success, calls)) ∧
    Agrees flags.userSetNonBlocking (recvfrom errno) (fun p => pollRead errno s false p.result)
      (syncRecvfrom errno s flags.userSetNonBlocking addrlen) (nonBlockingRecvfrom errno 0) ∧
    Agrees flags.userSetNonBlocking (recvmsg errno) (fun p => pollRead errno s false p.result)
      (syncRecvmsg errno s flags.userSetNonBlocking outFlags) (nonBlockingRecvmsg errno 0) ∧
    Agrees flags.userSetNonBlocking (plain (sendto errno)) (pollWrite errno s false)
      (syncSendto errno s flags.userSetNonBlocking) (nonBlockingSendto errno 0) := by
  have hsend : Resets (plain (send errno)) := plain_send errno ▸ resets_plain errno
  refine ⟨fun hbuf => ⟨agrees_of_blocking fun calls => ?_, agrees_of_blocking fun calls => ?_⟩,
    fun hbuf calls => ⟨?_, ?_⟩, agrees_of_blocking fun calls => ?_,
    agrees_of_blocking fun calls => ?_, agrees_of_blocking fun calls => ?_⟩
  · rw [syncRecv, if_neg hs, if_neg hbuf]
    exact recvLoop_eq errno s flags calls
  · rw [syncSend, if_neg hs, if_neg hbuf, sendLoop_eq]
    exact transferLoop_eq hsend calls
  · rw [syncRecv, if_neg hs, if_pos hbuf]
  · rw [syncSend, if_neg hs, if_pos hbuf]
  · rw [syncRecvfrom, if_neg hs]
    exact transferLoop_eq (resets_recvfrom errno) calls
  · rw [syncRecvmsg, if_neg hs]
    exact transferLoop_eq (resets_recvmsg errno) calls
  · rw [syncSendto, if_neg hs]
    exact transferLoop_eq (resets_sendto errno) calls

/-- A receive that would block, and has data after the poll. -/
theorem nonBlocking_agrees_blocked :
    Ends false (nonBlockingRecv 0 true 0) (pollRead 0 3 false) [-11, 1, 5] ⟨5, success, ()⟩ [] := by
  have hsync : (syncRecv 0 3 streamFlags [-11, 1, 5]).map ofLoop = some (⟨5, success, ()⟩, []) := by
    decide
  have hs : (3 : ℤ) ≠ invalidSocket := by decide
  obtain ⟨hrecv, -⟩ := (nonBlocking_agrees 0 hs streamFlags 0 0).1 (by decide)
  rcases hrecv [-11, 1, 5] with h | ⟨r, rest, -, -, h, -⟩
  · exact (h _ _).mp hsync
  · cases hsync.symm.trans h

/-! ## Accept and connect -/

/-- An attempt at an accept. -/
def acceptAttempt (errno s : ℤ) (state : UInt8) (r : ℤ) : Attempt (ℤ × ErrorCode) (ℤ × ErrorCode) :=
  let (newSocket, ec) := accept errno s r
  if newSocket ≠ invalidSocket then .done (newSocket, ec)
  else if ec = interrupted then .again
  else if AcceptsAgain state ec then .wait (newSocket, ec)
  else .done (newSocket, ec)

theorem map_outcome_nonBlockingAccept (errno s : ℤ) (state : UInt8) (calls : List ℤ) :
    (nonBlockingAccept errno s state calls).map outcome =
      Attempt.row (acceptAttempt errno s state) calls := by
  fun_induction nonBlockingAccept errno s state calls with
  | case1 => rfl
  | case2 r calls newSocket ec haccept hne =>
    have ha : acceptAttempt errno s state r = .done (newSocket, ec) := by
      simp only [acceptAttempt, haccept, if_pos hne]
    simp only [Attempt.row, ha]
    rfl
  | case3 r calls newSocket hne haccept ih =>
    have ha : acceptAttempt errno s state r = .again := by
      simp only [acceptAttempt, haccept, if_neg hne, if_true]
    rw [Attempt.row_again ha, ih]
  | case4 r calls newSocket ec haccept hne hint hagain =>
    have ha : acceptAttempt errno s state r = .wait (newSocket, ec) := by
      simp only [acceptAttempt, haccept, if_neg hne, if_neg hint, if_pos hagain]
    simp only [Attempt.row, ha]
    rfl
  | case5 r calls newSocket ec haccept hne hint hagain =>
    have ha : acceptAttempt errno s state r = .done (newSocket, ec) := by
      simp only [acceptAttempt, haccept, if_neg hne, if_neg hint, if_neg hagain]
    simp only [Attempt.row, ha]
    rfl

/-- An interrupted accept is not one that `sync_accept` makes again. -/
theorem not_acceptsAgain_interrupted (state : UInt8) : ¬ AcceptsAgain state interrupted := by
  have hblock : ¬ (interrupted = wouldBlock ∨ interrupted = tryAgain) := by decide
  have haborted : interrupted ≠ connectionAborted := by decide
  have hproto : interrupted ≠ .system Errno.EPROTO.value := by decide
  unfold AcceptsAgain
  rw [if_neg hblock, if_neg haborted, if_neg hproto]
  exact id

/-- The attempts of `sync_accept`. -/
theorem once_acceptAttempt (errno s : ℤ) (state : UInt8) (r : ℤ) :
    Attempt.once (accept errno s) (acceptAttempt errno s state) r =
      if (accept errno s r).1 ≠ invalidSocket then .done (accept errno s r)
      else if AcceptsAgain state (accept errno s r).2 then .wait (accept errno s r)
      else .done (accept errno s r) := by
  unfold Attempt.once acceptAttempt
  dsimp only
  by_cases hne : (accept errno s r).1 ≠ invalidSocket
  · simp only [if_pos hne]
  · by_cases hint : (accept errno s r).2 = interrupted
    · simp only [if_neg hne, hint, if_true, if_neg (not_acceptsAgain_interrupted state)]
    · by_cases hagain : AcceptsAgain state (accept errno s r).2
      · simp only [if_neg hne, if_neg hint, if_pos hagain]
      · simp only [if_neg hne, if_neg hint, if_neg hagain]

theorem syncAccept_eq (errno s : ℤ) (state : UInt8) (rounds : List (ℤ × ℤ)) :
    syncAccept errno s state rounds =
      (Attempt.blocking (Attempt.once (accept errno s) (acceptAttempt errno s state))
        (acceptFails errno s) (ofRounds rounds)).map Prod.fst := by
  induction rounds with
  | nil => rfl
  | cons q rounds ih =>
    obtain ⟨r, p⟩ := q
    show _ = (Attempt.blocking _ _ (r :: p :: ofRounds rounds)).map Prod.fst
    simp only [syncAccept, Attempt.blocking, once_acceptAttempt]
    by_cases hne : (accept errno s r).1 ≠ invalidSocket
    · simp only [if_pos hne]
      rfl
    · have hinvalid : (accept errno s r).1 = invalidSocket := not_not.mp hne
      by_cases hagain : AcceptsAgain state (accept errno s r).2
      · by_cases hready : (pollRead errno s false p).1 < 0
        · simp only [if_neg hne, if_pos hagain, acceptFails, if_pos hready]
          rfl
        · simp only [if_neg hne, if_pos hagain, acceptFails, if_neg hready]
          exact ih
      · simp only [if_neg hne, if_neg hagain]
        exact congrArg (fun n => some (n, (accept errno s r).2)) hinvalid.symm

theorem acceptAttempt_eq_again {errno s r : ℤ} {state : UInt8}
    (h : acceptAttempt errno s state r = .again) :
    accept errno s r = (invalidSocket, interrupted) := by
  unfold acceptAttempt at h
  dsimp only at h
  split at h
  · cases h
  · next hne =>
    split at h
    · next hint => exact Prod.ext (not_not.mp hne) hint
    · split at h <;> cases h

/-- **`sync_accept` goes as `non_blocking_accept`**. -/
theorem syncAccept_agrees (errno s : ℤ) (state : UInt8) : AcceptAgrees errno s state := by
  intro rounds
  have hends {calls rest : List ℤ} {t : ℤ × ErrorCode} :
      AcceptEnds errno s state calls t rest ↔
        Attempt.blocking (acceptAttempt errno s state) (acceptFails errno s) calls =
          some (t, rest) := by
    unfold AcceptEnds
    rw [funext (map_outcome_nonBlockingAccept errno s state)]
    exact Attempt.driven_row_iff
  simp only [syncAccept_eq, hends]
  rcases Attempt.blocking_once (acceptAttempt errno s state) (acceptFails errno s) (accept errno s)
    (ofRounds rounds) with h | ⟨r, rest, hs, ha, hsome, hrest⟩
  · left
    intro t
    rw [h, Option.map_eq_some_iff]
    constructor
    · rintro ⟨⟨t', rest⟩, hsome, rfl⟩
      exact ⟨rest, hsome⟩
    · rintro ⟨rest, hsome⟩
      exact ⟨(t, rest), hsome, rfl⟩
  · right
    have hr := acceptAttempt_eq_again ha
    refine ⟨r, rest, hs, congrArg Prod.snd hr, ?_, fun t rest' => by rw [hrest]⟩
    rw [hsome, hr]
    rfl

/-- A poll returns 0 only if the socket is not ready. -/
theorem toInt_poll_eq_zero {errno r : ℤ} (hr : r ≤ 1) :
    toInt (lklSetErrno r errno).1 = 0 ↔ r = 0 := by
  by_cases h : 0 ≤ r
  · rw [lklSetErrno_of_nonneg h, toInt_of_lt h (by omega)]
  · have hfst : (lklSetErrno r errno).1 = -1 := by
      by_cases hrep : Reported r
      · rw [lklSetErrno_of_reported (not_le.mp h) hrep]
      · rw [lklSetErrno_of_not_reported hrep]
    rw [hfst, toInt_neg_one]
    omega

/-- **`non_blocking_connect` ends as `sync_connect`** when the connect is no longer in progress, but
does not see that the poll has failed. -/
theorem nonBlockingConnect_eq (errno : ℤ) {s : ℤ} (hs : s ≠ invalidSocket) (calls : ConnectCalls)
    (hc : calls.connect = -Errno.EINPROGRESS.value) :
    nonBlockingConnect errno s calls.poll calls.getsockopt calls.soError =
      if calls.poll = 0 then none
      else some (syncConnect errno s { calls with poll := 1, poll_le := Int.le_refl 1 }) := by
  have hcode : (connect errno s calls.connect).2 = inProgress := by
    rw [hc, connect_of_reported errno hs (by decide) (by decide)]
    rfl
  have hpoll : pollConnect errno s 1 = (1, success) := if_neg hs
  rw [syncConnect_of_inProgress errno s { calls with poll := 1, poll_le := Int.le_refl 1 } hcode]
  show (if toInt (lklSetErrno calls.poll errno).1 = 0 then none
    else some (if (Lkl.getsockopt errno s calls.getsockopt).1 = 0 then
        (if calls.soError ≠ 0 then .system calls.soError else success)
      else (Lkl.getsockopt errno s calls.getsockopt).2)) = _
  refine if_congr (toInt_poll_eq_zero calls.poll_le) rfl (congrArg some ?_)
  have hready : ¬ (pollConnect errno s 1).1 < 0 := by
    rw [hpoll]
    exact Int.not_lt.mpr (Int.one_nonneg)
  rw [if_neg hready]
  rcases getsockopt_cases errno hs calls.getsockopt_le with
    ⟨-, hg⟩ | ⟨-, -, hg⟩ | ⟨-, -, hg⟩
  · rw [hg]
    by_cases hzero : calls.soError = 0
    · rw [hzero]
      rfl
    · exact if_pos hzero
  · rw [hg]
    rfl
  · rw [hg]
    rfl

/-- **The synchronous operations that make connections go as the non-blocking ones**: `sync_accept`
ends with the same socket and code for all results of LKL, or at the first interrupted accept; and
for a connect in progress `non_blocking_connect` ends with the code of `sync_connect`, but takes a
poll that fails for one that succeeds. -/
theorem nonBlocking_connections_agree (errno s : ℤ) :
    (∀ state, AcceptAgrees errno s state) ∧
    ∀ calls : ConnectCalls, s ≠ invalidSocket → calls.connect = -Errno.EINPROGRESS.value →
      nonBlockingConnect errno s calls.poll calls.getsockopt calls.soError =
        if calls.poll = 0 then none
        else some (syncConnect errno s { calls with poll := 1, poll_le := Int.le_refl 1 }) :=
  ⟨syncAccept_agrees errno s, fun calls hs => nonBlockingConnect_eq errno hs calls⟩

/-- A connect that is refused while it is in progress. -/
def refusedCalls : ConnectCalls := ⟨-115, 1, 0, 111, by decide, by decide, by decide⟩

theorem nonBlocking_connections_agree_refused :
    nonBlockingConnect 0 3 1 0 111 = some (syncConnect 0 3 refusedCalls) :=
  (nonBlocking_connections_agree 0 3).2 refusedCalls (by decide) (by decide)

end Lkl

end LklSocks
