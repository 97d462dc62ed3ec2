import LklSocks.Asio
import LklSocks.Lkl.Errno
import Mathlib.Algebra.Order.Ring.Int

/-!
# The socket operations on LKL

Each operation of `socket_ops` clears `errno`, makes one call of LKL, and takes the error code from
`errno`, whatever the call returned; on success it resets the code. A failure that `lkl_set_errno`
does not translate leaves `errno` at zero, which is the code of success. The synchronous operations
repeat a call after a poll when it would block.

The results of the calls are the choices of the environment, in the order of the calls.

## Main definitions

* `Lkl.socket`, `Lkl.connect`, `Lkl.recv`, `Lkl.send`: one call each
* `Lkl.syncConnect`, `Lkl.syncRecv`, `Lkl.syncSend`: the operations that the sockets use
* `Lkl.ConnectCalls`: the results of the calls of `sync_connect`
* `Lkl.Reports`: an error code tells a failure from a success

## Main results

* `Lkl.call_cases`: the three outcomes of a call
* `Lkl.syncConnect_iff`: `sync_connect` ends without an error only for an established connection
* `Lkl.recvLoop_iff`, `Lkl.sendLoop_iff`: the loops end with an error for a failure
* `Lkl.failures_reported_iff`: a failure is reported exactly when `lkl_set_errno` has a case for it
-/

namespace LklSocks

namespace ErrorCode

def badDescriptor : ErrorCode := .system Errno.EBADF.value
def inProgress : ErrorCode := .system Errno.EINPROGRESS.value
def noBufferSpace : ErrorCode := .system Errno.ENOBUFS.value
def tryAgain : ErrorCode := .system Errno.EAGAIN.value

/-- On Linux `EWOULDBLOCK` is `EAGAIN`. -/
def wouldBlock : ErrorCode := .system Errno.EAGAIN.value

end ErrorCode

namespace Lkl

open ErrorCode

/-- `invalid_socket`. -/
def invalidSocket : ℤ := -1

/-- `socket_error_retval`. -/
def socketErrorRetval : ℤ := -1

/-- The conversion of a `long` to an `int`. -/
def toInt (n : ℤ) : ℤ := n.bmod (2 ^ 32)

/-- `clear_last_error`: the value of `errno` after it. -/
def clearLastError (_errno : ℤ) : ℤ := 0

/-- `error_wrapper`: the error code is `errno`. -/
def errorWrapper (call : ℤ × ℤ) : ℤ × ErrorCode := (call.1, .system call.2)

/-- A call of LKL with the result `r`, between `clear_last_error` and the test for success. -/
def call (errno r : ℤ) : ℤ × ErrorCode := errorWrapper (lklSetErrno r (clearLastError errno))

/-! ## One call -/

def socket (errno r : ℤ) : ℤ × ErrorCode :=
  let (result, ec) := call errno r
  let s := toInt result
  (s, if 0 ≤ s then success else ec)

def connect (errno s r : ℤ) : ℤ × ErrorCode :=
  if s = invalidSocket then (socketErrorRetval, badDescriptor)
  else
    let (result, ec) := call errno r
    let result := toInt result
    (result, if result = 0 then success else if ec = tryAgain then noBufferSpace else ec)

def recv (errno r : ℤ) : ℤ × ErrorCode :=
  let (result, ec) := call errno r
  (result, if 0 ≤ result then success else ec)

def send (errno r : ℤ) : ℤ × ErrorCode :=
  let (result, ec) := call errno r
  (result, if 0 ≤ result then success else ec)

def pollConnect (errno s r : ℤ) : ℤ × ErrorCode :=
  if s = invalidSocket then (socketErrorRetval, badDescriptor)
  else
    let (result, ec) := call errno r
    let result := toInt result
    (result, if 0 ≤ result then success else ec)

/-- `poll_read` and `poll_write`, which differ in the event only. -/
def poll (errno s : ℤ) (nonBlocking : Bool) (r : ℤ) : ℤ × ErrorCode :=
  if s = invalidSocket then (socketErrorRetval, badDescriptor)
  else
    let (result, ec) := call errno r
    let result := toInt result
    (result,
      if result = 0 then (if nonBlocking = true then wouldBlock else success)
      else if 0 < result then success
      else ec)

def pollRead (errno s : ℤ) (nonBlocking : Bool) (r : ℤ) : ℤ × ErrorCode :=
  poll errno s nonBlocking r

def pollWrite (errno s : ℤ) (nonBlocking : Bool) (r : ℤ) : ℤ × ErrorCode :=
  poll errno s nonBlocking r

/-- `getsockopt` for `SO_ERROR` at the level `SOL_SOCKET`. -/
def getsockopt (errno s r : ℤ) : ℤ × ErrorCode :=
  if s = invalidSocket then (socketErrorRetval, badDescriptor)
  else
    let (result, ec) := call errno r
    let result := toInt result
    (result, if result = 0 then success else ec)

/-! ## The synchronous operations -/

/-- The results of the calls of `sync_connect`: of `connect`, `poll` for one descriptor and
`getsockopt`, which return a positive number only for `poll`, and the value of `SO_ERROR`. -/
structure ConnectCalls where
  connect : ℤ
  poll : ℤ
  getsockopt : ℤ
  soError : ℤ
  connect_le : connect ≤ 0
  poll_le : poll ≤ 1
  getsockopt_le : getsockopt ≤ 0

def syncConnect (errno s : ℤ) (calls : ConnectCalls) : ErrorCode :=
  let (_, ec) := connect errno s calls.connect
  if ec ≠ inProgress ∧ ec ≠ wouldBlock then ec
  else
    let (result, ec) := pollConnect errno s calls.poll
    if result < 0 then ec
    else
      let (result, ec) := getsockopt errno s calls.getsockopt
      if result = socketErrorRetval then ec else .system calls.soError

/-- The state bits and flags that a transfer looks at. -/
structure TransferFlags where
  streamOriented : Bool
  userSetNonBlocking : Bool
  msgDontwait : Bool
  allEmpty : Bool

/-- The loop of `sync_recv`: the number of bytes, the error code and the results that are left, or
nothing if the loop goes on after the last result. -/
def recvLoop (errno s : ℤ) (flags : TransferFlags) : List ℤ → Option (ℤ × ErrorCode × List ℤ)
  | [] => none
  | r :: calls =>
    let (bytes, ec) := recv errno r
    if 0 < bytes then some (bytes, ec, calls)
    else if flags.streamOriented = true ∧ bytes = 0 ∧ ec ≠ wouldBlock ∧ ec ≠ tryAgain then
      some (0, .eof, calls)
    else if (flags.userSetNonBlocking = true ∨ flags.msgDontwait = true) ∨
        (ec ≠ wouldBlock ∧ ec ≠ tryAgain) then
      some (0, ec, calls)
    else
      match calls with
      | [] => none
      | p :: calls =>
        let (ready, ec) := pollRead errno s false p
        if ready < 0 then some (0, ec, calls) else recvLoop errno s flags calls

def syncRecv (errno s : ℤ) (flags : TransferFlags) (calls : List ℤ) :
    Option (ℤ × ErrorCode × List ℤ) :=
  if s = invalidSocket then some (0, badDescriptor, calls)
  else if flags.allEmpty = true ∧ flags.streamOriented = true then some (0, success, calls)
  else recvLoop errno s flags calls

/-- The loop of `sync_send`. -/
def sendLoop (errno s : ℤ) (flags : TransferFlags) : List ℤ → Option (ℤ × ErrorCode × List ℤ)
  | [] => none
  | r :: calls =>
    let (bytes, ec) := send errno r
    if 0 ≤ bytes then some (bytes, ec, calls)
    else if flags.userSetNonBlocking = true ∨ (ec ≠ wouldBlock ∧ ec ≠ tryAgain) then
      some (0, ec, calls)
    else
      match calls with
      | [] => none
      | p :: calls =>
        let (ready, ec) := pollWrite errno s false p
        if ready < 0 then some (0, ec, calls) else sendLoop errno s flags calls

def syncSend (errno s : ℤ) (flags : TransferFlags) (calls : List ℤ) :
    Option (ℤ × ErrorCode × List ℤ) :=
  if s = invalidSocket then some (0, badDescriptor, calls)
  else if flags.allEmpty = true ∧ flags.streamOriented = true then some (0, success, calls)
  else sendLoop errno s flags calls

/-! ## What a call reports -/

/-- The error code after a call with the result `r` is an error exactly when the call failed. -/
def Reports (ec : ErrorCode) (r : ℤ) : Prop := ec ≠ success ↔ r < 0

instance (ec : ErrorCode) (r : ℤ) : Decidable (Reports ec r) :=
  inferInstanceAs (Decidable (_ ↔ _))

/-- The three outcomes of a call: it succeeds, or fails and sets `errno`, or fails and leaves it
clear. -/
theorem call_cases (errno r : ℤ) :
    0 ≤ r ∧ Reported r ∧ call errno r = (r, success) ∨
    r < 0 ∧ Reported r ∧ call errno r = (-1, .system (-r)) ∨
    r < 0 ∧ ¬ Reported r ∧ call errno r = (-1, success) := by
  by_cases hr : 0 ≤ r
  · refine .inl ⟨hr, fun hn => absurd hr (not_le.mpr hn), ?_⟩
    rw [call, lklSetErrno_of_nonneg hr]
    rfl
  · have hn : r < 0 := not_le.mp hr
    by_cases hrep : Reported r
    · refine .inr (.inl ⟨hn, hrep, ?_⟩)
      rw [call, lklSetErrno_of_reported hn hrep]
      rfl
    · refine .inr (.inr ⟨hn, hrep, ?_⟩)
      rw [call, lklSetErrno_of_not_reported hrep]
      rfl

theorem system_ne_success {n : ℤ} (h : n ≠ 0) : ErrorCode.system n ≠ success :=
  fun he => h (ErrorCode.system.inj he)

/-- An operation that is one call reports its failures exactly when they are translated, if its
code is success for a success and as clear as that of the call for a failure. -/
theorem reports_iff {f : ℤ × ErrorCode → ErrorCode} (errno r : ℤ)
    (hs : ∀ n, 0 ≤ n → f (n, success) = success)
    (hf : ∀ n, n ≠ 0 → f (-1, .system n) ≠ success) (hn : f (-1, success) = success) :
    Reports (f (call errno r)) r ↔ Reported r := by
  rcases call_cases errno r with ⟨hr, hrep, h⟩ | ⟨hr, hrep, h⟩ | ⟨hr, hrep, h⟩
  · rw [h, Reports, hs r hr]
    exact iff_of_true ⟨fun hne => absurd rfl hne, fun hr' => absurd hr (not_le.mpr hr')⟩ hrep
  · rw [h, Reports]
    exact iff_of_true (iff_of_true (hf _ (by omega)) hr) hrep
  · rw [h, Reports, hn]
    exact iff_of_false (fun hiff => hiff.mpr hr rfl) hrep

theorem toInt_neg_one : toInt (-1) = -1 := by decide

theorem toInt_of_lt {n : ℤ} (h : 0 ≤ n) (hn : n < 2 ^ 31) : toInt n = n := by
  unfold toInt
  rw [Int.bmod_eq_of_le] <;> omega

theorem socket_reports_iff (errno r : ℤ) : Reports (socket errno r).2 r ↔ Reported r := by
  refine reports_iff (f := fun c => if 0 ≤ toInt c.1 then success else c.2) errno r ?_ ?_ rfl
  · exact fun n _ => ite_self _
  · exact fun n hn => system_ne_success hn

theorem connect_reports_iff (errno : ℤ) {s : ℤ} (h : s ≠ invalidSocket) (r : ℤ) :
    Reports (connect errno s r).2 r ↔ Reported r := by
  rw [connect, if_neg h]
  refine reports_iff (f := fun c => if toInt c.1 = 0 then success
    else if c.2 = tryAgain then noBufferSpace else c.2) errno r ?_ ?_ rfl
  · intro n _
    dsimp only
    split <;> rfl
  · intro n hn
    rw [if_neg (show toInt (-1) ≠ 0 by decide)]
    split
    · decide
    · exact system_ne_success hn

theorem recv_reports_iff (errno r : ℤ) : Reports (recv errno r).2 r ↔ Reported r := by
  refine reports_iff (f := fun c => if 0 ≤ c.1 then success else c.2) errno r ?_ ?_ rfl
  · exact fun n _ => ite_self _
  · exact fun n hn => system_ne_success hn

theorem send_reports_iff (errno r : ℤ) : Reports (send errno r).2 r ↔ Reported r :=
  recv_reports_iff errno r

/-! ## Connecting -/

namespace ConnectCalls

/-- The results that `sync_connect` gets are translated. -/
def Reported (calls : ConnectCalls) : Prop :=
  LklSocks.Reported calls.connect ∧ (calls.connect = -Errno.EINPROGRESS.value →
    LklSocks.Reported calls.poll ∧ (0 ≤ calls.poll → LklSocks.Reported calls.getsockopt))

/-- The connection is established: `connect` returned 0, or it is in progress, the poll and the
query succeeded, and there is no error on the socket. -/
def Succeeded (calls : ConnectCalls) : Prop :=
  calls.connect = 0 ∨ calls.connect = -Errno.EINPROGRESS.value ∧ 0 ≤ calls.poll ∧
    0 ≤ calls.getsockopt ∧ calls.soError = 0

end ConnectCalls

/-- `poll_connect` on an open socket. -/
theorem pollConnect_cases (errno : ℤ) {s r : ℤ} (h : s ≠ invalidSocket) (hr : r < 2 ^ 31) :
    0 ≤ r ∧ pollConnect errno s r = (r, success) ∨
    r < 0 ∧ Reported r ∧ pollConnect errno s r = (-1, .system (-r)) ∨
    r < 0 ∧ ¬ Reported r ∧ pollConnect errno s r = (-1, success) := by
  rw [pollConnect, if_neg h]
  rcases call_cases errno r with ⟨hr', -, hc⟩ | ⟨hr', hrep, hc⟩ | ⟨hr', hrep, hc⟩
  · refine .inl ⟨hr', ?_⟩
    simp only [hc, toInt_of_lt hr' hr, hr', if_true]
  · refine .inr (.inl ⟨hr', hrep, ?_⟩)
    simp [hc, toInt_neg_one]
  · refine .inr (.inr ⟨hr', hrep, ?_⟩)
    simp [hc, toInt_neg_one]

/-- `getsockopt` on an open socket, which never returns a positive number. -/
theorem getsockopt_cases (errno : ℤ) {s r : ℤ} (h : s ≠ invalidSocket) (hr : r ≤ 0) :
    r = 0 ∧ getsockopt errno s r = (0, success) ∨
    r < 0 ∧ Reported r ∧ getsockopt errno s r = (-1, .system (-r)) ∨
    r < 0 ∧ ¬ Reported r ∧ getsockopt errno s r = (-1, success) := by
  rw [getsockopt, if_neg h]
  rcases call_cases errno r with ⟨hr', -, hc⟩ | ⟨hr', hrep, hc⟩ | ⟨hr', hrep, hc⟩
  · obtain rfl : r = 0 := by omega
    exact .inl ⟨rfl, by simp [hc, toInt]⟩
  · exact .inr (.inl ⟨hr', hrep, by simp [hc, toInt_neg_one]⟩)
  · exact .inr (.inr ⟨hr', hrep, by simp [hc, toInt_neg_one]⟩)

/-- The code of a `connect` that fails with a translated error. -/
theorem connect_of_reported (errno : ℤ) {s r : ℤ} (h : s ≠ invalidSocket) (hr : r < 0)
    (hrep : Reported r) :
    (connect errno s r).2 =
      if ErrorCode.system (-r) = tryAgain then noBufferSpace else .system (-r) := by
  rcases call_cases errno r with ⟨hr', -, -⟩ | ⟨-, -, hc⟩ | ⟨-, hn, -⟩
  · omega
  · simp [connect, h, hc, toInt_neg_one]
  · exact absurd hrep hn

/-- A connect that is not in progress is finished. -/
theorem syncConnect_of_ne (errno s : ℤ) (calls : ConnectCalls)
    (h : (connect errno s calls.connect).2 ≠ inProgress)
    (h' : (connect errno s calls.connect).2 ≠ wouldBlock) :
    syncConnect errno s calls = (connect errno s calls.connect).2 :=
  if_pos ⟨h, h'⟩

/-- A connect that is in progress ends with the poll and the query. -/
theorem syncConnect_of_inProgress (errno s : ℤ) (calls : ConnectCalls)
    (h : (connect errno s calls.connect).2 = inProgress) :
    syncConnect errno s calls =
      if (pollConnect errno s calls.poll).1 < 0 then (pollConnect errno s calls.poll).2
      else if (getsockopt errno s calls.getsockopt).1 = socketErrorRetval then
        (getsockopt errno s calls.getsockopt).2
      else .system calls.soError :=
  if_neg fun hne => hne.1 h

/-- The poll and the query report their failures. -/
theorem syncConnect_inProgress_iff (errno : ℤ) {s : ℤ} (h : s ≠ invalidSocket)
    (calls : ConnectCalls) (hc : calls.connect = -Errno.EINPROGRESS.value) :
    (syncConnect errno s calls = success →
        0 ≤ calls.poll ∧ 0 ≤ calls.getsockopt ∧ calls.soError = 0) ↔
      Reported calls.poll ∧ (0 ≤ calls.poll → Reported calls.getsockopt) := by
  have hcode : (connect errno s calls.connect).2 = inProgress := by
    rw [hc, connect_of_reported errno h (by decide) (by decide)]
    rfl
  have hneg : (-1 : ℤ) < 0 := by decide
  rw [syncConnect_of_inProgress errno s calls hcode]
  rcases pollConnect_cases errno h (calls.poll_le.trans_lt (by decide)) with
    ⟨hp, he⟩ | ⟨hp, hrep, he⟩ | ⟨hp, hrep, he⟩
  · have hpoll : Reported calls.poll := fun hn => absurd hp (not_le.mpr hn)
    simp only [he, not_lt.mpr hp, if_false]
    rcases getsockopt_cases errno h calls.getsockopt_le with
      ⟨hg, hge⟩ | ⟨hg, hrep, hge⟩ | ⟨hg, hrep, hge⟩
    · have hquery : Reported calls.getsockopt := fun hn => absurd hg hn.ne
      have hne : (0 : ℤ) ≠ socketErrorRetval := by decide
      simp only [hge, hne, if_false]
      exact iff_of_true (fun hs => ⟨hp, hg.ge, ErrorCode.system.inj hs⟩) ⟨hpoll, fun _ => hquery⟩
    · simp only [hge, socketErrorRetval, if_true]
      exact iff_of_true (fun hs => absurd hs (system_ne_success (by omega))) ⟨hpoll, fun _ => hrep⟩
    · simp only [hge, socketErrorRetval, if_true]
      exact iff_of_false (fun hs => absurd (hs trivial).2.1 (not_le.mpr hg))
        fun hr => hrep (hr.2 hp)
  · simp only [he, hneg, if_true]
    exact iff_of_true (fun hs => absurd hs (system_ne_success (by omega)))
      ⟨hrep, fun hp' => absurd hp' (not_le.mpr hp)⟩
  · simp only [he, hneg, if_true]
    exact iff_of_false (fun hs => absurd (hs trivial).1 (not_le.mpr hp)) fun hr => hrep hr.1

/-- **`sync_connect`** ends without an error only for an established connection, exactly when the
failures on the way are translated. -/
theorem syncConnect_iff (errno : ℤ) {s : ℤ} (h : s ≠ invalidSocket) (calls : ConnectCalls) :
    (syncConnect errno s calls = success → calls.Succeeded) ↔ calls.Reported := by
  by_cases hc : calls.connect = -Errno.EINPROGRESS.value
  · have hne : calls.connect ≠ 0 := by rw [hc]; decide
    have hrep : Reported calls.connect := by rw [hc]; decide
    have hsucceeded : calls.Succeeded ↔
        0 ≤ calls.poll ∧ 0 ≤ calls.getsockopt ∧ calls.soError = 0 :=
      (or_iff_right hne).trans (and_iff_right hc)
    have hreported : calls.Reported ↔
        Reported calls.poll ∧ (0 ≤ calls.poll → Reported calls.getsockopt) :=
      (and_iff_right hrep).trans (forall_prop_of_true hc)
    rw [hsucceeded, hreported]
    exact syncConnect_inProgress_iff errno h calls hc
  · have hreported : calls.Reported ↔ Reported calls.connect :=
      and_iff_left fun he => absurd he hc
    have hsucceeded : calls.Succeeded ↔ calls.connect = 0 :=
      or_iff_left fun he => hc he.1
    rw [hreported, hsucceeded]
    rcases call_cases errno calls.connect with ⟨hr, hrep, hcall⟩ | ⟨hr, hrep, -⟩ | ⟨hr, hrep, hcall⟩
    · exact iff_of_true (fun _ => le_antisymm calls.connect_le hr) hrep
    · have hcode := connect_of_reported errno h hr hrep
      have hnp : ErrorCode.system (-calls.connect) ≠ inProgress := fun he =>
        hc (by have := ErrorCode.system.inj he; omega)
      have hne : (connect errno s calls.connect).2 ≠ inProgress ∧
          (connect errno s calls.connect).2 ≠ wouldBlock ∧
          (connect errno s calls.connect).2 ≠ success := by
        rw [hcode]
        split
        · decide
        · next hta => exact ⟨hnp, hta, system_ne_success (by omega)⟩
      rw [syncConnect_of_ne errno s calls hne.1 hne.2.1]
      exact iff_of_true (fun hs => absurd hs hne.2.2) hrep
    · -- an error without a case looks like success
      have hcode : (connect errno s calls.connect).2 = success := by
        simp [connect, h, hcall, toInt_neg_one, tryAgain, success, Errno.value]
      have hs : syncConnect errno s calls = success := by
        rw [syncConnect_of_ne errno s calls (by rw [hcode]; decide) (by rw [hcode]; decide), hcode]
      exact iff_of_false (fun hz => absurd (hz hs) hr.ne) hrep

/-! ## Transfers -/

/-- The result of a call has the sign of what LKL returns. -/
theorem neg_iff_of_call {errno r result : ℤ} {ec : ErrorCode} (h : call errno r = (result, ec)) :
    result < 0 ↔ r < 0 := by
  rcases call_cases errno r with ⟨-, -, hc⟩ | ⟨hn, -, hc⟩ | ⟨hn, -, hc⟩ <;> cases h.symm.trans hc
  · rfl
  · exact iff_of_true (by decide) hn
  · exact iff_of_true (by decide) hn

/-- A call that succeeds leaves no error. -/
theorem success_of_call {errno r result : ℤ} {ec : ErrorCode} (h : call errno r = (result, ec))
    (hr : 0 ≤ result) : ec = success ∧ Reported r := by
  rcases call_cases errno r with ⟨-, hrep, hc⟩ | ⟨-, -, hc⟩ | ⟨-, -, hc⟩ <;> cases h.symm.trans hc
  · exact ⟨rfl, hrep⟩
  · exact absurd hr (by decide)
  · exact absurd hr (by decide)

/-- A call that fails leaves an error exactly when its result is translated. -/
theorem reported_iff_of_call {errno r result : ℤ} {ec : ErrorCode}
    (h : call errno r = (result, ec)) (hr : result < 0) : Reported r ↔ ec ≠ success := by
  rcases call_cases errno r with ⟨hn, -, hc⟩ | ⟨hn, hrep, hc⟩ | ⟨-, hrep, hc⟩ <;>
    cases h.symm.trans hc
  · exact absurd hr (not_lt.mpr hn)
  · exact iff_of_true hrep (system_ne_success (by omega))
  · exact iff_of_false hrep fun hne => hne rfl

/-- `recv` resets a code that is clear already. -/
theorem recv_eq_call (errno r : ℤ) : recv errno r = call errno r := by
  rcases call_cases errno r with ⟨-, -, hc⟩ | ⟨-, -, hc⟩ | ⟨-, -, hc⟩ <;> simp [recv, hc]

theorem send_eq_call (errno r : ℤ) : send errno r = call errno r := recv_eq_call errno r

/-- A blocking poll differs from the poll of a connect in nothing. -/
theorem poll_eq_pollConnect (errno s r : ℤ) : poll errno s false r = pollConnect errno s r := by
  unfold poll pollConnect
  split
  · rfl
  · refine Prod.ext rfl ?_
    dsimp only
    by_cases hr : toInt (call errno r).1 = 0
    · simp [hr]
    · by_cases hr' : 0 < toInt (call errno r).1
      · simp [hr, hr', hr'.le]
      · simp [hr, hr', show ¬ 0 ≤ toInt (call errno r).1 by omega]

/-- A poll before the next try fails with an error exactly when its result is translated. -/
theorem poll_spec {errno s r ready : ℤ} {ec : ErrorCode} (h : s ≠ invalidSocket) (hr : r < 2 ^ 31)
    (hp : poll errno s false r = (ready, ec)) :
    (0 ≤ ready → Reported r) ∧ (ready < 0 → r < 0 ∧ (Reported r ↔ ec ≠ success)) := by
  rw [poll_eq_pollConnect] at hp
  rcases pollConnect_cases errno h hr with ⟨hn, hc⟩ | ⟨hn, hrep, hc⟩ | ⟨hn, hrep, hc⟩ <;>
    cases hp.symm.trans hc
  · exact ⟨fun _ hr' => absurd hn (not_le.mpr hr'), fun hr' => absurd hn (not_le.mpr hr')⟩
  · have hne := system_ne_success (show -r ≠ 0 by omega)
    exact ⟨fun _ => hrep, fun _ => ⟨hn, iff_of_true hrep hne⟩⟩
  · exact ⟨fun hr' => absurd hr' (by decide), fun _ => ⟨hn, iff_of_false hrep fun hne => hne rfl⟩⟩

/-- A call that sends the loops to a poll is one of the translated failures. -/
theorem reported_of_retry {errno r result : ℤ} {ec : ErrorCode} (h : call errno r = (result, ec))
    (hretry : ¬ (ec ≠ wouldBlock ∧ ec ≠ tryAgain)) : Reported r := by
  have hne : ec ≠ success := by
    rintro rfl
    exact hretry ⟨by decide, by decide⟩
  have hr : result < 0 := not_le.mp fun hn => hne (success_of_call h hn).1
  exact (reported_iff_of_call h hr).mpr hne

/-- The loop of `sync_recv` on a stream never ends with no bytes and no error, exactly when every
failure on the way is translated. -/
theorem recvLoop_iff (errno : ℤ) {s : ℤ} (h : s ≠ invalidSocket) {flags : TransferFlags}
    (hstream : flags.streamOriented = true) {calls : List ℤ} {n : ℤ} {ec : ErrorCode}
    (hcalls : ∀ r ∈ calls, r < 2 ^ 31) (hloop : recvLoop errno s flags calls = some (n, ec, [])) :
    (n = 0 → ec ≠ success) ↔ ∀ r ∈ calls, Reported r := by
  fun_induction recvLoop errno s flags calls with
  | case1 => cases hloop
  | case2 r calls bytes code hrecv hpos =>
    cases hloop
    have hrep := (success_of_call ((recv_eq_call errno r).symm.trans hrecv) hpos.le).2
    simp [hpos.ne', hrep]
  | case3 r calls bytes code hrecv hpos heof =>
    cases hloop
    have hrep := (success_of_call ((recv_eq_call errno r).symm.trans hrecv) heof.2.1.ge).2
    simp [hrep, success]
  | case4 r calls bytes code hrecv hpos heof hfail =>
    -- a failure: no bytes without an error would be the end of file
    cases hloop
    have hcall := (recv_eq_call errno r).symm.trans hrecv
    have hneg : bytes < 0 := by
      by_contra hn
      obtain rfl : bytes = 0 := by omega
      obtain rfl := (success_of_call hcall le_rfl).1
      exact heof ⟨hstream, rfl, by decide, by decide⟩
    simp [reported_iff_of_call hcall hneg]
  | case5 => cases hloop
  | case6 r bytes code hrecv hpos heof hfail p calls ready code' hpoll hready =>
    cases hloop
    have hcall := (recv_eq_call errno r).symm.trans hrecv
    have hrep := reported_of_retry hcall fun hc => hfail (.inr hc)
    have hp := ((poll_spec h (hcalls p (by simp)) hpoll).2 hready).2
    simp [hrep, hp]
  | case7 r bytes code hrecv hpos heof hfail p calls ready code' hpoll hready ih =>
    have hcall := (recv_eq_call errno r).symm.trans hrecv
    have hrep := reported_of_retry hcall fun hc => hfail (.inr hc)
    have hp := (poll_spec h (hcalls p (by simp)) hpoll).1 (not_lt.mp hready)
    rw [ih (fun r hr => hcalls r (by simp [hr])) hloop]
    simp [hrep, hp]

/-- The loop of `sync_send` never ends with no bytes and no error when its last call fails, exactly
when every failure on the way is translated. -/
theorem sendLoop_iff (errno : ℤ) {s : ℤ} (h : s ≠ invalidSocket) {flags : TransferFlags}
    {calls : List ℤ} {n : ℤ} {ec : ErrorCode} (hcalls : ∀ r ∈ calls, r < 2 ^ 31)
    (hloop : sendLoop errno s flags calls = some (n, ec, [])) :
    (∀ r ∈ calls.getLast?, r < 0 → n = 0 → ec ≠ success) ↔ ∀ r ∈ calls, Reported r := by
  fun_induction sendLoop errno s flags calls with
  | case1 => cases hloop
  | case2 r calls bytes code hsend hpos =>
    cases hloop
    have hcall := (send_eq_call errno r).symm.trans hsend
    have hr : ¬ r < 0 := fun hr => absurd hpos (not_le.mpr ((neg_iff_of_call hcall).mpr hr))
    simp [(success_of_call hcall hpos).2, hr]
  | case3 r calls bytes code hsend hneg hfail =>
    cases hloop
    have hcall := (send_eq_call errno r).symm.trans hsend
    have hr := (neg_iff_of_call hcall).mp (not_le.mp hneg)
    simp [reported_iff_of_call hcall (not_le.mp hneg), hr]
  | case4 => cases hloop
  | case5 r bytes code hsend hneg hfail p calls ready code' hpoll hready =>
    cases hloop
    have hcall := (send_eq_call errno r).symm.trans hsend
    have hrep := reported_of_retry hcall fun hc => hfail (.inr hc)
    obtain ⟨hp, hiff⟩ := (poll_spec h (hcalls p (by simp)) hpoll).2 hready
    simp [hrep, hp, hiff]
  | case6 r bytes code hsend hneg hfail p calls ready code' hpoll hready ih =>
    have hcall := (send_eq_call errno r).symm.trans hsend
    have hrep := reported_of_retry hcall fun hc => hfail (.inr hc)
    have hp := (poll_spec h (hcalls p (by simp)) hpoll).1 (not_lt.mp hready)
    have hlast : (r :: p :: calls).getLast? = calls.getLast? := by
      cases calls with
      | nil => cases hloop
      | cons q calls => rfl
    rw [hlast, ih (fun r hr => hcalls r (by simp [hr])) hloop]
    simp [hrep, hp]

/-- **`sync_recv`** on a stream with a buffer. -/
theorem syncRecv_iff (errno s : ℤ) {flags : TransferFlags} (hstream : flags.streamOriented = true)
    (hbuf : flags.allEmpty = false) {calls : List ℤ} {n : ℤ} {ec : ErrorCode}
    (hcalls : ∀ r ∈ calls, r < 2 ^ 31) (hrun : syncRecv errno s flags calls = some (n, ec, [])) :
    (n = 0 → ec ≠ success) ↔ ∀ r ∈ calls, Reported r := by
  unfold syncRecv at hrun
  split at hrun
  · cases hrun
    simp [badDescriptor, success, Errno.value]
  · next hs =>
    rw [if_neg (by simp [hbuf])] at hrun
    exact recvLoop_iff errno hs hstream hcalls hrun

/-- **`sync_send`** with something to send. -/
theorem syncSend_iff (errno s : ℤ) {flags : TransferFlags} (hbuf : flags.allEmpty = false)
    {calls : List ℤ} {n : ℤ} {ec : ErrorCode} (hcalls : ∀ r ∈ calls, r < 2 ^ 31)
    (hrun : syncSend errno s flags calls = some (n, ec, [])) :
    (∀ r ∈ calls.getLast?, r < 0 → n = 0 → ec ≠ success) ↔ ∀ r ∈ calls, Reported r := by
  unfold syncSend at hrun
  split at hrun
  · cases hrun
    simp
  · next hs =>
    rw [if_neg (by simp [hbuf])] at hrun
    exact sendLoop_iff errno hs hcalls hrun

/-- **A failure of LKL is reported exactly when `lkl_set_errno` has a case for it.** A single call
ends with an error exactly when its result is negative, `sync_connect` ends without an error only
for an established connection, `sync_recv` on a stream never ends with no bytes and no error, nor
does `sync_send` when the last call fails: each if and only if the results that the operation got
are translated. -/
theorem failures_reported_iff (errno s : ℤ) :
    (∀ r, (Reports (socket errno r).2 r ↔ Reported r) ∧
      (s ≠ invalidSocket → (Reports (connect errno s r).2 r ↔ Reported r)) ∧
      (Reports (recv errno r).2 r ↔ Reported r) ∧ (Reports (send errno r).2 r ↔ Reported r)) ∧
    (∀ calls : ConnectCalls, (syncConnect errno s calls = success → calls.Succeeded) ↔
      (s ≠ invalidSocket → calls.Reported)) ∧
    ∀ (flags : TransferFlags) (calls : List ℤ) (n : ℤ) (ec : ErrorCode),
      flags.allEmpty = false → (∀ r ∈ calls, r < 2 ^ 31) →
      (flags.streamOriented = true → syncRecv errno s flags calls = some (n, ec, []) →
        ((n = 0 → ec ≠ success) ↔ ∀ r ∈ calls, Reported r)) ∧
      (syncSend errno s flags calls = some (n, ec, []) →
        ((∀ r ∈ calls.getLast?, r < 0 → n = 0 → ec ≠ success) ↔ ∀ r ∈ calls, Reported r)) := by
  refine ⟨fun r => ⟨socket_reports_iff errno r, fun hs => connect_reports_iff errno hs r,
    recv_reports_iff errno r, send_reports_iff errno r⟩, fun calls => ?_, ?_⟩
  · by_cases hs : s = invalidSocket
    · refine iff_of_true (fun h => ?_) fun hne => absurd hs hne
      subst hs
      cases h
    · have hiff := syncConnect_iff errno hs calls
      exact ⟨fun h _ => hiff.mp h, fun h => hiff.mpr (h hs)⟩
  · intro flags calls n ec hbuf hcalls
    exact ⟨fun hstream hrun => syncRecv_iff errno s hstream hbuf hcalls hrun,
      fun hrun => syncSend_iff errno s hbuf hcalls hrun⟩

/-- A stream socket in blocking mode. -/
def streamFlags : TransferFlags where
  streamOriented := true
  userSetNonBlocking := false
  msgDontwait := false
  allEmpty := false

/-- A `recv` that would block, and is reset after the poll: both failures have a case. -/
theorem failures_reported_reset :
    syncRecv 0 3 streamFlags [-11, 1, -104] = some (0, .system 104, []) ∧
      (((0 : ℤ) = 0 → ErrorCode.system 104 ≠ success) ↔ ∀ r ∈ [-11, 1, -104], Reported r) :=
  ⟨by decide,
    (((failures_reported_iff 0 3).2.2 streamFlags [-11, 1, -104] 0 (.system 104) rfl
      (by decide)).1 rfl (by decide))⟩

/-- **The switch of `lkl_set_errno` has no default.** The kernel's own `ERESTARTSYS`, which is 512,
has no case, and every operation takes it for a success. -/
theorem not_reported_restartSys :
    ¬ Reports (connect 0 3 (-512)).2 (-512) ∧
      syncConnect 0 3 ⟨-512, 0, 0, 0, by decide, by decide, by decide⟩ = success ∧
      syncRecv 0 3 streamFlags [-512] = some (0, success, []) ∧
      syncSend 0 3 streamFlags [-512] = some (0, success, []) := by
  decide

end Lkl

end LklSocks
