import LklSocks.Lkl.BlockingMode

/-!
# The options of the sockets

LKL has the options of each descriptor. The destructor of a socket must not block in `lkl_close`: a
bit says that the user has set the linger option, and then `close` turns it off for the destructor.
Another bit is an option of Boost.Asio itself, whether `accept` reports an aborted connection; LKL
does not know it. The service passes the bits on when it moves a socket, and forgets them when it
closes one, so in every run its own option has to behave as if LKL kept it with the descriptor.

## Main definitions

* `Lkl.getsockoptQuery`, `Lkl.Impl.getOption`: the query of an option
* `Lkl.AbortsConnection`: the results of an `lkl_accept` for an aborted connection
* `Lkl.OptionCall`: what is done to an option of a descriptor
* `Lkl.DescriptorOptions`: the options of a descriptor
* `Lkl.OptionService`, `Lkl.OptionService.machine`: the service with the options

## Main results

* `Lkl.syncAccept_reports`, `Lkl.syncAccept_passes`: `sync_accept` with and without the option
* `Lkl.OptionService.implements_moded`: the options do not change what the service does
* `Lkl.SocketService.Performs.tracked`: the bits track the options in every operation
* `Lkl.OptionService.options_of_sockets`: the options in every run
-/

namespace LklSocks

namespace Lkl

open ErrorCode

variable {δ : Type} {reactor : Reactor δ}

/-! ## The query of an option -/

/-- The options that `getsockopt` tells apart, with the size of the buffer where it is looked at.
`bufferSize` is `SO_SNDBUF` or `SO_RCVBUF`. -/
inductive OptionQuery
  | alwaysFail
  | enableConnectionAborted (optlen : ℕ)
  | bufferSize
  | other
  deriving DecidableEq, Repr

/-- The size of an `int`. -/
def sizeofInt : ℕ := 4

/-- What `lkl_getsockopt` gives: its result, and the value and the size that it stores. -/
structure OptionAnswer where
  result : ℤ
  value : ℤ
  optlen : ℕ
  deriving DecidableEq, Repr

/-- `getsockopt`: the result, the error code and the value that is stored, if there is one. -/
def getsockoptQuery (errno s : ℤ) (state : UInt8) (query : OptionQuery) (answer : OptionAnswer) :
    ℤ × ErrorCode × Option ℤ :=
  -- the call of LKL, as for `SO_ERROR`
  let native (value : ℤ → ℤ) :=
    let (result, ec) := getsockopt errno s answer.result
    (result, ec,
      some (if result = 0 ∧ answer.optlen = sizeofInt then value answer.value else answer.value))
  if s = invalidSocket then (socketErrorRetval, badDescriptor, none)
  else
    match query with
    | .alwaysFail => (socketErrorRetval, invalidArgument, none)
    | .enableConnectionAborted optlen =>
      if optlen ≠ sizeofInt then (socketErrorRetval, invalidArgument, none)
      else (0, success, some (if HasBits state Lkl.enableConnectionAborted then 1 else 0))
    -- the kernel has doubled the size that was set
    | .bufferSize => native fun value => value.tdiv 2
    | .other => native id

/-- `get_option`: the error code and the value that is stored. -/
def Impl.getOption (impl : Impl δ) (query : OptionQuery) (answer : OptionAnswer) :
    ServiceCode × Option ℤ :=
  let (_, ec, value) := getsockoptQuery 0 impl.socket impl.state query answer
  (.code ec, value)

/-! ## The options of a descriptor -/

/-- The options of a descriptor: whether the linger option that LKL has for it is on, whether the
user has set this option since the descriptor was obtained, and whether the user wants to know of
aborted connections. -/
structure DescriptorOptions where
  linger : Bool
  lingerSet : Bool
  connectionAborted : Bool
  deriving DecidableEq, Repr

/-- A new descriptor. -/
def DescriptorOptions.new (linger : Bool) : DescriptorOptions := ⟨linger, false, false⟩

/-- What is done to an option: `lkl_setsockopt` with `SO_LINGER`, whose result is `r`, or the
option of Boost.Asio. -/
inductive OptionCall
  | linger (onoff : Bool) (r : ℤ)
  | connectionAborted (value : Bool)
  deriving DecidableEq, Repr

/-- A call that fails leaves the option as it is. -/
def OptionCall.apply : OptionCall → DescriptorOptions → DescriptorOptions
  | linger onoff r, o => { o with linger := if 0 ≤ r then onoff else o.linger, lingerSet := true }
  | connectionAborted value, o => { o with connectionAborted := value }

/-- What `set_option` does, for the value of a linger option. -/
def SocketOption.optionCall (onoff : Bool) (r : ℤ) : SocketOption → Option OptionCall
  | linger => some (.linger onoff r)
  | enableConnectionAborted (some value) => some (.connectionAborted (value ≠ 0))
  | _ => none

namespace Impl

def setOptionCall (impl : Impl δ) (option : SocketOption) (onoff : Bool) (r : ℤ) :
    Option (ℤ × OptionCall) :=
  if impl.socket = invalidSocket then none
  else (option.optionCall onoff r).map fun c => (impl.socket, c)

/-- The call with which `close` turns an option off, which has the result `r`. -/
def closeCall (impl : Impl δ) (destruction : Bool) (r : ℤ) : Option (ℤ × OptionCall) :=
  (closeOption impl.state destruction).bind fun option => impl.setOptionCall option false r

end Impl

/-! ## The service with the options -/

/-- The service with the modes, and the options of the descriptors. -/
structure OptionService (δ : Type) where
  moded : ModedService δ
  options : ℤ → DescriptorOptions

/-- An operation, with the linger option that is set in it or that a descriptor comes with, and the
result of the call that turns the option off. -/
structure OptionAction where
  action : ModeAction
  onoff : Bool
  off : ℤ
  deriving DecidableEq, Repr

/-- The option call of an operation, with its descriptor. -/
def SocketService.optionCall (s : SocketService δ) (onoff : Bool) (off : ℤ) :
    ServiceAction → Option (ℤ × OptionCall)
  | .setOption i option r => (s.impl i).bind fun x => x.setOptionCall option onoff r
  | .close i _ => (s.impl i).bind fun x => x.closeCall false off
  | .destroy i _ => (s.impl i).bind fun x => x.closeCall true off
  | .moveAssign i _ _ => (s.impl i).bind fun x => x.closeCall true off
  | _ => none

/-- The implementation of which an operation sets an option. -/
def ServiceAction.setsOption : ServiceAction → Option ℕ
  | .setOption i _ _ => some i
  | _ => none

/-- What an operation does to an option of the implementation `i`. -/
def ServiceAction.callOn (onoff : Bool) (i : ℕ) : ServiceAction → Option OptionCall
  | .setOption j option r => if j = i then option.optionCall onoff r else none
  | _ => none

/-- The implementation whose socket is closed by its destructor, or for one that is moved onto
it. -/
def ServiceAction.destroys : ServiceAction → Option ℕ
  | .destroy i _ => some i
  | .moveAssign i _ _ => some i
  | _ => none

/-- The linger option of a descriptor that an operation obtains. LKL opens sockets without it. An
accepted socket may have that of the socket it was accepted on, and an assigned one what its caller
has set. -/
def ServiceAction.newLinger (onoff : Bool) : ServiceAction → Bool
  | .assign _ _ _ => onoff
  | .accept _ _ _ => onoff
  | _ => false

def ServiceEvent.options (new : Bool) (options : ℤ → DescriptorOptions) :
    ServiceEvent δ → ℤ → DescriptorOptions
  | .obtained d => Function.update options d (.new new)
  | _ => options

def ServiceEvent.closed : ServiceEvent δ → Option ℤ
  | .close d _ => some d
  | .closeAgain d _ => some d
  | _ => none

namespace OptionService

/-- Before the first operation. -/
def initial (mode : ℤ → Bool) (options : ℤ → DescriptorOptions) : OptionService δ :=
  ⟨.initial mode, options⟩

/-- The options after a call. -/
def optionsAfter (options : ℤ → DescriptorOptions) (c : Option (ℤ × OptionCall)) :
    ℤ → DescriptorOptions :=
  c.elim options fun (d, c) => Function.update options d (c.apply (options d))

/-- The call of a step. -/
def optionCall (s : OptionService δ) (a : OptionAction) : Option (ℤ × OptionCall) :=
  match a.action with
  | .operate b _ => s.moded.service.optionCall a.onoff a.off b
  | .ioControl _ _ _ => none

/-- The linger option of a descriptor that a step obtains. -/
def newLinger (a : OptionAction) : Bool :=
  match a.action with
  | .operate b _ => b.newLinger a.onoff
  | .ioControl _ _ _ => false

/-- One step. The call comes before a descriptor is closed. -/
def perform (reactor : Reactor δ) (s : OptionService δ) (a : OptionAction) :
    Option (OptionService δ × List (ServiceEvent δ)) :=
  (s.moded.perform reactor a.action).map fun (t, evs) =>
    (⟨t, evs.foldl (fun options e => e.options (newLinger a) options)
      (optionsAfter s.options (s.optionCall a))⟩, evs)

/-- The descriptors that a step closes, and whether their linger option is on at the `lkl_close`. -/
def closes (reactor : Reactor δ) (s : OptionService δ) (a : OptionAction) : List (ℤ × Bool) :=
  ((s.moded.events reactor a.action).filterMap ServiceEvent.closed).map fun d =>
    (d, (optionsAfter s.options (s.optionCall a) d).linger)

/-- The service under every sequence of operations and commands, and all results of LKL. -/
def machine (reactor : Reactor δ) : Machine (OptionService δ) OptionAction where
  init s := ∃ mode options, s = initial mode options
  step s a := (s.perform reactor a).map Prod.fst

end OptionService

/-! ## The bits -/

/-- The bits of the options are the same. -/
def KeepsOptions (state state' : UInt8) : Prop :=
  ∀ mask, mask = userSetLinger ∨ mask = enableConnectionAborted →
    (HasBits state' mask ↔ HasBits state mask)

theorem KeepsOptions.refl (state : UInt8) : KeepsOptions state state := fun _ _ => Iff.rfl

/-- Bits that are no options are set or cleared. -/
theorem keepsOptions_or (state : UInt8) {bits : UInt8} (hlinger : ¬ HasBits bits userSetLinger)
    (haborted : ¬ HasBits bits enableConnectionAborted) : KeepsOptions state (state ||| bits) := by
  rintro mask (rfl | rfl)
  · exact hasBits_or_of_not hlinger
  · exact hasBits_or_of_not haborted

theorem keepsOptions_andNot (state : UInt8) {bits : UInt8}
    (hlinger : userSetLinger &&& ~~~bits = userSetLinger)
    (haborted : enableConnectionAborted &&& ~~~bits = enableConnectionAborted) :
    KeepsOptions state (state &&& ~~~bits) := by
  rintro mask (rfl | rfl)
  · exact hasBits_andNot_of_eq hlinger
  · exact hasBits_andNot_of_eq haborted

theorem setUserNonBlocking_keepsOptions (errno s : ℤ) (state : UInt8) (value : Bool) (r : ℤ) :
    KeepsOptions state (setUserNonBlocking errno s state value r).2.2 := by
  unfold setUserNonBlocking
  split
  · exact .refl state
  · dsimp only
    split
    · cases value with
      | false => exact keepsOptions_andNot state (by decide) (by decide)
      | true => exact keepsOptions_or state (by decide) (by decide)
    · exact .refl state

theorem setInternalNonBlocking_keepsOptions (errno s : ℤ) (state : UInt8) (value : Bool) (r : ℤ) :
    KeepsOptions state (setInternalNonBlocking errno s state value r).2.2 := by
  unfold setInternalNonBlocking
  split
  · exact .refl state
  · split
    · exact .refl state
    · dsimp only
      split
      · cases value with
        | false => exact keepsOptions_andNot state (by decide) (by decide)
        | true => exact keepsOptions_or state (by decide) (by decide)
      · exact .refl state

namespace Impl

theorem startOp_keepsOptions (x : Impl δ) (type : OpType) (noop : Bool) (r : ℤ) :
    KeepsOptions x.state (x.startOp type noop r).impl.state := by
  have hstate := setInternalNonBlocking_keepsOptions 0 x.socket x.state true r
  unfold startOp
  split
  · split
    · exact .refl x.state
    · dsimp only
      split
      · exact hstate
      · exact hstate
  · exact .refl x.state

theorem startAcceptOp_keepsOptions (x : Impl δ) (peerIsOpen : Bool) (r : ℤ) :
    KeepsOptions x.state (x.startAcceptOp peerIsOpen r).impl.state := by
  unfold startAcceptOp
  split
  · exact x.startOp_keepsOptions .read false r
  · exact .refl x.state

theorem startConnectOp_keepsOptions (x : Impl δ) (r connect : ℤ) :
    KeepsOptions x.state (x.startConnectOp r connect).impl.state := by
  have hstate := setInternalNonBlocking_keepsOptions 0 x.socket x.state true r
  unfold startConnectOp
  split
  · rw [connectOp_impl]
    exact .refl x.state
  · dsimp only
    split
    · rw [connectOp_impl]
      exact hstate
    · exact hstate

end Impl

/-! ## What the bits know of the options -/

/-- The bits of an open socket with these options. -/
structure DescriptorOptions.Tracked (o : DescriptorOptions) (state : UInt8) : Prop where
  lingerSet : HasBits state userSetLinger ↔ o.lingerSet = true
  connectionAborted : HasBits state enableConnectionAborted ↔ o.connectionAborted = true

theorem DescriptorOptions.Tracked.keeps {o : DescriptorOptions} {state state' : UInt8}
    (h : o.Tracked state) (hstate : KeepsOptions state state') : o.Tracked state' where
  lingerSet := (hstate _ (.inl rfl)).trans h.lingerSet
  connectionAborted := (hstate _ (.inr rfl)).trans h.connectionAborted

/-- The bits of a socket that was opened, accepted or assigned. -/
theorem DescriptorOptions.new_tracked {state : UInt8} (linger : Bool)
    (hlinger : ¬ HasBits state userSetLinger) (haborted : ¬ HasBits state enableConnectionAborted) :
    (new linger).Tracked state where
  lingerSet := iff_of_false hlinger Bool.false_ne_true
  connectionAborted := iff_of_false haborted Bool.false_ne_true

/-- An open implementation has bits that fit its descriptor. -/
def Impl.Tracks (x : Impl δ) (options : ℤ → DescriptorOptions) : Prop :=
  x.IsOpen → (options x.socket).Tracked x.state

/-- The errors of an aborted connection are passed on by the bit. -/
theorem acceptsAgain_of_aborted {state : UInt8} {ec : ErrorCode}
    (h : ec = connectionAborted ∨ ec = .system Errno.EPROTO.value) :
    AcceptsAgain state ec ↔ ¬ HasBits state enableConnectionAborted := by
  have hblock : ¬ (connectionAborted = wouldBlock ∨ connectionAborted = tryAgain) := by decide
  have hproto : ¬ (ErrorCode.system Errno.EPROTO.value = wouldBlock ∨
      ErrorCode.system Errno.EPROTO.value = tryAgain) := by decide
  have hne : ErrorCode.system Errno.EPROTO.value ≠ connectionAborted := by decide
  unfold AcceptsAgain
  rcases h with rfl | rfl
  · rw [if_neg hblock, if_pos rfl]
  · rw [if_neg hproto, if_neg hne, if_pos rfl]

/-- The result of an `lkl_accept` whose connection was aborted. -/
def AbortsConnection (r : ℤ) : Prop :=
  r = -Errno.ECONNABORTED.value ∨ r = -Errno.EPROTO.value

/-- An accept of an aborted connection fails with its code. -/
theorem accept_of_aborts {s r : ℤ} (errno : ℤ) (hs : s ≠ invalidSocket) (hr : AbortsConnection r) :
    accept errno s r = (invalidSocket, .system (-r)) := by
  have hcall (h : call errno r = (-1, .system (-r))) :
      accept errno s r = (invalidSocket, .system (-r)) := by
    unfold accept
    rw [if_neg hs, h]
    simp [toInt_neg_one, invalidSocket]
  rcases hr with rfl | rfl
  · exact hcall rfl
  · exact hcall rfl

theorem system_of_aborts {r : ℤ} (hr : AbortsConnection r) :
    ErrorCode.system (-r) = connectionAborted ∨
      ErrorCode.system (-r) = .system Errno.EPROTO.value :=
  hr.imp (fun h => by rw [h, neg_neg]; rfl) (fun h => by rw [h, neg_neg])

/-- With the option, `sync_accept` reports an aborted connection. -/
theorem syncAccept_reports {s r : ℤ} {state : UInt8} (errno : ℤ) (hs : s ≠ invalidSocket)
    (hbit : HasBits state enableConnectionAborted) (hr : AbortsConnection r) (p : ℤ)
    (rounds : List (ℤ × ℤ)) :
    syncAccept errno s state ((r, p) :: rounds) = some (invalidSocket, .system (-r)) := by
  have hagain : ¬ AcceptsAgain state (.system (-r)) := fun h =>
    (acceptsAgain_of_aborted (system_of_aborts hr)).mp h hbit
  simp [syncAccept, accept_of_aborts errno hs hr, hagain]

/-- Without it, `sync_accept` passes over the aborted connections. -/
theorem syncAccept_passes {s : ℤ} {state : UInt8} (errno : ℤ) (hs : s ≠ invalidSocket)
    (hbit : ¬ HasBits state enableConnectionAborted) {aborted : List (ℤ × ℤ)}
    (h : ∀ q ∈ aborted, AbortsConnection q.1 ∧ 0 ≤ (pollRead errno s false q.2).1)
    (rounds : List (ℤ × ℤ)) :
    syncAccept errno s state (aborted ++ rounds) = syncAccept errno s state rounds := by
  refine syncAccept_append ?_ rounds
  induction aborted with
  | nil => rfl
  | cons q aborted ih =>
    obtain ⟨r, p⟩ := q
    obtain ⟨hr, hp⟩ := h (r, p) List.mem_cons_self
    have hagain : AcceptsAgain state (.system (-r)) :=
      (acceptsAgain_of_aborted (system_of_aborts hr)).mpr hbit
    have hpoll : ¬ (pollRead errno s false p).1 < 0 := not_lt.mpr hp
    simp only [syncAccept, accept_of_aborts errno hs hr, ne_eq, not_true_eq_false, if_false,
      if_pos hagain, if_neg hpoll]
    exact ih fun q hq => h q (List.mem_cons_of_mem _ hq)

/-- Only the linger option is turned off, for the destructor, and only if the user has set it. -/
theorem closeOption_eq_some {state : UInt8} {destruction : Bool} {option : SocketOption} :
    closeOption state destruction = some option ↔
      (destruction = true ∧ HasBits state userSetLinger) ∧ option = .linger := by
  unfold closeOption
  rw [Option.ite_none_right_eq_some, Option.some.injEq, @eq_comm _ option]

/-- The option of Boost.Asio is read from its bit, without a call of LKL. -/
theorem Impl.getOption_connectionAborted (x : Impl δ) (hopen : x.IsOpen) {value : Bool}
    (h : HasBits x.state enableConnectionAborted ↔ value = true) (answer : OptionAnswer) :
    x.getOption (.enableConnectionAborted sizeofInt) answer =
      (.code success, some (if value = true then 1 else 0)) := by
  have hs : x.socket ≠ invalidSocket := hopen
  unfold getOption getsockoptQuery
  simp only [if_neg hs, ne_eq, not_true_eq_false, if_false, h]

namespace OptionService

variable {options : ℤ → DescriptorOptions} {d : ℤ}

/-- A call on another descriptor. -/
theorem optionsAfter_of_ne {c : Option (ℤ × OptionCall)} (h : ∀ p ∈ c, d ≠ p.1) :
    optionsAfter options c d = options d := by
  cases c with
  | none => rfl
  | some p => exact Function.update_of_ne (h p rfl) ..

@[simp] theorem optionsAfter_self (s : ℤ) (c : OptionCall) :
    optionsAfter options (some (s, c)) s = c.apply (options s) := Function.update_self ..

end OptionService

namespace Impl

variable {x : Impl δ} {options : ℤ → DescriptorOptions}

/-- An option that is set is tracked by its bit. -/
theorem setOption_tracks (h : x.Tracks options) (option : SocketOption) (onoff : Bool) (r : ℤ) :
    (x.setOption option r).impl.Tracks
      (OptionService.optionsAfter options (x.setOptionCall option onoff r)) := by
  intro hopen
  have hx : x.IsOpen := hopen
  have hs : x.socket ≠ invalidSocket := hx
  have htracked := h hx
  have hcall : x.setOptionCall option onoff r =
      (option.optionCall onoff r).map fun c => (x.socket, c) := if_neg hs
  rw [hcall]
  unfold setOption setsockopt
  simp only [if_neg hs]
  cases option with
  | alwaysFail => exact htracked
  | enableConnectionAborted value =>
    cases value with
    | none => exact htracked
    | some value =>
      simp only [SocketOption.optionCall, Option.map_some, OptionService.optionsAfter_self]
      by_cases hvalue : value = 0
      · simp only [hvalue, ne_eq, not_true_eq_false, if_false, decide_false]
        refine ⟨(hasBits_andNot_of_eq (by decide)).trans htracked.lingerSet, ?_⟩
        refine iff_of_false (fun hbit => ?_) Bool.false_ne_true
        exact not_hasBits_zero x.state (hasBits_andNot.mp hbit)
      · simp only [ne_eq, hvalue, not_false_eq_true, if_true, decide_true]
        refine ⟨(hasBits_or_of_not (by decide)).trans htracked.lingerSet, iff_of_true ?_ rfl⟩
        exact hasBits_or.mpr (.inr (by decide))
  | linger =>
    simp only [SocketOption.optionCall, Option.map_some, OptionService.optionsAfter_self]
    refine ⟨iff_of_true (hasBits_or.mpr (.inr (by decide))) rfl, ?_⟩
    exact (hasBits_or_of_not (by decide)).trans htracked.connectionAborted
  | other => exact htracked

/-- The option call of an open implementation is on its own descriptor. -/
theorem setOptionCall_fst {option : SocketOption} {onoff : Bool} {r : ℤ} {p : ℤ × OptionCall}
    (h : p ∈ x.setOptionCall option onoff r) :
    x.IsOpen ∧ p.1 = x.socket ∧ option.optionCall onoff r = some p.2 := by
  obtain ⟨hs, h⟩ := Option.ite_none_left_eq_some.mp h
  obtain ⟨c, hc, rfl⟩ := Option.map_eq_some_iff.mp h
  exact ⟨hs, rfl, hc⟩

theorem closeCall_eq_some {destruction : Bool} {off : ℤ} {p : ℤ × OptionCall} :
    x.closeCall destruction off = some p ↔
      destruction = true ∧ x.IsOpen ∧ HasBits x.state userSetLinger ∧
        p = (x.socket, .linger false off) := by
  unfold closeCall
  rw [Option.bind_eq_some_iff]
  constructor
  · rintro ⟨option, ho, hp⟩
    obtain ⟨hopen, hd, hcall⟩ := setOptionCall_fst hp
    obtain ⟨⟨hdestruction, hbit⟩, rfl⟩ := closeOption_eq_some.mp ho
    exact ⟨hdestruction, hopen, hbit, Prod.ext hd (Option.some.inj hcall).symm⟩
  · rintro ⟨hdestruction, hopen, hbit, rfl⟩
    exact ⟨.linger, closeOption_eq_some.mpr ⟨⟨hdestruction, hbit⟩, rfl⟩, if_neg hopen⟩

theorem closeCall_false (x : Impl δ) (off : ℤ) : x.closeCall false off = none := by
  rw [Option.eq_none_iff_forall_ne_some]
  exact fun p hp => Bool.false_ne_true (closeCall_eq_some.mp hp).1

end Impl

namespace SocketService

variable {s t : SocketService δ} {evs : List (ServiceEvent δ)} {a : ServiceAction}
  {options options' : ℤ → DescriptorOptions} {new onoff : Bool} {off : ℤ} {i : ℕ} {d : ℤ}

/-- All implementations fit the options. -/
def Tracking (s : SocketService δ) (options : ℤ → DescriptorOptions) : Prop :=
  ∀ i x, s.impl i = some x → x.Tracks options

theorem Tracking.set (h : s.Tracking options) {x : Option (Impl δ)}
    (hx : ∀ y, x = some y → y.Tracks options')
    (hothers : ∀ j d, j ≠ i → s.Holds j d → options' d = options d) :
    (s.set i x).Tracking options' := by
  refine forall_set h hx fun j y hji hj hy hopen => ?_
  rw [hothers j y.socket hji ⟨y, hj, hopen, rfl⟩]
  exact hy hopen

theorem options_of_notMem (h : .obtained d ∉ evs) :
    evs.foldl (fun options e => e.options new options) options d = options d := by
  refine foldl_of_notMem (fun options e he => ?_) h
  cases e with
  | obtained d' =>
    have hne : d ≠ d' := fun hd => he (hd ▸ rfl)
    exact Function.update_of_ne hne ..
  | _ => rfl

/-- The events leave the options of a descriptor in use alone. -/
theorem Steps.options_of_holds (h : s.Steps reactor t evs) (hd : s.Holds i d) :
    evs.foldl (fun options e => e.options new options) options d = options d :=
  options_of_notMem fun hmem => h.free_of_obtained hmem i hd

theorem optionCall_holds {p : ℤ × OptionCall} (h : p ∈ s.optionCall onoff off a) :
    ∃ i, s.Holds i p.1 ∧ (a.setsOption = some i ∨ a.destroys = some i) := by
  cases a with
  | setOption i option r =>
    obtain ⟨x, hi, h⟩ := Option.bind_eq_some_iff.mp h
    obtain ⟨hopen, hd, -⟩ := Impl.setOptionCall_fst h
    exact ⟨i, ⟨x, hi, hopen, hd.symm⟩, .inl rfl⟩
  | close i calls =>
    obtain ⟨x, hi, h⟩ := Option.bind_eq_some_iff.mp h
    cases (x.closeCall_false off).symm.trans h
  | destroy i calls =>
    obtain ⟨x, hi, h⟩ := Option.bind_eq_some_iff.mp h
    obtain ⟨-, hopen, -, rfl⟩ := Impl.closeCall_eq_some.mp h
    exact ⟨i, ⟨x, hi, hopen, rfl⟩, .inr rfl⟩
  | moveAssign i other calls =>
    obtain ⟨x, hi, h⟩ := Option.bind_eq_some_iff.mp h
    obtain ⟨-, hopen, -, rfl⟩ := Impl.closeCall_eq_some.mp h
    exact ⟨i, ⟨x, hi, hopen, rfl⟩, .inr rfl⟩
  | _ => cases h

/-- The options of another implementation stay as they are. -/
theorem optionsAfter_of_holds (hs : (machine reactor).Reachable s) (hd : s.Holds i d)
    (hset : a.setsOption ≠ some i) (hdestroy : a.destroys ≠ some i) :
    OptionService.optionsAfter options (s.optionCall onoff off a) d = options d := by
  apply OptionService.optionsAfter_of_ne
  rintro p hp rfl
  obtain ⟨j, hj, htarget⟩ := optionCall_holds hp
  obtain rfl := owners_exclusive hs i j p.1 (owners_eq_some.mpr hd) (owners_eq_some.mpr hj)
  rcases htarget with h | h
  · exact hset h
  · exact hdestroy h

/-- An operation that leaves the descriptors alone. -/
theorem Calls.tracks {f : Impl δ → Result δ} {x : Impl δ} (h : Calls a i f)
    (hi : s.impl i = some x) (hx : x.Tracks options) :
    (f x).impl.Tracks (OptionService.optionsAfter options (s.optionCall onoff off a)) := by
  have hkeeps {state : UInt8} (hstate : KeepsOptions x.state state) :
      ({ x with state := state } : Impl δ).Tracks options := fun hopen => (hx hopen).keeps hstate
  have hof (result : Result δ) (hresult : x.Keeps result)
      (hstate : KeepsOptions x.state result.impl.state) : result.impl.Tracks options := by
    intro hopen
    rw [hresult.socket_eq]
    refine (hx ?_).keeps hstate
    rw [Impl.IsOpen, ← hresult.socket_eq]
    exact hopen
  cases h with
  | cancel =>
    rw [x.cancel_impl]
    exact hx
  | startOp i type noop r =>
    exact hof _ (x.startOp_keeps type noop r) (x.startOp_keepsOptions type noop r)
  | startAcceptOp i peerIsOpen r =>
    exact hof _ (x.startAcceptOp_keeps peerIsOpen r) (x.startAcceptOp_keepsOptions peerIsOpen r)
  | startConnectOp i r connect =>
    exact hof _ (x.startConnectOp_keeps r connect) (x.startConnectOp_keepsOptions r connect)
  | setNonBlocking i mode r => exact hkeeps (setUserNonBlocking_keepsOptions 0 x.socket _ mode r)
  | setNativeNonBlocking i mode r =>
    exact hkeeps (setInternalNonBlocking_keepsOptions 0 x.socket _ mode r)
  | setOption i option r =>
    have hcall : s.optionCall onoff off (.setOption i option r) =
        x.setOptionCall option onoff r := by
      show (s.impl i).bind _ = _
      rw [hi, Option.bind_some]
    rw [hcall]
    exact Impl.setOption_tracks hx option onoff r

theorem new_tracked_state (protocol : SocketType) :
    (DescriptorOptions.new new).Tracked protocol.state := by
  cases protocol <;> exact DescriptorOptions.new_tracked new (by decide) (by decide)

theorem new_tracked_dup (protocol : SocketType) :
    (DescriptorOptions.new new).Tracked (protocol.state ||| possibleDup) :=
  (new_tracked_state protocol).keeps (keepsOptions_or _ (by decide) (by decide))

/-- A new socket has the options of its new descriptor. -/
theorem tracks_of_obtained {x : Impl δ} (hsocket : x.socket = d)
    (h : (DescriptorOptions.new new).Tracked x.state) :
    x.Tracks (Function.update options d (.new new)) := by
  intro _
  rw [hsocket, Function.update_self]
  exact h

theorem openSocket_tracks {x : Impl δ} {r : ℤ} (h : x.Tracks options) (hr : r < 0 ∨ r < 2 ^ 31)
    (protocol : SocketType) :
    (x.openSocket protocol r).impl.Tracks ((x.openSocket protocol r).events.foldl
      (fun options e => e.options new options) options) := by
  by_cases hnot : x.IsOpen ∨ r < 0
  · obtain ⟨hsocket, -, hevents⟩ := Impl.openSocket_of_not hnot protocol
    have hstate := openSocket_state_of_not hnot protocol
    rw [hevents, List.foldl_nil]
    intro hopen
    rw [Impl.IsOpen, hsocket] at hopen
    rw [hsocket, hstate]
    exact h hopen
  · obtain ⟨hx, hneg⟩ := not_or.mp hnot
    rw [Impl.openSocket_of_nonneg hx (not_lt.mp hneg) (hr.resolve_left hneg)]
    exact tracks_of_obtained rfl (new_tracked_state protocol)

/-- An assigned socket, whose caller hands its descriptor over. -/
theorem assign_tracks {x : Impl δ} (h : x.Tracks options) (protocol : SocketType) (d : ℤ) :
    (x.assign protocol d).impl.Tracks
      ((if x.IsOpen ∨ d = invalidSocket then (x.assign protocol d).events
        else .obtained d :: (x.assign protocol d).events).foldl
          (fun options e => e.options new options) options) := by
  by_cases hx : x.IsOpen
  · rw [if_pos (.inl hx), Impl.assign_of_isOpen hx]
    exact h
  · rw [Impl.assign_of_not_isOpen hx]
    by_cases hd : d = invalidSocket
    · intro hopen
      exact absurd hd hopen
    · rw [if_neg (not_or.mpr ⟨hx, hd⟩)]
      exact tracks_of_obtained rfl (new_tracked_dup protocol)

theorem accept_tracks {x y : Impl δ} {rounds : List (ℤ × ℤ)} {result : Result δ}
    (hy : y.Tracks options) (hr : ∀ q ∈ rounds, q.1 < 0 ∨ q.1 < 2 ^ 31)
    (h : x.accept y rounds = some result) :
    result.impl.Tracks (result.events.foldl (fun options e => e.options new options) options) := by
  rcases Impl.accept_cases hr h with ⟨himpl, hevents⟩ | ⟨-, -, _, _, _, _, -, -, -, rfl⟩
  · rw [himpl, hevents]
    exact hy
  · exact tracks_of_obtained rfl (new_tracked_dup x.protocol)

theorem tracks_of_not_isOpen {x : Impl δ} (h : ¬ x.IsOpen) : x.Tracks options :=
  fun hopen => absurd hopen h

/-- **The bits track the options in every operation.** -/
theorem Performs.tracked (hp : s.Performs reactor a t evs) (hs : (machine reactor).Reachable s)
    (h : s.Tracking options) :
    t.Tracking (evs.foldl (fun options e => e.options new options)
      (OptionService.optionsAfter options (s.optionCall onoff off a))) := by
  have hn := numbered_of_reachable hs
  have hothers {j : ℕ} {d : ℤ} (hd : s.Holds j d) (hset : a.setsOption ≠ some j)
      (hdestroy : a.destroys ≠ some j) :
      evs.foldl (fun options e => e.options new options)
        (OptionService.optionsAfter options (s.optionCall onoff off a)) d = options d :=
    ((hp.steps hn).options_of_holds hd).trans (optionsAfter_of_holds hs hd hset hdestroy)
  cases hp with
  | construct => exact forall_create h (tracks_of_not_isOpen (not_not.mpr rfl))
  | @openSocket i protocol r x hlkl hi =>
    apply h.set
    · intro y hy
      obtain rfl := Option.some.inj hy
      exact openSocket_tracks (h i x hi) ((hlkl.free hn).imp_right And.left) protocol
    · intro j d _ hd
      exact hothers hd nofun nofun
  | @assign i protocol d x hd hi =>
    apply h.set
    · intro y hy
      obtain rfl := Option.some.inj hy
      exact assign_tracks (h i x hi) protocol d
    · intro j e _ he
      exact hothers he nofun nofun
  | @accept i peer rounds x y result hlkl hi hpeer hresult =>
    apply h.set
    · intro z hz
      obtain rfl := Option.some.inj hz
      exact accept_tracks (h peer y hpeer) (fun q hq => (hlkl q hq).imp_right And.left) hresult
    · intro j d _ hd
      exact hothers hd nofun nofun
  | @close i calls x hi =>
    apply h.set
    · intro y hy
      obtain rfl := Option.some.inj hy
      exact tracks_of_not_isOpen (not_not.mpr rfl)
    · intro j d _ hd
      exact hothers hd nofun nofun
  | @moveConstruct other y hother =>
    have hsource : (s.set other (some (Impl.moveConstruct reactor
        (Impl.uninitialized reactor) y).2)).Tracking options := by
      apply h.set
      · intro z hz
        obtain rfl := Option.some.inj hz
        exact tracks_of_not_isOpen (not_not.mpr rfl)
      · exact fun _ _ _ _ => rfl
    exact forall_create hsource (h other y hother)
  | @moveAssignSelf i calls x hi =>
    apply h.set
    · intro y hy
      obtain rfl := Option.some.inj hy
      exact tracks_of_not_isOpen (not_not.mpr rfl)
    · intro j d hj hd
      exact hothers hd nofun fun hji => hj (Option.some.inj hji).symm
  | @moveAssign i other calls x y hne hi hother =>
    set options' := (x.destroy calls).2.foldl (fun options e => e.options new options)
      (OptionService.optionsAfter options (s.optionCall onoff off (.moveAssign i other calls)))
    -- the descriptor that is moved is not the one that is closed
    have hy : y.Tracks options' := by
      intro hopen
      rw [hothers ⟨y, hother, hopen, rfl⟩ nofun fun hio => hne (Option.some.inj hio)]
      exact h other y hother hopen
    have hmoved : (s.set i (some (x.moveAssign reactor y calls).1)).Tracking options' := by
      apply h.set
      · intro z hz
        obtain rfl := Option.some.inj hz
        exact hy
      · intro j d hj hd
        exact hothers hd nofun fun hji => hj (Option.some.inj hji).symm
    apply hmoved.set
    · intro z hz
      obtain rfl := Option.some.inj hz
      exact tracks_of_not_isOpen (not_not.mpr rfl)
    · exact fun _ _ _ _ => rfl
  | @destroy i calls x hi =>
    refine h.set nofun fun j d hj hd => ?_
    exact hothers hd nofun fun hji => hj (Option.some.inj hji).symm
  | @call a i f x ha hi =>
    have hquiet (e : ℤ) : .obtained e ∉ (f x).events := fun he => (ha.keeps x).quiet _ he
    apply h.set
    · intro y hy hopen
      obtain rfl := Option.some.inj hy
      rw [options_of_notMem (hquiet _)]
      exact ha.tracks hi (h i x hi) hopen
    · intro j d hj hd
      refine hothers hd (fun hset => ?_) (fun hdestroy => ?_)
      · cases ha <;> cases hset
        exact hj rfl
      · cases ha <;> cases hdestroy

theorem closed_of_closes {x : Impl δ} (h : Closes x.descriptor evs)
    (hd : d ∈ evs.filterMap ServiceEvent.closed) : x.IsOpen ∧ x.socket = d := by
  apply Impl.descriptor_eq_some.mp
  generalize x.descriptor = o at h
  cases h with
  | nothing => cases hd
  | once d' r =>
    obtain rfl : d = d' := by simpa [ServiceEvent.closed] using hd
    rfl
  | again d' r h =>
    obtain rfl : d = d' := by simpa [ServiceEvent.closed] using hd
    rfl

/-- A step that closes a descriptor in LKL is a close by the user of the socket, or by its
destructor. -/
theorem Performs.closed (hp : s.Performs reactor a t evs) (hn : s.Numbered)
    (hd : d ∈ evs.filterMap ServiceEvent.closed) :
    ∃ i x, s.impl i = some x ∧ x.IsOpen ∧ x.socket = d ∧
      (a.destroys = some i ∨ ∃ calls, a = .close i calls) := by
  cases hp with
  | construct => cases hd
  | @openSocket i protocol r x hlkl hi =>
    by_cases hnot : x.IsOpen ∨ r < 0
    · obtain ⟨-, -, hevents⟩ := Impl.openSocket_of_not hnot protocol
      rw [hevents] at hd
      cases hd
    · obtain ⟨hx, hneg⟩ := not_or.mp hnot
      have hr := (hlkl.free hn).resolve_left hneg
      rw [Impl.openSocket_of_nonneg hx (not_lt.mp hneg) hr.1] at hd
      cases hd
  | @assign i protocol d' x hd' hi =>
    rw [x.assign_events protocol d'] at hd
    split at hd
    · cases hd
    · cases hd
  | accept hr hi hpeer h =>
    rcases Impl.accept_cases (fun q hq => (hr q hq).imp_right And.left) h with
      ⟨-, hevents⟩ | ⟨-, -, _, _, _, _, -, -, -, rfl⟩
    · rw [hevents] at hd
      cases hd
    · cases hd
  | @close i calls x hi =>
    obtain ⟨hopen, hsocket⟩ := closed_of_closes (x.closes_close x.state false calls) hd
    exact ⟨i, x, hi, hopen, hsocket, .inr ⟨calls, rfl⟩⟩
  | moveConstruct hother => cases hd
  | @moveAssignSelf i calls x hi =>
    obtain ⟨hopen, hsocket⟩ := closed_of_closes (x.destroy_closes calls) hd
    exact ⟨i, x, hi, hopen, hsocket, .inl rfl⟩
  | @moveAssign i other calls x y hne hi hother =>
    obtain ⟨hopen, hsocket⟩ := closed_of_closes (x.destroy_closes calls) hd
    exact ⟨i, x, hi, hopen, hsocket, .inl rfl⟩
  | @destroy i calls x hi =>
    obtain ⟨hopen, hsocket⟩ := closed_of_closes (x.destroy_closes calls) hd
    exact ⟨i, x, hi, hopen, hsocket, .inl rfl⟩
  | @call a i f x ha hi =>
    obtain ⟨e, he, hd⟩ := List.mem_filterMap.mp hd
    have hquiet := (ha.keeps x).quiet e he
    cases e with
    | close d' r => exact hquiet.elim
    | closeAgain d' r => exact hquiet.elim
    | _ => cases hd

/-- The linger option is on at the close by a destructor if it was on before, and the user has not
set it or the call that turns it off fails. -/
theorem linger_of_destroys {x : Impl δ} (ha : a.destroys = some i) (hi : s.impl i = some x)
    (hopen : x.IsOpen) (h : x.Tracks options) :
    (OptionService.optionsAfter options (s.optionCall onoff off a) x.socket).linger = true ↔
      (options x.socket).linger = true ∧ ((options x.socket).lingerSet = true → off < 0) := by
  have hcall : s.optionCall onoff off a = x.closeCall true off := by
    cases a with
    | destroy j calls =>
      obtain rfl := Option.some.inj ha
      show (s.impl j).bind _ = _
      rw [hi, Option.bind_some]
    | moveAssign j other calls =>
      obtain rfl := Option.some.inj ha
      show (s.impl j).bind _ = _
      rw [hi, Option.bind_some]
    | _ => cases ha
  rw [hcall, ← (h hopen).lingerSet]
  by_cases hbit : HasBits x.state userSetLinger
  · rw [Impl.closeCall_eq_some.mpr ⟨rfl, hopen, hbit, rfl⟩, OptionService.optionsAfter_self]
    by_cases hoff : 0 ≤ off
    · simp [OptionCall.apply, hoff, hbit]
    · simp [OptionCall.apply, hoff, hbit, not_le.mp hoff]
  · have hnone : x.closeCall true off = none := by
      rw [Option.eq_none_iff_forall_ne_some]
      exact fun p hp => hbit (Impl.closeCall_eq_some.mp hp).2.2.1
    rw [hnone]
    exact ⟨fun hlinger => ⟨hlinger, fun h => absurd h hbit⟩, And.left⟩

/-- The options of a descriptor in use are what `set_option` of its own socket makes of them. -/
theorem Performs.options_eq (hp : s.Performs reactor a t evs) (hs : (machine reactor).Reachable s)
    (hd : s.Holds i d) (hdestroy : a.destroys ≠ some i) :
    evs.foldl (fun options e => e.options new options)
        (OptionService.optionsAfter options (s.optionCall onoff off a)) d =
      (a.callOn onoff i).elim (options d) fun c => c.apply (options d) := by
  rw [(hp.steps (numbered_of_reachable hs)).options_of_holds hd]
  by_cases hset : a.setsOption = some i
  · cases a with
    | setOption j option r =>
      obtain rfl := Option.some.inj hset
      obtain ⟨x, hi, hopen, rfl⟩ := hd
      have hcall : s.optionCall onoff off (.setOption j option r) =
          (option.optionCall onoff r).map fun c => (x.socket, c) := by
        show (s.impl j).bind _ = _
        rw [hi, Option.bind_some]
        exact if_neg hopen
      have hon : (ServiceAction.setOption j option r).callOn onoff j = option.optionCall onoff r :=
        if_pos rfl
      rw [hcall, hon]
      cases option.optionCall onoff r with
      | none => rfl
      | some c => exact OptionService.optionsAfter_self ..
    | _ => cases hset
  · rw [optionsAfter_of_holds hs hd hset hdestroy]
    have hon : a.callOn onoff i = none := by
      cases a with
      | setOption j option r => exact if_neg fun hj => hset (congrArg some hj)
      | _ => rfl
    rw [hon]
    rfl

end SocketService

/-! ## The runs -/

namespace OptionService

variable {s t : OptionService δ} {a : OptionAction} {evs : List (ServiceEvent δ)}

theorem optionCall_operation (s : OptionService δ) (a : OptionAction) :
    s.optionCall a = s.moded.service.optionCall a.onoff a.off a.action.operation := by
  obtain ⟨action, onoff, off⟩ := a
  cases action with
  | operate b inherited => rfl
  | ioControl i command r =>
    cases command with
    | fionbio arg => rfl
    | other =>
      show none = (s.moded.service.impl i).bind _
      refine (Option.bind_eq_none_iff.mpr fun x _ => ?_).symm
      unfold Impl.setOptionCall
      split <;> rfl

/-- **Inversion** of a step. -/
theorem perform_cases (h : s.perform reactor a = some (t, evs)) :
    s.moded.perform reactor a.action = some (t.moded, evs) ∧
      t.options = evs.foldl (fun options e => e.options (newLinger a) options)
        (optionsAfter s.options
          (s.moded.service.optionCall a.onoff a.off a.action.operation)) := by
  obtain ⟨⟨u, evs'⟩, hp, he⟩ := Option.map_eq_some_iff.mp h
  obtain ⟨rfl, rfl⟩ := Prod.mk.inj he
  rw [← optionCall_operation]
  exact ⟨hp, rfl⟩

theorem perform_of_step (h : (machine reactor).step s a = some t) :
    s.perform reactor a = some (t, s.moded.events reactor a.action) := by
  obtain ⟨⟨u, evs⟩, hp, rfl⟩ := Option.map_eq_some_iff.mp h
  obtain ⟨hmoded, -⟩ := perform_cases hp
  rw [ModedService.events, hmoded]
  exact hp

/-- **The options do not change what the service does.** -/
theorem implements_moded (reactor : Reactor δ) :
    Machine.Implements (machine reactor) (ModedService.machine reactor) moded
      (fun s a => s.moded.events reactor a.action) (ModedService.events reactor) := by
  apply Machine.Implements.of_step (g := OptionAction.action)
  · rintro _ ⟨mode, options, rfl⟩
    exact ⟨mode, rfl⟩
  · intro s a t h
    obtain ⟨hp, -⟩ := perform_cases (perform_of_step h)
    exact ⟨congrArg (Option.map Prod.fst) hp, rfl⟩

theorem service_reachable (h : (machine reactor).Reachable s) :
    (SocketService.machine reactor).Reachable s.moded.service :=
  ModedService.service_reachable ((implements_moded reactor).reachable h)

theorem performs_of_step (h : (machine reactor).step s a = some t) :
    s.moded.service.Performs reactor a.action.operation t.moded.service
      (s.moded.events reactor a.action) := by
  obtain ⟨hp, -⟩ := perform_cases (perform_of_step h)
  obtain ⟨-, hp, -⟩ := ModedService.perform_cases hp
  exact SocketService.perform_cases hp

/-- **The bits track the options in every reachable state.** -/
theorem tracking_of_reachable (h : (machine reactor).Reachable s) :
    s.moded.service.Tracking s.options := by
  refine h.invariant (P := fun s => s.moded.service.Tracking s.options) ?_ ?_
  · rintro _ ⟨mode, options, rfl⟩
    nofun
  · intro s a t hs hm h
    obtain ⟨-, hoptions⟩ := perform_cases (perform_of_step h)
    rw [hoptions]
    exact (performs_of_step h).tracked (service_reachable hs) hm

/-- **The options of the sockets in every run.** The option of Boost.Asio is read back as it was set
for the descriptor; with it `sync_accept` reports the first aborted connection, and without it comes
to what it comes to without the aborted connections before. `close` turns the linger option off for
the destructor if the user has set it, and in no other case. So this option is on at the `lkl_close`
by a destructor exactly if it was on before and either its user has never set it or the call that
turns it off fails; at the close by the user it is as it was. And the options of a descriptor in use
are what `set_option` of its own socket makes of them, whatever happens to the other sockets and
however often the socket is moved. -/
theorem options_of_sockets {mode : ℤ → Bool} {options : ℤ → DescriptorOptions}
    {as : List OptionAction}
    (h : (machine reactor).exec (initial mode options) as = some s) :
    (∀ i x, s.moded.service.impl i = some x → x.IsOpen →
      (∀ answer, x.getOption (.enableConnectionAborted sizeofInt) answer =
        (.code success, some (if (s.options x.socket).connectionAborted = true then 1 else 0))) ∧
      ((s.options x.socket).connectionAborted = true → ∀ r p rounds, AbortsConnection r →
        syncAccept 0 x.socket x.state ((r, p) :: rounds) =
          some (invalidSocket, .system (-r))) ∧
      ((s.options x.socket).connectionAborted = false → ∀ aborted rounds,
        (∀ q ∈ aborted, AbortsConnection q.1 ∧ 0 ≤ (pollRead 0 x.socket false q.2).1) →
        syncAccept 0 x.socket x.state (aborted ++ rounds) =
          syncAccept 0 x.socket x.state rounds) ∧
      ∀ destruction option, closeOption x.state destruction = some option ↔
        (destruction = true ∧ (s.options x.socket).lingerSet = true) ∧ option = .linger) ∧
    (∀ t a u, (machine reactor).Takes (initial mode options) as t a u →
      ∀ d linger, (d, linger) ∈ t.closes reactor a →
        ∃ i, t.moded.service.Holds i d ∧
          (a.action.operation.destroys = some i ∧
            (linger = true ↔ (t.options d).linger = true ∧
              ((t.options d).lingerSet = true → a.off < 0)) ∨
          (∃ calls, a.action.operation = .close i calls) ∧ linger = (t.options d).linger)) ∧
    ∀ t a u, (machine reactor).Takes (initial mode options) as t a u →
      ∀ i d, t.moded.service.Holds i d → a.action.operation.destroys ≠ some i →
        u.options d = (a.action.operation.callOn a.onoff i).elim (t.options d)
          fun c => c.apply (t.options d) := by
  have hinit : (machine reactor).init (initial mode options) := ⟨mode, options, rfl⟩
  refine ⟨?_, ?_, ?_⟩
  · intro i x hi hopen
    obtain ⟨hlinger, haborted⟩ := tracking_of_reachable ⟨_, as, hinit, h⟩ i x hi hopen
    refine ⟨fun answer => ?_, fun hset r p rounds hr => ?_, fun hset aborted rounds hq => ?_,
      fun destruction option => ?_⟩
    · exact x.getOption_connectionAborted hopen haborted answer
    · exact syncAccept_reports 0 hopen (haborted.mpr hset) hr p rounds
    · refine syncAccept_passes 0 hopen (fun hbit => ?_) hq rounds
      exact Bool.false_ne_true (hset.symm.trans (haborted.mp hbit))
    · rw [← hlinger]
      exact closeOption_eq_some
  · intro t a u hT d linger hd
    have ht := hT.visits_left.reachable hinit
    obtain ⟨d', hd', he⟩ := List.mem_map.mp hd
    obtain ⟨rfl, rfl⟩ := Prod.mk.inj he
    have hn := SocketService.numbered_of_reachable (service_reachable ht)
    obtain ⟨i, x, hi, hopen, rfl, ha⟩ := (performs_of_step hT.step_eq).closed hn hd'
    refine ⟨i, ⟨x, hi, hopen, rfl⟩, ?_⟩
    rw [optionCall_operation]
    rcases ha with ha | ⟨calls, ha⟩
    · have hx := tracking_of_reachable ht i x hi
      exact .inl ⟨ha, SocketService.linger_of_destroys ha hi hopen hx⟩
    · refine .inr ⟨⟨calls, ha⟩, ?_⟩
      have hnone : t.moded.service.optionCall a.onoff a.off (.close i calls) = none := by
        simp [SocketService.optionCall, Impl.closeCall_false]
      rw [ha, hnone]
      rfl
  · intro t a u hT i d hd hdestroy
    have ht := service_reachable (hT.visits_left.reachable hinit)
    obtain ⟨-, hoptions⟩ := perform_cases (perform_of_step hT.step_eq)
    rw [hoptions]
    exact (performs_of_step hT.step_eq).options_eq ht hd hdestroy

/-- The user sets both options of a socket, which is then moved to another object. -/
def lingeringRun : List OptionAction :=
  [⟨.operate .construct false, false, 0⟩, ⟨.operate (.openSocket 0 .stream 3) false, false, 0⟩,
    ⟨.operate (.setOption 0 .linger 0) false, true, 0⟩,
    ⟨.operate (.setOption 0 (.enableConnectionAborted (some 1)) 0) false, false, 0⟩,
    ⟨.operate (.moveConstruct 0) false, false, 0⟩]

theorem options_of_sockets_lingeringRun :
    (∃ s x, (machine Reactor.epoll).exec (initial (fun _ => false) fun _ => .new false)
        lingeringRun = some s ∧ s.moded.service.impl 1 = some x ∧
      x.getOption (.enableConnectionAborted sizeofInt) ⟨0, 0, 0⟩ = (.code success, some 1) ∧
      syncAccept 0 x.socket x.state [(-103, 1), (4, 0)] =
        some (invalidSocket, connectionAborted)) ∧
    ∃ s x, (machine Reactor.epoll).exec (initial (fun _ => false) fun _ => .new false)
        (lingeringRun.take 3) = some s ∧ s.moded.service.impl 0 = some x ∧
      syncAccept 0 x.socket x.state [(-103, 1), (4, 0)] = some (4, success) := by
  constructor
  · have hrun : ((machine Reactor.epoll).exec (initial (fun _ => false) fun _ => .new false)
        lingeringRun).map (fun s => (s.options 3, s.moded.service.impl 1)) =
          some (⟨true, true, true⟩, some ⟨3, 28, none, .stream⟩) := by decide
    obtain ⟨s, hs, he⟩ := Option.map_eq_some_iff.mp hrun
    obtain ⟨hoptions, hx⟩ := Prod.mk.inj he
    obtain ⟨hvalue, hreports, -⟩ := (options_of_sockets hs).1 1 _ hx (by decide)
    refine ⟨s, _, hs, hx, ?_, hreports ?_ (-103) 1 [(4, 0)] (.inl rfl)⟩
    · rw [hvalue, hoptions]
      rfl
    · rw [hoptions]
  · have hrun : ((machine Reactor.epoll).exec (initial (fun _ => false) fun _ => .new false)
        (lingeringRun.take 3)).map (fun s => (s.options 3, s.moded.service.impl 0)) =
          some (⟨true, true, false⟩, some ⟨3, 24, none, .stream⟩) := by decide
    obtain ⟨s, hs, he⟩ := Option.map_eq_some_iff.mp hrun
    obtain ⟨hoptions, hx⟩ := Prod.mk.inj he
    obtain ⟨-, -, hpasses, -⟩ := (options_of_sockets hs).1 0 _ hx (by decide)
    refine ⟨s, _, hs, hx, (hpasses ?_ [(-103, 1)] [(4, 0)] ?_).trans (by decide)⟩
    · rw [hoptions]
    · simp only [List.mem_singleton, forall_eq]
      exact ⟨.inl rfl, by decide⟩

end OptionService

end Lkl

end LklSocks
