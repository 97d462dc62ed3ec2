import LklSocks.Lkl.Reactor

/-!
# The blocking mode of the descriptors

LKL has a mode for each descriptor, which `lkl_ioctl` with `FIONBIO` sets. The service keeps two
bits for it: one that its user sets, and one that it sets itself before it starts an asynchronous
operation. The service asks LKL only when its bits do not say that the descriptor is in
non-blocking mode, so it relies on the bits in every run: through opening and closing, through the
moves, and when the user sets a mode between two operations.

## Main definitions

* `Lkl.ioctl`, `Lkl.Impl.ioControl`: the commands of the user
* `Lkl.FionbioCall`: a call of `lkl_ioctl` that sets the mode
* `Lkl.ModedService`, `Lkl.ModedService.machine`: the service with the modes of LKL

## Main results

* `Lkl.ModedService.implements_service`: the modes do not change what the service does
* `Lkl.ModedService.Matches.step`: the bits and the modes match after every step
* `Lkl.ModedService.blocking_mode`: the modes in every run
-/

namespace LklSocks

namespace Lkl

open ErrorCode

variable {δ : Type} {reactor : Reactor δ}

/-! ## The state bits -/

theorem hasBits_or {state bits mask : UInt8} :
    HasBits (state ||| bits) mask ↔ HasBits state mask ∨ HasBits bits mask := by
  have h : (state ||| bits) &&& mask = (state &&& mask) ||| (bits &&& mask) := by
    apply UInt8.toBitVec_inj.1
    rw [UInt8.toBitVec_and, UInt8.toBitVec_or]
    exact BitVec.and_or_distrib_right
  unfold HasBits
  rw [h, ne_eq, UInt8.or_eq_zero_iff, not_and_or]

theorem hasBits_andNot {state bits mask : UInt8} :
    HasBits (state &&& ~~~bits) mask ↔ HasBits state (mask &&& ~~~bits) := by
  unfold HasBits
  rw [UInt8.and_assoc, UInt8.and_comm mask]

theorem not_hasBits_zero (state : UInt8) : ¬ HasBits state 0 := by
  intro h
  exact h UInt8.and_zero

/-- A bit outside of `mask` does not matter. -/
theorem hasBits_or_of_not {state bits mask : UInt8} (h : ¬ HasBits bits mask) :
    HasBits (state ||| bits) mask ↔ HasBits state mask :=
  hasBits_or.trans (or_iff_left h)

/-- Clearing the bits outside of `mask` does not matter. -/
theorem hasBits_andNot_of_eq {state bits mask : UInt8} (h : mask &&& ~~~bits = mask) :
    HasBits (state &&& ~~~bits) mask ↔ HasBits state mask := by
  rw [hasBits_andNot, h]

/-! ## The commands of the user -/

/-- The commands that `ioctl` tells apart: `FIONBIO`, with its argument, and the others. -/
inductive IoctlCommand
  | fionbio (arg : Bool)
  | other
  deriving DecidableEq, Repr

/-- `ioctl`: the result, the error code and the state after it. -/
def ioctl (errno s : ℤ) (state : UInt8) (cmd : IoctlCommand) (r : ℤ) : ℤ × ErrorCode × UInt8 :=
  if s = invalidSocket then (socketErrorRetval, badDescriptor, state)
  else
    let (result, ec) := call errno r
    let result := toInt result
    if 0 ≤ result then
      (result, success,
        match cmd with
        | .fionbio true => state ||| userSetNonBlocking
        | .fionbio false => state &&& ~~~(userSetNonBlocking ||| internalNonBlocking)
        | .other => state)
    else (result, ec, state)

/-- `io_control`. -/
def Impl.ioControl (impl : Impl δ) (command : IoctlCommand) (r : ℤ) : Result δ :=
  let (_, ec, state) := ioctl 0 impl.socket impl.state command r
  ⟨{ impl with state := state }, .code ec, []⟩

/-! ## The calls that set the mode -/

/-- A call of `lkl_ioctl` with `FIONBIO`. -/
structure FionbioCall where
  descriptor : ℤ
  value : Bool
  result : ℤ
  deriving DecidableEq, Repr

/-- The modes after a call, which are `true` for the descriptors that do not block. A call that
fails changes nothing. -/
def FionbioCall.modes (c : FionbioCall) (mode : ℤ → Bool) : ℤ → Bool :=
  if 0 ≤ c.result then Function.update mode c.descriptor c.value else mode

/-- The call of `set_user_non_blocking`. -/
def setUserNonBlockingCall (s : ℤ) (value : Bool) (r : ℤ) : Option FionbioCall :=
  if s = invalidSocket then none else some ⟨s, value, r⟩

/-- The call of `set_internal_non_blocking`. -/
def setInternalNonBlockingCall (s : ℤ) (state : UInt8) (value : Bool) (r : ℤ) :
    Option FionbioCall :=
  if s = invalidSocket then none
  else if value = false ∧ HasBits state userSetNonBlocking then none
  else some ⟨s, value, r⟩

namespace Impl

/-- The call of `start_op`. -/
def startOpCall (impl : Impl δ) (noop : Bool) (r : ℤ) : Option FionbioCall :=
  if noop = false then
    if HasBits impl.state nonBlocking then none
    else setInternalNonBlockingCall impl.socket impl.state true r
  else none

def startAcceptOpCall (impl : Impl δ) (peerIsOpen : Bool) (r : ℤ) : Option FionbioCall :=
  if peerIsOpen = false then impl.startOpCall false r else none

def startConnectOpCall (impl : Impl δ) (r : ℤ) : Option FionbioCall :=
  if HasBits impl.state nonBlocking then none
  else setInternalNonBlockingCall impl.socket impl.state true r

/-- The call of `io_control`, if the command is `FIONBIO`. -/
def ioControlCall (impl : Impl δ) (command : IoctlCommand) (r : ℤ) : Option FionbioCall :=
  if impl.socket = invalidSocket then none
  else
    match command with
    | .fionbio arg => some ⟨impl.socket, arg, r⟩
    | .other => none

end Impl

/-- The call of an operation. The second `lkl_close` is preceded by one too, but there the
descriptor is given up. -/
def SocketService.fionbioCall (s : SocketService δ) : ServiceAction → Option FionbioCall
  | .startOp i _ noop r => (s.impl i).bind fun x => x.startOpCall noop r
  | .startAcceptOp i peerIsOpen r => (s.impl i).bind fun x => x.startAcceptOpCall peerIsOpen r
  | .startConnectOp i r _ => (s.impl i).bind fun x => x.startConnectOpCall r
  | .setNonBlocking i mode r => (s.impl i).bind fun x => setUserNonBlockingCall x.socket mode r
  | .setNativeNonBlocking i mode r =>
    (s.impl i).bind fun x => setInternalNonBlockingCall x.socket x.state mode r
  | _ => none

/-! ## The service with the modes -/

/-- The service, and the modes of the descriptors in LKL. -/
structure ModedService (δ : Type) where
  service : SocketService δ
  mode : ℤ → Bool

/-- An operation of the service, or a command of the user. The descriptor of an `assign` comes with
the mode that its caller has set. -/
inductive ModeAction
  | operate (a : ServiceAction) (inherited : Bool)
  | ioControl (i : ℕ) (command : IoctlCommand) (r : ℤ)
  deriving DecidableEq, Repr

/-- The mode of a descriptor that an operation obtains. LKL opens and accepts sockets in blocking
mode. -/
def ServiceAction.newMode (inherited : Bool) : ServiceAction → Bool
  | .assign _ _ _ => inherited
  | _ => false

def ServiceEvent.modes (new : Bool) (mode : ℤ → Bool) : ServiceEvent δ → ℤ → Bool
  | .obtained d => Function.update mode d new
  | _ => mode

namespace ModedService

/-- Before the first operation, when LKL may have other descriptors. -/
def initial (mode : ℤ → Bool) : ModedService δ := ⟨.empty, mode⟩

/-- The call that sets a mode in a step. -/
def fionbioCall (s : ModedService δ) : ModeAction → Option FionbioCall
  | .operate a _ => s.service.fionbioCall a
  | .ioControl i command r => (s.service.impl i).bind fun x => x.ioControlCall command r

/-- The modes after the events and the call of a step. -/
def modesAfter (mode : ℤ → Bool) (new : Bool) (evs : List (ServiceEvent δ))
    (c : Option FionbioCall) : ℤ → Bool :=
  let mode := evs.foldl (fun mode e => e.modes new mode) mode
  c.elim mode fun c => c.modes mode

/-- One step. The results of `lkl_ioctl` fit into an `int`. -/
def perform (reactor : Reactor δ) (s : ModedService δ) (a : ModeAction) :
    Option (ModedService δ × List (ServiceEvent δ)) :=
  if ∀ c ∈ s.fionbioCall a, c.result < 2 ^ 31 then
    match a with
    | .operate b inherited =>
      (s.service.perform reactor b).map fun (t, evs) =>
        (⟨t, modesAfter s.mode (b.newMode inherited) evs (s.fionbioCall a)⟩, evs)
    | .ioControl i command r =>
      (s.service.impl i).map fun x =>
        (⟨s.service.set i (some (x.ioControl command r).impl),
          modesAfter (δ := δ) s.mode false [] (s.fionbioCall a)⟩, [])
  else none

def events (reactor : Reactor δ) (s : ModedService δ) (a : ModeAction) : List (ServiceEvent δ) :=
  (s.perform reactor a).elim [] Prod.snd

/-- The service under every sequence of operations and commands, and all results of LKL. -/
def machine (reactor : Reactor δ) : Machine (ModedService δ) ModeAction where
  init s := ∃ mode, s = initial mode
  step s a := (s.perform reactor a).map Prod.fst

end ModedService

/-! ## One implementation -/

namespace Impl

variable {x y : Impl δ} {mode mode' : ℤ → Bool} {r : ℤ}

/-- What an operation with this call does to the two bits: they stay as they are, unless the call
succeeds. -/
inductive Switches (x y : Impl δ) : Option FionbioCall → Prop
  | same (hbits : HasBits y.state nonBlocking ↔ HasBits x.state nonBlocking) : Switches x y none
  | failed {value : Bool} {r : ℤ} (hx : x.IsOpen) (hr : r < 0)
      (hbits : HasBits y.state nonBlocking ↔ HasBits x.state nonBlocking) :
      Switches x y (some ⟨x.socket, value, r⟩)
  | switched {value : Bool} {r : ℤ} (hx : x.IsOpen) (hr : 0 ≤ r)
      (hbits : HasBits y.state nonBlocking ↔ value = true) :
      Switches x y (some ⟨x.socket, value, r⟩)

/-- The operation keeps the socket, and where it came from. -/
structure Moded (x y : Impl δ) (c : Option FionbioCall) : Prop where
  socket_eq : y.socket = x.socket
  dup : HasBits y.state possibleDup ↔ HasBits x.state possibleDup
  switches : x.Switches y c

/-- The bits of an implementation match the modes of LKL: with one of them the socket is open in
non-blocking mode, and the service knows of this mode unless the descriptor was assigned. -/
structure Matches (x : Impl δ) (mode : ℤ → Bool) : Prop where
  set : HasBits x.state nonBlocking → x.IsOpen ∧ mode x.socket = true
  known : x.IsOpen → mode x.socket = true →
    HasBits x.state nonBlocking ∨ HasBits x.state possibleDup

theorem Matches.congr (h : x.Matches mode) (hmode : x.IsOpen → mode' x.socket = mode x.socket) :
    x.Matches mode' where
  set := by
    intro hbits
    obtain ⟨hopen, hset⟩ := h.set hbits
    exact ⟨hopen, (hmode hopen).trans hset⟩
  known := by
    intro hopen hset
    exact h.known hopen ((hmode hopen).symm.trans hset)

/-- A socket without one of the bits. -/
theorem Matches.of_blocking (hbits : ¬ HasBits x.state nonBlocking)
    (hmode : x.IsOpen → mode x.socket = true → HasBits x.state possibleDup) : x.Matches mode where
  set := fun h => absurd h hbits
  known := fun hopen h => .inr (hmode hopen h)

theorem Moded.matches {c : Option FionbioCall} (h : x.Moded y c) (hx : x.Matches mode) :
    y.Matches (c.elim mode fun c => c.modes mode) := by
  obtain ⟨hsocket, hdup, hswitch⟩ := h
  have hopen : y.IsOpen ↔ x.IsOpen := by
    unfold IsOpen
    rw [hsocket]
  have hsame (hbits : HasBits y.state nonBlocking ↔ HasBits x.state nonBlocking) :
      y.Matches mode := by
    constructor
    · intro hy
      rw [hopen, hsocket]
      exact hx.set (hbits.mp hy)
    · intro hy hset
      rw [hbits, hdup]
      exact hx.known (hopen.mp hy) (hsocket ▸ hset)
  cases hswitch with
  | same hbits => exact hsame hbits
  | @failed value r hx' hr hbits =>
    have hmodes : (FionbioCall.mk x.socket value r).modes mode = mode := if_neg (not_le.mpr hr)
    rw [Option.elim_some, hmodes]
    exact hsame hbits
  | @switched value r hx' hr hbits =>
    have hmodes : (FionbioCall.mk x.socket value r).modes mode =
        Function.update mode x.socket value := if_pos hr
    rw [Option.elim_some, hmodes]
    constructor
    · intro hy
      rw [hopen, hsocket, Function.update_self]
      exact ⟨hx', hbits.mp hy⟩
    · intro hy hset
      rw [hsocket, Function.update_self] at hset
      exact .inl (hbits.mpr hset)

/-- A call on the socket of `x` leaves the other modes alone. -/
theorem Moded.modes_of_ne {c : Option FionbioCall} {d : ℤ} (h : x.Moded y c)
    (hd : x.IsOpen → x.socket ≠ d) : c.elim mode (fun c => c.modes mode) d = mode d := by
  have hmodes {value : Bool} {r : ℤ} (hx : x.IsOpen) :
      (FionbioCall.mk x.socket value r).modes mode d = mode d := by
    unfold FionbioCall.modes
    split
    · exact Function.update_of_ne (hd hx).symm ..
    · rfl
  cases h.switches with
  | same hbits => rfl
  | failed hx hr hbits => exact hmodes hx
  | switched hx hr hbits => exact hmodes hx

theorem nonneg_toInt_call {errno : ℤ} (hr : r < 2 ^ 31) : 0 ≤ toInt (call errno r).1 ↔ 0 ≤ r := by
  by_cases hneg : r < 0
  · rw [toInt_call_of_neg hneg]
    exact iff_of_false (by decide) (not_le.mpr hneg)
  · rw [toInt_call_of_nonneg (not_lt.mp hneg) hr]

/-- A mode that the user sets overrides the mode of the service. -/
theorem hasBits_user (state : UInt8) (value : Bool) :
    (HasBits (if value = true then state ||| userSetNonBlocking
      else state &&& ~~~(userSetNonBlocking ||| internalNonBlocking)) nonBlocking ↔ value = true) ∧
    (HasBits (if value = true then state ||| userSetNonBlocking
      else state &&& ~~~(userSetNonBlocking ||| internalNonBlocking)) possibleDup ↔
        HasBits state possibleDup) := by
  cases value with
  | false =>
    rw [if_neg nofun]
    refine ⟨iff_of_false ?_ nofun, hasBits_andNot_of_eq (by decide)⟩
    intro h
    exact not_hasBits_zero state (hasBits_andNot.mp h)
  | true =>
    rw [if_pos rfl]
    refine ⟨iff_of_true ?_ rfl, hasBits_or_of_not (by decide)⟩
    exact hasBits_or.mpr (.inr (by decide))

/-- The service clears its bit only if the one of the user is not set. -/
theorem hasBits_internal (state : UInt8) {value : Bool}
    (h : ¬ (value = false ∧ HasBits state userSetNonBlocking)) :
    (HasBits (if value = true then state ||| internalNonBlocking
      else state &&& ~~~internalNonBlocking) nonBlocking ↔ value = true) ∧
    (HasBits (if value = true then state ||| internalNonBlocking
      else state &&& ~~~internalNonBlocking) possibleDup ↔ HasBits state possibleDup) := by
  cases value with
  | false =>
    rw [if_neg nofun]
    refine ⟨iff_of_false ?_ nofun, hasBits_andNot_of_eq (by decide)⟩
    intro hbits
    exact h ⟨rfl, hasBits_andNot.mp hbits⟩
  | true =>
    rw [if_pos rfl]
    refine ⟨iff_of_true ?_ rfl, hasBits_or_of_not (by decide)⟩
    exact hasBits_or.mpr (.inr (by decide))

/-- Nothing was called, and no bit changed. -/
theorem Moded.same (x : Impl δ) : x.Moded x none := ⟨rfl, Iff.rfl, .same Iff.rfl⟩

/-- The user sets the mode with `non_blocking`, or with `FIONBIO`. -/
theorem moded_user (hx : x.IsOpen) (value : Bool) (hr : r < 2 ^ 31) :
    x.Moded { x with
      state := if 0 ≤ toInt (call 0 r).1 then
        if value = true then x.state ||| userSetNonBlocking
        else x.state &&& ~~~(userSetNonBlocking ||| internalNonBlocking)
      else x.state } (some ⟨x.socket, value, r⟩) := by
  obtain ⟨hbits, hdup⟩ := hasBits_user x.state value
  by_cases hneg : r < 0
  · rw [if_neg (mt (nonneg_toInt_call hr).mp (not_le.mpr hneg))]
    exact ⟨rfl, Iff.rfl, .failed hx hneg Iff.rfl⟩
  · rw [if_pos ((nonneg_toInt_call hr).mpr (not_lt.mp hneg))]
    exact ⟨rfl, hdup, .switched hx (not_lt.mp hneg) hbits⟩

theorem setNonBlocking_moded (x : Impl δ) (value : Bool)
    (hr : ∀ c ∈ setUserNonBlockingCall x.socket value r, c.result < 2 ^ 31) :
    x.Moded (x.setNonBlocking value r).impl (setUserNonBlockingCall x.socket value r) := by
  unfold setUserNonBlockingCall at hr ⊢
  unfold setNonBlocking setUserNonBlocking
  by_cases hs : x.socket = invalidSocket
  · simp only [if_pos hs]
    exact .same x
  · simp only [if_neg hs] at hr ⊢
    convert x.moded_user hs value (hr _ rfl) using 3
    split <;> rfl

/-- `set_internal_non_blocking` on an implementation, whichever mode it sets. -/
theorem setInternal_moded (x : Impl δ) (value : Bool)
    (hr : ∀ c ∈ setInternalNonBlockingCall x.socket x.state value r, c.result < 2 ^ 31) :
    x.Moded { x with state := (setInternalNonBlocking 0 x.socket x.state value r).2.2 }
      (setInternalNonBlockingCall x.socket x.state value r) := by
  unfold setInternalNonBlockingCall at hr ⊢
  unfold setInternalNonBlocking
  by_cases hs : x.socket = invalidSocket
  · simp only [if_pos hs]
    exact .same x
  · simp only [if_neg hs] at hr ⊢
    by_cases huser : value = false ∧ HasBits x.state userSetNonBlocking
    · simp only [if_pos huser]
      exact .same x
    · simp only [if_neg huser] at hr ⊢
      have hlt : r < 2 ^ 31 := hr _ rfl
      obtain ⟨hbits, hdup⟩ := hasBits_internal x.state huser
      by_cases hneg : r < 0
      · simp only [if_neg (mt (nonneg_toInt_call hlt).mp (not_le.mpr hneg))]
        exact ⟨rfl, Iff.rfl, .failed hs hneg Iff.rfl⟩
      · simp only [if_pos ((nonneg_toInt_call hlt).mpr (not_lt.mp hneg))]
        exact ⟨rfl, hdup, .switched hs (not_lt.mp hneg) hbits⟩

theorem startOp_moded (x : Impl δ) (type : OpType) (noop : Bool)
    (hr : ∀ c ∈ x.startOpCall noop r, c.result < 2 ^ 31) :
    x.Moded (x.startOp type noop r).impl (x.startOpCall noop r) := by
  unfold startOpCall at hr ⊢
  unfold startOp
  by_cases hnoop : noop = false
  · simp only [if_pos hnoop] at hr ⊢
    by_cases hbits : HasBits x.state nonBlocking
    · rw [if_pos hbits, if_pos hbits]
      exact .same x
    · rw [if_neg hbits] at hr ⊢
      rw [if_neg hbits]
      have hstate := x.setInternal_moded true hr
      split
      · exact hstate
      · exact hstate
  · simp only [if_neg hnoop]
    exact .same x

theorem startAcceptOp_moded (x : Impl δ) (peerIsOpen : Bool)
    (hr : ∀ c ∈ x.startAcceptOpCall peerIsOpen r, c.result < 2 ^ 31) :
    x.Moded (x.startAcceptOp peerIsOpen r).impl (x.startAcceptOpCall peerIsOpen r) := by
  unfold startAcceptOpCall at hr ⊢
  unfold startAcceptOp
  by_cases hpeer : peerIsOpen = false
  · rw [if_pos hpeer] at hr ⊢
    rw [if_pos hpeer]
    exact x.startOp_moded .read false hr
  · rw [if_neg hpeer, if_neg hpeer]
    exact .same x

theorem connectOp_impl (x : Impl δ) (connect : ℤ) : (x.connectOp connect).impl = x := by
  unfold connectOp
  dsimp only
  split
  · rfl
  · rfl

theorem cancel_impl (x : Impl δ) : x.cancel.impl = x := by
  unfold cancel
  split <;> rfl

theorem startConnectOp_moded (x : Impl δ) (connect : ℤ)
    (hr : ∀ c ∈ x.startConnectOpCall r, c.result < 2 ^ 31) :
    x.Moded (x.startConnectOp r connect).impl (x.startConnectOpCall r) := by
  unfold startConnectOpCall at hr ⊢
  unfold startConnectOp
  by_cases hbits : HasBits x.state nonBlocking
  · rw [if_pos hbits, if_pos hbits, connectOp_impl]
    exact .same x
  · rw [if_neg hbits] at hr ⊢
    rw [if_neg hbits]
    have hstate := x.setInternal_moded true hr
    dsimp only
    split
    · rw [connectOp_impl]
      exact hstate
    · exact hstate

/-- The other options have bits of their own. -/
theorem setOption_moded (x : Impl δ) (option : SocketOption) (r : ℤ) :
    x.Moded (x.setOption option r).impl none := by
  have hkeeps {state : UInt8}
      (hbits : ∀ mask, mask = nonBlocking ∨ mask = possibleDup →
        (HasBits state mask ↔ HasBits x.state mask)) :
      x.Moded { x with state := state } none :=
    ⟨rfl, hbits _ (.inr rfl), .same (hbits _ (.inl rfl))⟩
  unfold setOption setsockopt
  by_cases hs : x.socket = invalidSocket
  · simp only [if_pos hs]
    exact .same x
  · simp only [if_neg hs]
    cases option with
    | alwaysFail => exact .same x
    | enableConnectionAborted value =>
      cases value with
      | none => exact .same x
      | some value =>
        dsimp only
        split
        · apply hkeeps
          rintro mask (rfl | rfl)
          · exact hasBits_or_of_not (by decide)
          · exact hasBits_or_of_not (by decide)
        · apply hkeeps
          rintro mask (rfl | rfl)
          · exact hasBits_andNot_of_eq (by decide)
          · exact hasBits_andNot_of_eq (by decide)
    | linger =>
      apply hkeeps
      rintro mask (rfl | rfl)
      · exact hasBits_or_of_not (by decide)
      · exact hasBits_or_of_not (by decide)
    | other => exact .same x

/-! ## What is started -/

/-- What the result hands to `start_op` of the reactor is the socket of the implementation, with one
of the bits. -/
def Starts (x : Impl δ) (result : Result δ) : Prop :=
  ∀ type d data, .startOp type d data ∈ result.events →
    d = x.socket ∧ HasBits result.impl.state nonBlocking

theorem Starts.of_notMem {result : Result δ}
    (h : ∀ type d data, .startOp type d data ∉ result.events) : x.Starts result := by
  intro type d data hmem
  exact absurd hmem (h type d data)

theorem Starts.of_hasBits {type : OpType} {ec : ServiceCode}
    (h : HasBits y.state nonBlocking) (hy : y.socket = x.socket) :
    x.Starts ⟨y, ec, [.startOp type y.socket y.reactorData]⟩ := by
  intro type' d data hmem
  cases List.mem_singleton.mp hmem
  exact ⟨hy, h⟩

theorem hasBits_of_setInternal {s : ℤ} {state : UInt8}
    (h : (setInternalNonBlocking 0 s state true r).1 = true) :
    HasBits (setInternalNonBlocking 0 s state true r).2.2 nonBlocking := by
  unfold setInternalNonBlocking at h ⊢
  split at h
  · cases h
  · next hs =>
    rw [if_neg (fun h => absurd h.1 nofun)] at h
    rw [if_neg hs, if_neg (fun h => absurd h.1 nofun)]
    dsimp only at h ⊢
    split at h
    · next hr =>
      rw [if_pos hr]
      exact hasBits_or.mpr (.inr (by decide))
    · cases h

theorem startOp_starts (x : Impl δ) (type : OpType) (noop : Bool) (r : ℤ) :
    x.Starts (x.startOp type noop r) := by
  unfold startOp
  split
  · split
    · next hbits => exact .of_hasBits hbits rfl
    · dsimp only
      split
      · next hok =>
        exact .of_hasBits (y := { x with state := _ }) (hasBits_of_setInternal hok) rfl
      · exact .of_notMem (by simp)
  · exact .of_notMem (by simp)

theorem startAcceptOp_starts (x : Impl δ) (peerIsOpen : Bool) (r : ℤ) :
    x.Starts (x.startAcceptOp peerIsOpen r) := by
  unfold startAcceptOp
  split
  · exact x.startOp_starts .read false r
  · exact .of_notMem (by simp)

theorem connectOp_starts (x : Impl δ) (connect : ℤ) (h : HasBits y.state nonBlocking)
    (hy : y.socket = x.socket) : x.Starts (y.connectOp connect) := by
  unfold connectOp
  dsimp only
  split
  · exact .of_hasBits h hy
  · exact .of_notMem (by simp)

theorem startConnectOp_starts (x : Impl δ) (r connect : ℤ) :
    x.Starts (x.startConnectOp r connect) := by
  unfold startConnectOp
  split
  · next hbits => exact connectOp_starts x connect hbits rfl
  · dsimp only
    split
    · next hok =>
      exact connectOp_starts (y := { x with state := _ }) x connect (hasBits_of_setInternal hok) rfl
    · exact .of_notMem (by simp)

/-- `FIONBIO` does what `non_blocking` does. -/
theorem ioControl_fionbio (x : Impl δ) (arg : Bool) (r : ℤ) :
    x.ioControl (.fionbio arg) r = x.setNonBlocking arg r := by
  unfold ioControl setNonBlocking ioctl setUserNonBlocking
  by_cases hs : x.socket = invalidSocket
  · simp only [if_pos hs]
  · simp only [if_neg hs]
    cases arg <;> split <;> rfl

theorem ioControl_other (x : Impl δ) (r : ℤ) : (x.ioControl .other r).impl = x := by
  unfold ioControl ioctl
  by_cases hs : x.socket = invalidSocket
  · simp only [if_pos hs]
  · simp only [if_neg hs]
    split <;> rfl

theorem setOption_other (x : Impl δ) (r : ℤ) : (x.setOption .other r).impl = x := by
  unfold setOption setsockopt
  by_cases hs : x.socket = invalidSocket
  · simp only [if_pos hs]
  · simp only [if_neg hs]

end Impl

/-! ## The service -/

/-- An operation of the service with the effect of the step. -/
def ModeAction.operation : ModeAction → ServiceAction
  | .operate a _ => a
  | .ioControl i (.fionbio arg) r => .setNonBlocking i arg r
  | .ioControl i .other r => .setOption i .other r

/-- The implementation that an operation may put into a mode, and the mode. -/
def ServiceAction.switch : ServiceAction → Option (ℕ × Bool)
  | .startOp i _ _ _ => some (i, true)
  | .startAcceptOp i _ _ => some (i, true)
  | .startConnectOp i _ _ => some (i, true)
  | .setNonBlocking i mode _ => some (i, mode)
  | .setNativeNonBlocking i mode _ => some (i, mode)
  | _ => none

def ModeAction.switch : ModeAction → Option (ℕ × Bool)
  | .operate a _ => a.switch
  | .ioControl i (.fionbio arg) _ => some (i, arg)
  | .ioControl _ .other _ => none

namespace SocketService

variable {s t : SocketService δ} {evs : List (ServiceEvent δ)} {a : ServiceAction}
  {mode mode' : ℤ → Bool} {new : Bool} {i : ℕ} {d : ℤ}

/-- What is known of all implementations, when one of them is replaced. -/
theorem forall_set {p q : Impl δ → Prop} (h : ∀ j y, s.impl j = some y → p y)
    {x : Option (Impl δ)} (hx : ∀ y, x = some y → q y)
    (hothers : ∀ j y, j ≠ i → s.impl j = some y → p y → q y) :
    ∀ j y, (s.set i x).impl j = some y → q y := by
  intro j y hj
  by_cases hji : j = i
  · rw [hji, set_impl, Function.update_self] at hj
    exact hx y hj
  · rw [set_impl, Function.update_of_ne hji] at hj
    exact hothers j y hji hj (h j y hj)

theorem forall_create {p : Impl δ → Prop} (h : ∀ j y, s.impl j = some y → p y) {x : Impl δ}
    (hx : p x) : ∀ j y, (s.create x).impl j = some y → p y := by
  intro j y hj
  by_cases hji : j = s.next
  · rw [hji, create_impl, Function.update_self] at hj
    obtain rfl := Option.some.inj hj
    exact hx
  · rw [create_impl, Function.update_of_ne hji] at hj
    exact h j y hj

/-- All implementations match the modes. -/
def Matching (s : SocketService δ) (mode : ℤ → Bool) : Prop :=
  ∀ i x, s.impl i = some x → x.Matches mode

theorem Matching.set (h : s.Matching mode) {x : Option (Impl δ)}
    (hx : ∀ y, x = some y → y.Matches mode')
    (hothers : ∀ j d, j ≠ i → s.Holds j d → mode' d = mode d) : (s.set i x).Matching mode' :=
  forall_set h hx fun j y hji hj hy =>
    hy.congr fun hopen => hothers j y.socket hji ⟨y, hj, hopen, rfl⟩

/-- A table of the descriptors changes only for those that are obtained. -/
theorem foldl_of_notMem {β : Type} {f : (ℤ → β) → ServiceEvent δ → ℤ → β} {table : ℤ → β}
    (hf : ∀ table e, e ≠ .obtained d → f table e d = table d) (h : .obtained d ∉ evs) :
    evs.foldl f table d = table d := by
  induction evs generalizing table with
  | nil => rfl
  | cons e evs ih =>
    rw [List.mem_cons, not_or] at h
    rw [List.foldl_cons, ih h.2]
    exact hf table e fun he => h.1 he.symm

/-- What a step obtains is not in use. -/
theorem Steps.free_of_obtained (h : s.Steps reactor t evs) (hd : .obtained d ∈ evs) : s.Free d := by
  cases h with
  | construct hx hdata => cases hd
  | operate hi hdata he =>
    cases he with
    | keep hy => cases hd
    | take hx hy hfree =>
      cases List.mem_singleton.mp hd
      exact hfree
    | close hy he => exact absurd hd (he.obtained_notMem _)
  | keep hi h => exact (h.quiet _ hd).elim
  | moveConstruct hother hx hy hdata hdata' => cases hd
  | moveAssign hne hi hother hx hy hdata hdata' he => exact absurd hd (he.obtained_notMem _)
  | destroy hi he => exact absurd hd (he.obtained_notMem _)

theorem modes_of_notMem (h : .obtained d ∉ evs) :
    evs.foldl (fun mode e => e.modes new mode) mode d = mode d := by
  refine foldl_of_notMem (fun mode e he => ?_) h
  cases e with
  | obtained d' =>
    have hne : d ≠ d' := fun hd => he (hd ▸ rfl)
    exact Function.update_of_ne hne ..
  | _ => rfl

theorem modes_of_closes {x : Option ℤ} (he : Closes x evs) :
    evs.foldl (fun mode e => e.modes new mode) mode = mode :=
  funext fun _ => modes_of_notMem (he.obtained_notMem _)

theorem modes_of_quiet (he : ∀ e ∈ evs, e.Quiet) :
    evs.foldl (fun mode e => e.modes new mode) mode = mode :=
  funext fun _ => modes_of_notMem fun hd => he _ hd

/-- The events leave the mode of a descriptor in use alone. -/
theorem Steps.modes (h : s.Steps reactor t evs) (hd : s.Holds i d) :
    evs.foldl (fun mode e => e.modes new mode) mode d = mode d :=
  modes_of_notMem fun hmem => h.free_of_obtained hmem i hd

/-- The call of an operation that leaves the descriptors alone. -/
theorem Calls.moded {f : Impl δ → Result δ} {x : Impl δ} (h : Calls a i f)
    (hi : s.impl i = some x) (hr : ∀ c ∈ s.fionbioCall a, c.result < 2 ^ 31) :
    x.Moded (f x).impl (s.fionbioCall a) := by
  have hcall {g : Impl δ → Option FionbioCall} (hg : s.fionbioCall a = (s.impl i).bind g) :
      s.fionbioCall a = g x := by rw [hg, hi, Option.bind_some]
  cases h with
  | cancel =>
    show x.Moded x.cancel.impl none
    rw [x.cancel_impl]
    exact .same x
  | startOp i type noop r =>
    rw [hcall rfl] at hr ⊢
    exact x.startOp_moded type noop hr
  | startAcceptOp i peerIsOpen r =>
    rw [hcall rfl] at hr ⊢
    exact x.startAcceptOp_moded peerIsOpen hr
  | startConnectOp i r connect =>
    rw [hcall rfl] at hr ⊢
    exact x.startConnectOp_moded connect hr
  | setNonBlocking i mode r =>
    rw [hcall rfl] at hr ⊢
    exact x.setNonBlocking_moded mode hr
  | setNativeNonBlocking i mode r =>
    rw [hcall rfl] at hr ⊢
    exact x.setInternal_moded mode hr
  | setOption i option r => exact x.setOption_moded option r

theorem Calls.starts {f : Impl δ → Result δ} (h : Calls a i f) (x : Impl δ) : x.Starts (f x) := by
  cases h with
  | cancel =>
    refine .of_notMem ?_
    unfold Impl.cancel
    split <;> simp
  | startOp i type noop r => exact x.startOp_starts type noop r
  | startAcceptOp i peerIsOpen r => exact x.startAcceptOp_starts peerIsOpen r
  | startConnectOp i r connect => exact x.startConnectOp_starts r connect
  | setNonBlocking i mode r => exact .of_notMem nofun
  | setNativeNonBlocking i mode r => exact .of_notMem nofun
  | setOption i option r => exact .of_notMem nofun

/-! ## One step -/

theorem not_hasBits_state (protocol : SocketType) : ¬ HasBits protocol.state nonBlocking := by
  cases protocol <;> decide

theorem matches_of_closed {x : Impl δ} (hstate : x.state = 0) (hx : ¬ x.IsOpen) :
    x.Matches mode := by
  apply Impl.Matches.of_blocking
  · rw [hstate]
    decide
  · exact fun hopen => absurd hopen hx

theorem matches_of_dup {x : Impl δ} {protocol : SocketType}
    (hstate : x.state = protocol.state ||| possibleDup) : x.Matches mode := by
  apply Impl.Matches.of_blocking
  · rw [hstate]
    cases protocol <;> decide
  · intro _ _
    rw [hstate]
    exact hasBits_or.mpr (.inr (by decide))

theorem openSocket_state_of_not {x : Impl δ} {r : ℤ} (h : x.IsOpen ∨ r < 0)
    (protocol : SocketType) : (x.openSocket protocol r).impl.state = x.state := by
  have hprotocol (result : Result δ) :
      (Impl.withProtocol result protocol).impl.state = result.impl.state := by
    unfold Impl.withProtocol
    split <;> rfl
  unfold Impl.openSocket
  rw [hprotocol]
  unfold Impl.doOpen
  by_cases hopen : x.IsOpen
  · rw [if_pos hopen]
  · rw [if_neg hopen]
    have hfd : (Lkl.socket 0 r).1 = invalidSocket := toInt_call_of_neg (h.resolve_left hopen)
    simp only [SocketHolder.get, hfd, if_true]

/-- A socket is opened in blocking mode. -/
theorem openSocket_matches {x : Impl δ} {r : ℤ} (h : x.Matches mode) (hr : r < 0 ∨ r < 2 ^ 31)
    (protocol : SocketType) :
    (x.openSocket protocol r).impl.Matches
      ((x.openSocket protocol r).events.foldl (fun mode e => e.modes false mode) mode) := by
  by_cases hnot : x.IsOpen ∨ r < 0
  · obtain ⟨hsocket, -, hevents⟩ := Impl.openSocket_of_not hnot protocol
    have hstate := openSocket_state_of_not hnot protocol
    rw [hevents, List.foldl_nil]
    constructor
    · intro hbits
      rw [hstate] at hbits
      rw [Impl.IsOpen, hsocket]
      exact h.set hbits
    · intro hopen hset
      rw [Impl.IsOpen, hsocket] at hopen
      rw [hsocket] at hset
      rw [hstate]
      exact h.known hopen hset
  · obtain ⟨hx, hneg⟩ := not_or.mp hnot
    rw [Impl.openSocket_of_nonneg hx (not_lt.mp hneg) (hr.resolve_left hneg)]
    apply Impl.Matches.of_blocking
    · exact not_hasBits_state protocol
    · intro _ hset
      have hmode : Function.update mode r false r = true := hset
      rw [Function.update_self] at hmode
      cases hmode

theorem accept_matches {x y : Impl δ} {rounds : List (ℤ × ℤ)} {result : Result δ}
    (hy : y.Matches mode) (hr : ∀ q ∈ rounds, q.1 < 0 ∨ q.1 < 2 ^ 31)
    (h : x.accept y rounds = some result) :
    result.impl.Matches (result.events.foldl (fun mode e => e.modes new mode) mode) := by
  rcases Impl.accept_cases hr h with ⟨himpl, hevents⟩ | ⟨-, -, _, _, _, _, -, -, -, rfl⟩
  · rw [himpl, hevents]
    exact hy
  · exact matches_of_dup rfl

/-- **The bits match the modes after every operation.** -/
theorem Performs.matching {inherited : Bool} (hp : s.Performs reactor a t evs)
    (hs : (machine reactor).Reachable s) (hr : ∀ c ∈ s.fionbioCall a, c.result < 2 ^ 31)
    (h : s.Matching mode) :
    t.Matching (ModedService.modesAfter mode (a.newMode inherited) evs (s.fionbioCall a)) := by
  have hn := numbered_of_reachable hs
  have hsteps := hp.steps hn
  cases hp with
  | construct => exact forall_create h (matches_of_closed rfl (not_not.mpr rfl))
  | @openSocket i protocol r x hlkl hi =>
    apply h.set
    · intro y hy
      obtain rfl := Option.some.inj hy
      exact openSocket_matches (h i x hi) ((hlkl.free hn).imp_right And.left) protocol
    · intro j d _ hd
      exact hsteps.modes hd
  | @assign i protocol d x hd hi =>
    apply h.set
    · intro y hy
      obtain rfl := Option.some.inj hy
      by_cases hx : x.IsOpen
      · rw [if_pos (.inl hx), Impl.assign_of_isOpen hx]
        exact h i x hi
      · rw [Impl.assign_of_not_isOpen hx]
        exact matches_of_dup rfl
    · intro j e _ he
      exact hsteps.modes he
  | @accept i peer rounds x y result hlkl hi hpeer hresult =>
    apply h.set
    · intro z hz
      obtain rfl := Option.some.inj hz
      exact accept_matches (h peer y hpeer) (fun q hq => (hlkl q hq).imp_right And.left) hresult
    · intro j d _ hd
      exact hsteps.modes hd
  | @close i calls x hi =>
    have hmodes : ModedService.modesAfter mode false (x.close calls).events none = mode :=
      modes_of_closes (x.closes_close x.state false calls)
    show Matching _ (ModedService.modesAfter mode false (x.close calls).events none)
    rw [hmodes]
    apply h.set
    · intro y hy
      obtain rfl := Option.some.inj hy
      exact matches_of_closed rfl (not_not.mpr rfl)
    · exact fun _ _ _ _ => rfl
  | @moveConstruct other y hother =>
    have hsource : (s.set other (some (Impl.moveConstruct reactor
        (Impl.uninitialized reactor) y).2)).Matching mode := by
      apply h.set
      · intro z hz
        obtain rfl := Option.some.inj hz
        exact matches_of_closed rfl (not_not.mpr rfl)
      · exact fun _ _ _ _ => rfl
    exact forall_create hsource ⟨(h other y hother).set, (h other y hother).known⟩
  | @moveAssignSelf i calls x hi =>
    have hmodes : ModedService.modesAfter mode false (x.destroy calls).2 none = mode :=
      modes_of_closes (x.destroy_closes calls)
    show Matching _ (ModedService.modesAfter mode false (x.destroy calls).2 none)
    rw [hmodes]
    apply h.set
    · intro y hy
      obtain rfl := Option.some.inj hy
      exact matches_of_closed rfl (not_not.mpr rfl)
    · exact fun _ _ _ _ => rfl
  | @moveAssign i other calls x y hne hi hother =>
    have hmodes : ModedService.modesAfter mode false (x.destroy calls).2 none = mode :=
      modes_of_closes (x.destroy_closes calls)
    show Matching _ (ModedService.modesAfter mode false (x.destroy calls).2 none)
    rw [hmodes]
    have htarget : (s.set i (some (x.moveAssign reactor y calls).1)).Matching mode := by
      apply h.set
      · intro z hz
        obtain rfl := Option.some.inj hz
        exact ⟨(h other y hother).set, (h other y hother).known⟩
      · exact fun _ _ _ _ => rfl
    apply htarget.set
    · intro z hz
      obtain rfl := Option.some.inj hz
      exact matches_of_closed rfl (not_not.mpr rfl)
    · exact fun _ _ _ _ => rfl
  | @destroy i calls x hi =>
    have hmodes : ModedService.modesAfter mode false (x.destroy calls).2 none = mode :=
      modes_of_closes (x.destroy_closes calls)
    show Matching _ (ModedService.modesAfter mode false (x.destroy calls).2 none)
    rw [hmodes]
    exact h.set nofun fun _ _ _ _ => rfl
  | @call a i f x ha hi =>
    have hmoded := ha.moded hi hr
    have hmodes : ModedService.modesAfter mode (a.newMode inherited) (f x).events
        (s.fionbioCall a) = (s.fionbioCall a).elim mode fun c => c.modes mode := by
      unfold ModedService.modesAfter
      rw [modes_of_quiet (ha.keeps x).quiet]
    rw [hmodes]
    apply h.set
    · intro y hy
      obtain rfl := Option.some.inj hy
      exact hmoded.matches (h i x hi)
    · intro j d hj hd
      exact hmoded.modes_of_ne fun hx hdx =>
        hj (owners_exclusive hs j i d (owners_eq_some.mpr hd)
          (owners_eq_some.mpr ⟨x, hi, hx, hdx⟩))

/-- An operation that starts something, or sets a mode, makes its call on its own socket. -/
theorem switch_of_fionbioCall {c : FionbioCall} (hc : s.fionbioCall a = some c) :
    ∃ i x, s.impl i = some x ∧ x.IsOpen ∧ c.descriptor = x.socket ∧
      a.switch = some (i, c.value) := by
  have hinternal {x : Impl δ} {value : Bool} {r : ℤ}
      (h : setInternalNonBlockingCall x.socket x.state value r = some c) :
      x.IsOpen ∧ c.descriptor = x.socket ∧ value = c.value := by
    obtain ⟨hs, h⟩ := Option.ite_none_left_eq_some.mp h
    obtain ⟨-, h⟩ := Option.ite_none_left_eq_some.mp h
    obtain rfl := Option.some.inj h
    exact ⟨hs, rfl, rfl⟩
  have hstart {x : Impl δ} {noop : Bool} {r : ℤ} (h : x.startOpCall noop r = some c) :
      x.IsOpen ∧ c.descriptor = x.socket ∧ true = c.value := by
    obtain ⟨-, h⟩ := Option.ite_none_right_eq_some.mp h
    obtain ⟨-, h⟩ := Option.ite_none_left_eq_some.mp h
    exact hinternal h
  cases a with
  | startOp i type noop r =>
    obtain ⟨x, hi, h⟩ := Option.bind_eq_some_iff.mp hc
    obtain ⟨hopen, hd, hvalue⟩ := hstart h
    exact ⟨i, x, hi, hopen, hd, congrArg (fun v => some (i, v)) hvalue⟩
  | startAcceptOp i peerIsOpen r =>
    obtain ⟨x, hi, h⟩ := Option.bind_eq_some_iff.mp hc
    obtain ⟨hopen, hd, hvalue⟩ := hstart (Option.ite_none_right_eq_some.mp h).2
    exact ⟨i, x, hi, hopen, hd, congrArg (fun v => some (i, v)) hvalue⟩
  | startConnectOp i r connect =>
    obtain ⟨x, hi, h⟩ := Option.bind_eq_some_iff.mp hc
    obtain ⟨hopen, hd, hvalue⟩ := hinternal (Option.ite_none_left_eq_some.mp h).2
    exact ⟨i, x, hi, hopen, hd, congrArg (fun v => some (i, v)) hvalue⟩
  | setNonBlocking i mode r =>
    obtain ⟨x, hi, h⟩ := Option.bind_eq_some_iff.mp hc
    obtain ⟨hs, h⟩ := Option.ite_none_left_eq_some.mp h
    obtain rfl := Option.some.inj h
    exact ⟨i, x, hi, hs, rfl, rfl⟩
  | setNativeNonBlocking i mode r =>
    obtain ⟨x, hi, h⟩ := Option.bind_eq_some_iff.mp hc
    obtain ⟨hopen, hd, hvalue⟩ := hinternal h
    exact ⟨i, x, hi, hopen, hd, congrArg (fun v => some (i, v)) hvalue⟩
  | _ => cases hc

/-- Only an operation on the own socket changes the mode of a descriptor in use. -/
theorem Performs.switch {inherited : Bool} (hp : s.Performs reactor a t evs)
    (hs : (machine reactor).Reachable s) (hd : s.Holds i d)
    (hmode : ModedService.modesAfter mode (a.newMode inherited) evs (s.fionbioCall a) d ≠ mode d) :
    a.switch = some (i, ModedService.modesAfter mode (a.newMode inherited) evs
      (s.fionbioCall a) d) := by
  have hevents : evs.foldl (fun mode e => e.modes (a.newMode inherited) mode) mode d = mode d :=
    (hp.steps (numbered_of_reachable hs)).modes hd
  unfold ModedService.modesAfter at hmode ⊢
  cases hc : s.fionbioCall a with
  | none =>
    rw [hc] at hmode
    exact absurd hevents hmode
  | some c =>
    rw [hc, Option.elim_some] at hmode
    rw [Option.elim_some]
    unfold FionbioCall.modes at hmode ⊢
    split at hmode
    · next hr =>
      rw [if_pos hr]
      by_cases hdc : d = c.descriptor
      · obtain ⟨j, x, hj, hopen, hdx, hswitch⟩ := switch_of_fionbioCall hc
        obtain rfl : i = j := owners_exclusive hs i j d (owners_eq_some.mpr hd)
          (owners_eq_some.mpr ⟨x, hj, hopen, (hdc.trans hdx).symm⟩)
        rw [hdc, Function.update_self]
        exact hswitch
      · rw [Function.update_of_ne hdc] at hmode
        exact absurd hevents hmode
    · exact absurd hevents hmode

/-- What an operation starts is on an open socket in non-blocking mode. -/
theorem Performs.starts (hp : s.Performs reactor a t evs) (ht : t.Matching mode) {type : OpType}
    {data : δ} (hd : .startOp type d data ∈ evs) : (∃ i, t.Holds i d) ∧ mode d = true := by
  rcases hp.handsOver with ⟨hreach, -⟩ | ⟨-, hevs⟩
  · cases hp with
    | @call a i f x ha hi =>
      obtain ⟨rfl, hbits⟩ := ha.starts x type d data hd
      have himpl : (s.set i (some (f x).impl)).impl i = some (f x).impl := by
        rw [set_impl, Function.update_self]
      obtain ⟨hopen, hset⟩ := (ht i _ himpl).set hbits
      have hsocket := (ha.keeps x).socket_eq
      rw [hsocket] at hset
      exact ⟨⟨i, _, himpl, hopen, hsocket⟩, hset⟩
    | _ => exact hreach.elim
  · have hmem : (d, data) ∈ evs.filterMap ServiceEvent.reactorUse :=
      List.mem_filterMap.mpr ⟨_, hd, rfl⟩
    rw [hevs] at hmem
    cases hmem

end SocketService

/-! ## The runs -/

namespace ModedService

variable {s t : ModedService δ} {a : ModeAction} {evs : List (ServiceEvent δ)}

/-- The mode of a descriptor that a step obtains. -/
def newMode : ModeAction → Bool
  | .operate a inherited => a.newMode inherited
  | .ioControl _ _ _ => false

theorem fionbioCall_operation (s : ModedService δ) (a : ModeAction) :
    s.fionbioCall a = s.service.fionbioCall a.operation := by
  cases a with
  | operate b inherited => rfl
  | ioControl i command r =>
    cases command with
    | fionbio arg => rfl
    | other =>
      show (s.service.impl i).bind _ = none
      refine Option.bind_eq_none_iff.mpr fun x _ => ?_
      unfold Impl.ioControlCall
      split <;> rfl

/-- **Inversion** of a step, which does what an operation of the service does. -/
theorem perform_cases (h : s.perform reactor a = some (t, evs)) :
    (∀ c ∈ s.service.fionbioCall a.operation, c.result < 2 ^ 31) ∧
      s.service.perform reactor a.operation = some (t.service, evs) ∧
      t.mode = modesAfter s.mode (newMode a) evs (s.service.fionbioCall a.operation) := by
  obtain ⟨hr, h⟩ := Option.ite_none_right_eq_some.mp h
  rw [← fionbioCall_operation]
  refine ⟨hr, ?_⟩
  cases a with
  | operate b inherited =>
    obtain ⟨⟨u, evs'⟩, hp, he⟩ := Option.map_eq_some_iff.mp h
    obtain ⟨rfl, rfl⟩ := Prod.mk.inj he
    exact ⟨hp, rfl⟩
  | ioControl i command r =>
    obtain ⟨x, hi, he⟩ := Option.map_eq_some_iff.mp h
    obtain ⟨rfl, rfl⟩ := Prod.mk.inj he
    refine ⟨?_, rfl⟩
    cases command with
    | fionbio arg =>
      show (s.service.impl i).map _ = _
      rw [hi, x.ioControl_fionbio]
      rfl
    | other =>
      show (s.service.impl i).map _ = _
      rw [hi, x.ioControl_other, Option.map_some, SocketService.apply, x.setOption_other]
      rfl

theorem perform_of_step (h : (machine reactor).step s a = some t) :
    s.perform reactor a = some (t, s.events reactor a) := by
  obtain ⟨⟨u, evs⟩, hp, rfl⟩ := Option.map_eq_some_iff.mp h
  rw [events, hp]
  rfl

/-- **The modes do not change what the service does.** -/
theorem implements_service (reactor : Reactor δ) :
    Machine.Implements (machine reactor) (SocketService.machine reactor) service
      (events reactor) (SocketService.events reactor) := by
  apply Machine.Implements.of_step (g := ModeAction.operation)
  · rintro _ ⟨mode, rfl⟩
    rfl
  · intro s a t h
    obtain ⟨-, hp, -⟩ := perform_cases (perform_of_step h)
    exact ⟨congrArg (Option.map Prod.fst) hp, congrArg (fun o => o.elim [] Prod.snd) hp⟩

theorem service_reachable (h : (machine reactor).Reachable s) :
    (SocketService.machine reactor).Reachable s.service := (implements_service reactor).reachable h

theorem switch_operation (a : ModeAction) : a.operation.switch = a.switch := by
  cases a with
  | operate b inherited => rfl
  | ioControl i command r => cases command <;> rfl

/-- A command obtains no descriptor. -/
theorem newMode_operation (a : ModeAction) :
    ∃ inherited, newMode a = a.operation.newMode inherited := by
  cases a with
  | operate b inherited => exact ⟨inherited, rfl⟩
  | ioControl i command r => cases command <;> exact ⟨false, rfl⟩

/-- **The bits match the modes in every reachable state.** -/
theorem matching_of_reachable (h : (machine reactor).Reachable s) : s.service.Matching s.mode := by
  refine h.invariant (P := fun s => s.service.Matching s.mode) ?_ ?_
  · rintro _ ⟨mode, rfl⟩
    nofun
  · intro s a t hs hm h
    obtain ⟨hr, hp, hmode⟩ := perform_cases (perform_of_step h)
    obtain ⟨inherited, hnew⟩ := newMode_operation a
    rw [hmode, hnew]
    exact (SocketService.perform_cases hp).matching (service_reachable hs) hr hm

/-- **The modes of the descriptors in every run.** A socket with one of the two bits is open in
non-blocking mode, and a socket in this mode has one of them, or has the mode from the caller who
assigned its descriptor. Every operation that is handed to the reactor is on an open socket in
non-blocking mode. And the mode of a descriptor in use changes only to what an operation on its own
socket asks for. LKL is taken to keep a mode for each descriptor: no other descriptor shares it, as
the duplicates do for which the source has `possible_dup`. -/
theorem blocking_mode {mode : ℤ → Bool} {as : List ModeAction}
    (h : (machine reactor).exec (initial mode) as = some s) :
    (∀ i x, s.service.impl i = some x →
      (HasBits x.state nonBlocking → x.IsOpen ∧ s.mode x.socket = true) ∧
        (x.IsOpen → s.mode x.socket = true →
          HasBits x.state nonBlocking ∨ HasBits x.state possibleDup)) ∧
    (∀ t a u, (machine reactor).Takes (initial mode) as t a u →
      ∀ type d data, .startOp type d data ∈ t.events reactor a →
        (∃ i, u.service.Holds i d) ∧ u.mode d = true) ∧
    ∀ t a u, (machine reactor).Takes (initial mode) as t a u →
      ∀ i d, t.service.Holds i d → u.mode d ≠ t.mode d → a.switch = some (i, u.mode d) := by
  have hinit : (machine reactor).init (initial mode) := ⟨mode, rfl⟩
  refine ⟨?_, ?_, ?_⟩
  · intro i x hi
    have hx := matching_of_reachable ⟨initial mode, as, hinit, h⟩ i x hi
    exact ⟨hx.set, hx.known⟩
  · intro t a u hT type d data hd
    obtain ⟨-, hp, -⟩ := perform_cases (perform_of_step hT.step_eq)
    have hu := matching_of_reachable (hT.visits_right.reachable hinit)
    exact (SocketService.perform_cases hp).starts hu hd
  · intro t a u hT i d hd hne
    obtain ⟨-, hp, hmode⟩ := perform_cases (perform_of_step hT.step_eq)
    obtain ⟨inherited, hnew⟩ := newMode_operation a
    have hs := service_reachable (hT.visits_left.reachable hinit)
    rw [← switch_operation]
    rw [hmode, hnew] at hne ⊢
    exact (SocketService.perform_cases hp).switch hs hd hne

/-- The user clears the mode while an operation is under way, and starts another one. -/
def clearedRun : List ModeAction :=
  [.operate .construct false, .operate (.openSocket 0 .stream 3) false,
    .operate (.startOp 0 .read false 0) false, .ioControl 0 (.fionbio false) 0,
    .operate (.startOp 0 .write false 0) false]

theorem blocking_mode_clearedRun :
    ∃ s, (machine Reactor.epoll).exec (initial fun _ => false) clearedRun = some s ∧
      ∀ i x, s.service.impl i = some x → HasBits x.state nonBlocking → s.mode x.socket = true := by
  obtain ⟨s, hs⟩ : ∃ s, (machine Reactor.epoll).exec (initial fun _ => false) clearedRun = some s :=
    Option.isSome_iff_exists.mp (by decide)
  obtain ⟨hbits, -, -⟩ := blocking_mode hs
  exact ⟨s, hs, fun i x hi h => ((hbits i x hi).1 h).2⟩

end ModedService

end Lkl

end LklSocks
