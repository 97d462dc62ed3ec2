import LklSocks.Asio
import LklSocks.Machine.Pipe

/-!
# The relay loops

`receiveHost` and `receiveRemote` are the same loop with the sockets exchanged: read into the
buffer, write what was read, and at EOF call `stopConnection` unless no strong reference to the
connection is left. Any other error ends the loop without a call.

## Main definitions

* `StopCall`: a call of `stopConnection` on a thread of the connection
* `RelayPoint`, `Relay`: the program points of a loop and the objects it works on
* `Relay.step`: one step of a loop, with the results the environment chooses
* `Relay.Steps`: the same as a relation with one rule for each branch
* `Relays`: what a loop has taken and given so far

## Main results

* `Relay.step_cases`: inversion of a step
* `Relay.Steps.relays`: a step of a loop is a step of a pipe
-/

namespace LklSocks

/-- A call `stopConnection(shared_from_this())`: its by-value argument holds a strong reference
and the handler is not yet posted, or it is; the release of the argument was the last one, so the
destructor runs on this thread; or the call has returned. -/
inductive StopCall
  | argument
  | posted
  | destroying
  | done
  deriving DecidableEq, Repr

namespace StopCall

/-- The next step of a call, when `useCount` strong references exist: post the handler, then
release the argument. -/
def next (useCount : ℕ) : StopCall → Option StopCall
  | argument => some posted
  | posted => some (if useCount = 1 then destroying else done)
  | destroying => none
  | done => none

/-- The references the argument holds. -/
def holds : StopCall → ℕ
  | argument => 1
  | posted => 1
  | destroying => 0
  | done => 0

end StopCall

/-- The program points of a relay loop. -/
inductive RelayPoint
  | read
  | write (length written : ℕ)
  | caught (ec : ErrorCode)
  | share
  | stop (call : StopCall)
  | returned
  deriving DecidableEq, Repr

/-- A relay loop: the socket it reads, the socket it writes, its buffer and its program point. -/
structure Relay where
  src : Socket
  dst : Socket
  buf : Buffer
  point : RelayPoint

namespace Relay

/-- One step of a loop, when `useCount` strong references to the connection exist. -/
def step (useCount : ℕ) (r : Relay) (out : Outcome) : Option Relay :=
  match r.point, out with
  | .read, .data bs =>
    if h : r.src.CanRead bs ∧ bs.length ≤ bufferSize then
      some { r with
        src := r.src.read bs, buf := r.buf.fill bs h.2, point := .write bs.length 0 }
    else none
  | .read, .error ec =>
    if r.src.CanFail ec then some { r with point := .caught ec } else none
  | .write length written, .wrote n =>
    if r.dst.CanWrite (r.buf.pending length written) n then
      some { r with
        dst := r.dst.write ((r.buf.pending length written).take n)
        point := if written + n = length then .read else .write length (written + n) }
    else none
  | .write _ _, .error ec => some { r with point := .caught ec }
  | .caught ec, .ok => some { r with point := if ec = .eof then .share else .returned }
  -- `shared_from_this` throws `bad_weak_ptr`, which the loop ignores
  | .share, .ok => some { r with point := if useCount = 0 then .returned else .stop .argument }
  | .stop call, .ok => (call.next useCount).map fun k => { r with point := .stop k }
  | _, _ => none

/-- The steps of a loop, one rule for each branch. -/
inductive Steps (useCount : ℕ) (r : Relay) : Outcome → Relay → Prop
  | read {bs : List UInt8} (hp : r.point = .read) (hr : r.src.CanRead bs)
      (hb : bs.length ≤ bufferSize) :
      Steps useCount r (.data bs)
        { r with src := r.src.read bs, buf := r.buf.fill bs hb, point := .write bs.length 0 }
  | readError {ec : ErrorCode} (hp : r.point = .read) (hf : r.src.CanFail ec) :
      Steps useCount r (.error ec) { r with point := .caught ec }
  | write {length written n : ℕ} (hp : r.point = .write length written)
      (hw : r.dst.CanWrite (r.buf.pending length written) n) :
      Steps useCount r (.wrote n)
        { r with
          dst := r.dst.write ((r.buf.pending length written).take n)
          point := if written + n = length then .read else .write length (written + n) }
  | writeError {length written : ℕ} {ec : ErrorCode} (hp : r.point = .write length written) :
      Steps useCount r (.error ec) { r with point := .caught ec }
  | eof (hp : r.point = .caught .eof) : Steps useCount r .ok { r with point := .share }
  | silent {ec : ErrorCode} (hp : r.point = .caught ec) (he : ec ≠ .eof) :
      Steps useCount r .ok { r with point := .returned }
  | expired (hp : r.point = .share) (hu : useCount = 0) :
      Steps useCount r .ok { r with point := .returned }
  | share (hp : r.point = .share) (hu : useCount ≠ 0) :
      Steps useCount r .ok { r with point := .stop .argument }
  | stop {call next : StopCall} (hp : r.point = .stop call)
      (hc : call.next useCount = some next) :
      Steps useCount r .ok { r with point := .stop next }

variable {useCount : ℕ} {r r' : Relay} {out : Outcome}

/-- Inversion of a step. -/
theorem step_cases (h : r.step useCount out = some r') : r.Steps useCount out r' := by
  unfold step at h
  split at h
  · next hp =>
    split at h
    · next hb =>
      obtain rfl := Option.some.inj h
      exact .read hp hb.1 hb.2
    · cases h
  · next hp =>
    split at h
    · next hf =>
      obtain rfl := Option.some.inj h
      exact .readError hp hf
    · cases h
  · next hp =>
    split at h
    · next hw =>
      obtain rfl := Option.some.inj h
      exact .write hp hw
    · cases h
  · next hp =>
    obtain rfl := Option.some.inj h
    exact .writeError hp
  · next ec hp =>
    obtain rfl := Option.some.inj h
    by_cases he : ec = .eof
    · subst he
      exact .eof hp
    · rw [if_neg he]
      exact .silent hp he
  · next hp =>
    obtain rfl := Option.some.inj h
    by_cases hu : useCount = 0
    · rw [if_pos hu]
      exact .expired hp hu
    · rw [if_neg hu]
      exact .share hp hu
  · next hp =>
    obtain ⟨k, hk, rfl⟩ := Option.map_eq_some_iff.mp h
    exact .stop hp hk
  · cases h

/-- A loop does nothing to its sink but writing. -/
theorem Steps.dst_eq (h : r.Steps useCount out r') :
    r'.dst = { r.dst with sent := r'.dst.sent } := by
  cases h <;> rfl

/-- A loop does nothing to its source but reading. -/
theorem Steps.src_isOpen (h : r.Steps useCount out r') : r'.src.isOpen = r.src.isOpen := by
  cases h <;> rfl

end Relay

/-! ## What a loop moves -/

namespace RelayPoint

/-- The loop is between its `try` and its `catch`. -/
def Moving : RelayPoint → Prop
  | read => True
  | write _ _ => True
  | _ => False

/-- The bytes that the loop has read and still has to write. -/
def unwritten (buf : Buffer) : RelayPoint → List UInt8
  | write length written => buf.pending length written
  | _ => []

@[simp] theorem unwritten_read (buf : Buffer) : read.unwritten buf = [] := rfl
@[simp] theorem unwritten_write (buf : Buffer) (length written : ℕ) :
    (write length written).unwritten buf = buf.pending length written := rfl

/-- At `asio::write` some bytes of the buffer are left to write. -/
def Bounded : RelayPoint → Prop
  | write length written => written < length ∧ length ≤ bufferSize
  | _ => True

end RelayPoint

theorem Buffer.length_pending (b : Buffer) {length written : ℕ} (hl : length ≤ bufferSize) :
    (b.pending length written).length = length - written := by
  have := b.length_eq
  rw [pending, List.length_drop, List.length_take]
  omega

/-- A loop that took `input` from its source and gave `output` to its sink is a pipe, and while
it moves bytes, those inside the pipe are the ones it still has to write. -/
structure Relays (buf : Buffer) (point : RelayPoint) (input output : List UInt8) : Prop where
  bounded : point.Bounded
  pipe : Pipe.machine.Reachable ⟨input, output⟩
  moving : point.Moving → output ++ point.unwritten buf = input

namespace Relays

variable {buf : Buffer} {point point' : RelayPoint} {input output : List UInt8}

/-- The start of a loop. -/
theorem start (hi : input = []) (ho : output = []) : Relays buf .read input output where
  bounded := trivial
  pipe := .of_init (by rw [hi, ho]; rfl)
  moving _ := by rw [hi, ho]; rfl

theorem output_prefix (h : Relays buf point input output) : output <+: input :=
  Pipe.output_prefix h.pipe

/-- A step that neither reads nor writes leaves the `try` block. -/
theorem leave (h : Relays buf point input output) (hb : point'.Bounded)
    (hm : ¬ point'.Moving) : Relays buf point' input output where
  bounded := hb
  pipe := h.pipe
  moving hp := absurd hp hm

/-- Reading into the buffer. -/
theorem read {bs : List UInt8} (h : Relays buf .read input output) (hn : bs ≠ [])
    (hb : bs.length ≤ bufferSize) :
    Relays (buf.fill bs hb) (.write bs.length 0) (input ++ bs) output where
  bounded := ⟨List.length_pos_iff.mpr hn, hb⟩
  pipe := h.pipe.step (a := .put bs) rfl
  moving _ := by
    have hio : output = input := by simpa using h.moving trivial
    rw [RelayPoint.unwritten_write, Buffer.pending_fill, hio]

/-- Writing the next bytes of the buffer. -/
theorem write {length written n : ℕ} (h : Relays buf (.write length written) input output)
    (hn : n ≤ (buf.pending length written).length) :
    Relays buf (if written + n = length then .read else .write length (written + n)) input
      (output ++ (buf.pending length written).take n) where
  bounded := by
    obtain ⟨hw, hl⟩ := h.bounded
    rw [buf.length_pending hl] at hn
    split
    · trivial
    · exact ⟨by omega, hl⟩
  pipe := by
    have hi : (⟨input, output⟩ : Pipe UInt8).inside = buf.pending length written := by
      rw [Pipe.inside, ← h.moving trivial, List.drop_left, RelayPoint.unwritten_write]
    apply h.pipe.step (a := .take n)
    rw [← hi]
    rfl
  moving _ := by
    have hio : output ++ buf.pending length written = input := h.moving trivial
    obtain ⟨-, hl⟩ := h.bounded
    have hrest := buf.take_append_pending length written n
    split
    · next he =>
      have hnil : buf.pending length (written + n) = [] :=
        List.length_eq_zero_iff.mp (by rw [buf.length_pending hl]; omega)
      rw [hnil, List.append_nil] at hrest
      rw [hrest, RelayPoint.unwritten_read, List.append_nil, hio]
    · rw [RelayPoint.unwritten_write, List.append_assoc, hrest, hio]

end Relays

/-- **A step of a loop is a step of a pipe**: it appends the bytes it takes to what the source
received and those it gives to what the sink was sent. -/
theorem Relay.Steps.relays {useCount : ℕ} {r r' : Relay} {out : Outcome}
    {input output : List UInt8} (h : r.Steps useCount out r')
    (hr : Relays r.buf r.point input output) :
    ∃ taken given, r'.src.received = r.src.received ++ taken ∧ r'.src.sent = r.src.sent ∧
      r'.dst.received = r.dst.received ∧ r'.dst.sent = r.dst.sent ++ given ∧
      Relays r'.buf r'.point (input ++ taken) (output ++ given) := by
  cases h with
  | read hp hc hb =>
    rename_i bs
    rw [hp] at hr
    exact ⟨bs, [], rfl, rfl, rfl, (List.append_nil _).symm,
      (List.append_nil output).symm ▸ hr.read hc.2.1 hb⟩
  | write hp hc =>
    rename_i length written n
    rw [hp] at hr
    exact ⟨[], _, (List.append_nil _).symm, rfl, rfl, rfl,
      (List.append_nil input).symm ▸ hr.write hc.2.2⟩
  | _ =>
    refine ⟨[], [], by simp, rfl, rfl, by simp, ?_⟩
    rw [List.append_nil, List.append_nil]
    exact hr.leave trivial id

end LklSocks
