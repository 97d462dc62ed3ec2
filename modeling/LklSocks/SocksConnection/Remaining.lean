import LklSocks.SocksConnection.Termination
import Mathlib.Data.Prod.Lex

/-!
# The runs of a connection are finite

Every step of the threads takes bytes that a peer sent, or brings a thread nearer to its end, and a
step of the destructor brings the destructor nearer to its end. Only `remoteSocket.connect`, once in
the life of a connection, brings new bytes, so the measure is lexicographic.

## Main definitions

* `SocksConnection.load`: the bytes that are not yet read, and the steps without them
* `SocksConnection.remaining`: the measure

## Main results

* `Relay.Steps.remaining_lt`: a step of a relay loop
* `SocksConnection.Steps.remaining_lt`: every step but an accept makes the measure smaller
-/

namespace LklSocks

/-- A step of a loop uses up what its source sends, or comes nearer to the end of the loop. -/
theorem Relay.Steps.remaining_lt {useCount : ℕ} {r r' : Relay} {out : Outcome}
    (hs : r.Steps useCount out r') :
    r'.dst.incoming = r.dst.incoming ∧
      3 * r'.src.incoming.length + r'.point.weight 5 r'.buf <
        3 * r.src.incoming.length + r.point.weight 5 r.buf := by
  refine ⟨by rw [hs.dst_eq], ?_⟩
  cases hs with
  | @read bs hp hr hb =>
    have hincoming := congrArg List.length hr.incoming_eq
    have hpos := List.length_pos_iff.mpr hr.2.1
    rw [List.length_append] at hincoming
    rw [hp]
    show 3 * (r.src.read bs).incoming.length +
      (((r.buf.fill bs hb).pending bs.length 0).length + 6) < _ + 5
    rw [Buffer.pending_fill]
    omega
  | @write length written k hp hw =>
    obtain ⟨-, hpos, hle⟩ := hw
    rw [hp]
    dsimp only
    apply Nat.add_lt_add_left
    split
    · exact Nat.lt_add_left _ (show 5 < 6 by decide)
    · show (r.buf.pending length (written + k)).length + 6 <
        (r.buf.pending length written).length + 6
      rw [Buffer.length_pending_add]
      omega
  | readError hp hf =>
    rw [hp]
    exact Nat.add_lt_add_left (show 4 < 5 by decide) _
  | writeError hp =>
    rw [hp]
    exact Nat.add_lt_add_left (Nat.lt_add_left _ (show 4 < 6 by decide)) _
  | eof hp =>
    rw [hp]
    exact Nat.add_lt_add_left (show 3 < 4 by decide) _
  | silent hp he =>
    rw [hp]
    exact Nat.add_lt_add_left (show 0 < 4 by decide) _
  | expired hp hu =>
    rw [hp]
    exact Nat.add_lt_add_left (show 0 < 3 by decide) _
  | share hp hu =>
    rw [hp]
    exact Nat.add_lt_add_left (show 2 < 3 by decide) _
  | stop hp hc =>
    rw [hp]
    exact Nat.add_lt_add_left (StopCall.weight_lt hc) _

/-- The calls of `remoteSocket.connect` that can still give the connection a peer. -/
def HostPoint.connectsLeft : HostPoint → ℕ
  | idle => 1
  | readHeader _ => 1
  | readUserdata _ _ => 1
  | openRemote _ => 1
  | connectRemote _ => 1
  | _ => 0

/-- The steps of the host thread that use up nothing from a peer. -/
def HostPoint.remaining (buf : Buffer) : HostPoint → ℕ
  | idle => 16
  | readHeader _ => 15
  | readUserdata _ _ => 14
  | openRemote _ => 13
  | connectRemote _ => 12
  | writeReply _ rest => rest.length + 12
  | startRemote => 11
  | relay point => point.weight 5 buf
  | catchAll => 3
  | stop call => call.weight
  | escaped => 0

def RemotePoint.remaining (buf : Buffer) : RemotePoint → ℕ
  | idle => 0
  | relay point => point.weight 5 buf

def DtorPoint.remaining : DtorPoint → ℕ
  | closeRemote => 5
  | closeHost => 4
  | joinHost => 3
  | joinRemote => 2
  | members => 1
  | done => 0
  | aborted => 0

namespace SocksConnection

variable {c c' : SocksConnection} {a : ConnectionAction} {out : Outcome}

/-- The bytes that the peers have still to send, and the steps that remain without them. -/
def load (c : SocksConnection) : ℕ :=
  3 * (c.hostSocket.incoming.length + c.remoteSocket.incoming.length) +
    c.hostThread.remaining c.hostBuffer + c.remoteThread.remaining c.remoteBuffer +
    c.destructor.elim 6 fun d => d.2.remaining

/-- What remains to be done of the connection: a `connect` brings an unknown number of bytes. -/
def remaining (c : SocksConnection) : ℕ ×ₗ ℕ := toLex (c.hostThread.connectsLeft, c.load)

theorem remaining_lt_of_load (hc : c'.hostThread.connectsLeft = c.hostThread.connectsLeft)
    (hl : c'.load < c.load) : c'.remaining < c.remaining :=
  Prod.Lex.toLex_lt_toLex.mpr (.inr ⟨hc, hl⟩)

theorem remaining_lt_of_connectsLeft
    (hc : c'.hostThread.connectsLeft < c.hostThread.connectsLeft) : c'.remaining < c.remaining :=
  Prod.Lex.toLex_lt_toLex.mpr (.inl hc)

theorem HandshakeSteps.remaining_lt {useCount : ℕ} (hf : c.Framed)
    (hs : c.HandshakeSteps useCount out c') : c'.remaining < c.remaining := by
  have hload {p : HostPoint} {c' : SocksConnection} (hp : c.hostThread = p)
      (hc : c'.hostThread.connectsLeft = p.connectsLeft)
      (hlt : 3 * c'.hostSocket.incoming.length + c'.hostThread.remaining c'.hostBuffer <
        3 * c.hostSocket.incoming.length + p.remaining c.hostBuffer)
      (hi : c'.remoteSocket.incoming = c.remoteSocket.incoming)
      (hr : c'.remoteThread = c.remoteThread) (hb : c'.remoteBuffer = c.remoteBuffer)
      (hd : c'.destructor = c.destructor) : c'.remaining < c.remaining := by
    refine remaining_lt_of_load (hc.trans (congrArg _ hp.symm)) ?_
    rw [← hp] at hlt
    unfold load
    rw [hi, hr, hb, hd]
    omega
  have hread {bs : List UInt8} (hr : c.hostSocket.CanRead bs) :
      (c.hostSocket.read bs).incoming.length < c.hostSocket.incoming.length := by
    have hincoming := congrArg List.length hr.incoming_eq
    have hpos := List.length_pos_iff.mpr hr.2.1
    rw [List.length_append] at hincoming
    omega
  have hconnects {p : HostPoint} {c' : SocksConnection} (hp : c.hostThread = p)
      (hlt : c'.hostThread.connectsLeft < p.connectsLeft) : c'.remaining < c.remaining :=
    remaining_lt_of_connectsLeft (hp ▸ hlt)
  have hsame {p q : ℕ} (hlt : p < q) :
      3 * c.hostSocket.incoming.length + p < 3 * c.hostSocket.incoming.length + q :=
    Nat.add_lt_add_left hlt _
  cases hs with
  | @readHeader header bs hp hr hs =>
    refine hload hp rfl ?_ rfl rfl rfl rfl
    have hlt := hread hr
    show 3 * (c.hostSocket.read bs).incoming.length + 15 < _ + 15
    omega
  | @endHeader header bs hp hr hs =>
    refine hload hp rfl ?_ rfl rfl rfl rfl
    have hlt := hread hr
    show 3 * (c.hostSocket.read bs).incoming.length + 14 < _ + 15
    omega
  | headerError hp hf => exact hconnects hp Nat.zero_lt_one
  | @readUserdata header userdata bs hp hr =>
    refine hload hp rfl ?_ rfl rfl rfl rfl
    have hlt := hread hr
    show 3 * (c.hostSocket.read bs).incoming.length + 13 < _ + 14
    omega
  | userdataError hp hf => exact hconnects hp Nat.zero_lt_one
  | openRemote hp => exact hload hp rfl (hsame (show 12 < 13 by decide)) rfl rfl rfl rfl
  | openError hp => exact hconnects hp Nat.zero_lt_one
  | connected hp ho => exact hconnects hp Nat.zero_lt_one
  | connectError hp => exact hconnects hp Nat.zero_lt_one
  | @writeReply code rest n hp hw hr =>
    refine hload hp rfl (hsame ?_) rfl rfl rfl rfl
    obtain ⟨-, hpos, hle⟩ := hw
    show (rest.drop n).length + 12 < rest.length + 12
    rw [List.length_drop]
    omega
  | @endReply code rest n hp hw hr =>
    have hle : (afterReply code).remaining c.hostBuffer ≤ 11 := by
      cases code with
      | success => exact le_rfl
      | _ => exact show 3 ≤ 11 by decide
    refine hload hp ?_ (hsame (Nat.lt_add_left _ (Nat.lt_succ_of_le hle))) rfl rfl rfl rfl
    cases code <;> rfl
  | replyError hp =>
    exact hload hp rfl (hsame (Nat.lt_add_left _ (show 3 < 12 by decide))) rfl rfl rfl rfl
  | startRemote hp =>
    have hidle : c.remoteThread = .idle := by
      simp only [Framed, hp] at hf
      exact hf.1
    refine remaining_lt_of_load (by rw [hp]; rfl) ?_
    unfold load
    rw [hp, hidle]
    show 3 * (c.hostSocket.incoming.length + c.remoteSocket.incoming.length) + 5 + 5 +
      (c.destructor.elim 6 fun d => d.2.remaining) < _ + 11 + 0 + _
    omega
  | startError hp => exact hload hp rfl (hsame (show 3 < 11 by decide)) rfl rfl rfl rfl
  | relay hp hs =>
    obtain ⟨hdst, hlt⟩ := hs.remaining_lt
    exact hload hp rfl hlt hdst rfl rfl rfl
  | expired hp hu => exact hload hp rfl (hsame (show 0 < 3 by decide)) rfl rfl rfl rfl
  | share hp hu => exact hload hp rfl (hsame (show 2 < 3 by decide)) rfl rfl rfl rfl
  | stop hp hc => exact hload hp rfl (hsame (StopCall.weight_lt hc)) rfl rfl rfl rfl

theorem relayedRemote_remaining_lt {useCount : ℕ} {point : RelayPoint} {r : Relay}
    (hp : c.remoteThread = .relay point)
    (hs : Relay.Steps useCount ⟨c.remoteSocket, c.hostSocket, c.remoteBuffer, point⟩ out r) :
    (c.relayedRemote r).remaining < c.remaining := by
  obtain ⟨hdst, hlt⟩ := hs.remaining_lt
  refine remaining_lt_of_load rfl ?_
  unfold load
  rw [hp]
  apply Nat.add_lt_add_right
  show 3 * (r.dst.incoming.length + r.src.incoming.length) + _ + r.point.weight 5 r.buf <
    _ + _ + point.weight 5 c.remoteBuffer
  rw [hdst]
  dsimp only [relayedRemote] at hlt ⊢
  omega

theorem DestroySteps.remaining_lt {runner : Runner} (hs : c.DestroySteps runner c') :
    c'.remaining < c.remaining := by
  have hload {p : DtorPoint} (q : DtorPoint) (hd : c.destructor = some (runner, p))
      (hlt : q.remaining < p.remaining) :
      3 * (c.hostSocket.incoming.length + c.remoteSocket.incoming.length) +
        c.hostThread.remaining c.hostBuffer + c.remoteThread.remaining c.remoteBuffer +
        q.remaining < c.load := by
    unfold load
    rw [hd]
    exact Nat.add_lt_add_left hlt _
  cases hs with
  | closeRemote hd => exact remaining_lt_of_load rfl (hload .closeHost hd (by decide))
  | closeHost hd => exact remaining_lt_of_load rfl (hload .joinHost hd (by decide))
  | joinOwnHost hd hj hr => exact remaining_lt_of_load rfl (hload .members hd (by decide))
  | joinHost hd hj hr hf => exact remaining_lt_of_load rfl (hload .joinRemote hd (by decide))
  | skipHost hd hj => exact remaining_lt_of_load rfl (hload .joinRemote hd (by decide))
  | joinOwnRemote hd hj hr => exact remaining_lt_of_load rfl (hload .members hd (by decide))
  | joinRemote hd hj hr hf => exact remaining_lt_of_load rfl (hload .members hd (by decide))
  | skipRemote hd hj => exact remaining_lt_of_load rfl (hload .members hd (by decide))
  | terminate hd hj => exact remaining_lt_of_load rfl (hload .aborted hd (by decide))
  | members hd hh hr => exact remaining_lt_of_load rfl (hload .done hd (by decide))

/-- The start of a destructor makes the measure smaller. -/
theorem remaining_lt_of_destroy (runner : Runner) (hd : c.destructor = none) :
    { c with destructor := some (runner, .closeRemote) }.remaining < c.remaining := by
  refine remaining_lt_of_load rfl ?_
  unfold load
  rw [hd]
  exact Nat.add_lt_add_left (show 5 < 6 by decide) _

/-- **Every step but an accept makes the measure smaller.** -/
theorem Steps.remaining_lt (hf : c.Framed) (hs : c.Steps a c')
    (ha : ∀ stream, a ≠ .accept stream) : c'.remaining < c.remaining := by
  cases hs with
  | accept ho hd => exact absurd rfl (ha _)
  | start hp hd =>
    refine remaining_lt_of_load (by rw [hp]; rfl) ?_
    unfold load
    rw [hp]
    exact Nat.add_lt_add_right (Nat.add_lt_add_right
      (Nat.add_lt_add_left (show 15 < 16 by decide) _) _) _
  | @host useCount out d hu hs =>
    have hlt := hs.remaining_lt hf
    obtain ⟨hcall, -, hdtor⟩ := hs.call hf
    unfold releaseHost
    split
    · next hlast =>
      rw [hlast] at hcall
      have hnone := hu.resolve_right (by rw [hcall.destroying.2]; exact Nat.one_ne_zero)
      exact (remaining_lt_of_destroy .host (hdtor.trans hnone)).trans hlt
    · exact hlt
  | @remote useCount out point r hu hp hs =>
    have hlt := relayedRemote_remaining_lt hp hs
    have hcall := remoteStep_call hp hs
    unfold releaseRemote
    split
    · next hlast =>
      rw [hlast] at hcall
      have hnone := hu.resolve_right (by rw [hcall.destroying.2]; exact Nat.one_ne_zero)
      exact (remaining_lt_of_destroy (c := c.relayedRemote r) .remote hnone).trans hlt
    · exact hlt
  | destroy hd => exact remaining_lt_of_destroy .main hd
  | destructor hs => exact hs.remaining_lt

end SocksConnection

end LklSocks
