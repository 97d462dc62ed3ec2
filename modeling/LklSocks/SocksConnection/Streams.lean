import LklSocks.SocksConnection.Steps

/-!
# The two streams of a connection

The program point of the host thread determines how far the two output streams are: what was
written to the host socket is the part of a reply that is written, and in the relay phase the
whole reply and then a prefix of what came from the remote; what was written to the remote socket
is a prefix of what `receiveHost` read.

## Main definitions

* `Streams`: what the sockets of a connection received and were sent, and its history
* `Streams.request`, `Streams.replyBytes`: the request that was read, and the replies to it
* `Streams.At`, `Streams.Relaying`: the streams before and in the relay phase
* `SocksConnection.Framed`: the invariant

## Main results

* `SocksConnection.framed`: the invariant holds in every reachable state
* `SocksConnection.streams_framed`: framing and order of both streams
-/

namespace LklSocks

/-- What the sockets of a connection received and were sent, and what `handshake` did. -/
structure Streams where
  order : ByteOrder
  requestBytes : List UInt8
  connects : List Endpoint
  replies : List Socks4Reply
  hostReceived : List UInt8
  hostSent : List UInt8
  remoteReceived : List UInt8
  remoteSent : List UInt8

namespace Streams

/-- The request that `handshake` has read, in host order. -/
def request (s : Streams) : Socks4Request :=
  (Socks4Request.load s.order (s.requestBytes.take Socks4Request.size)).toHost s.order

/-- The eight bytes of a reply to the request. -/
def replyBytes (s : Streams) (code : Socks4Reply) : List UInt8 :=
  (s.request.response s.order code).store s.order

@[simp] theorem length_replyBytes (s : Streams) (code : Socks4Reply) :
    (s.replyBytes code).length = 8 :=
  Socks4Response.length_store _ _

/-- Everything that came from the client was read by `handshake`, nothing went through the remote
socket, and `written` was written to the client. -/
structure Quiet (s : Streams) (written : List UInt8) (replies : List Socks4Reply) : Prop where
  hostReceived : s.hostReceived = s.requestBytes
  hostSent : s.hostSent = written
  remoteReceived : s.remoteReceived = []
  remoteSent : s.remoteSent = []
  replies : s.replies = replies

/-- The request was not yet read. -/
structure Unread (s : Streams) : Prop extends s.Quiet [] [] where
  connects : s.connects = []
  incomplete : s.requestBytes.length ≤ Socks4Request.size

/-- The request was read, and `remoteSocket.connect` was called for it. -/
structure Called (s : Streams) (written : List UInt8) (replies : List Socks4Reply) : Prop
    extends s.Quiet written replies where
  connects : s.connects = [s.request.endpoint]
  complete : Socks4Request.size < s.requestBytes.length

/-- `handshake` has failed, before the request was read, or after a part of a reply. -/
inductive Failed (s : Streams) : Prop
  | unread (h : s.Unread)
  | replied (code : Socks4Reply) (written : List UInt8) (h : s.Called written [code])
      (hw : written <+: s.replyBytes code)

/-- The streams at a point of `handshake` outside the relay phase. -/
def At (s : Streams) : HostPoint → Prop
  | .idle => s.Unread ∧ s.requestBytes = []
  | .readHeader header =>
    s.Unread ∧ s.requestBytes = header ∧ header.length < Socks4Request.size
  | .readUserdata header userdata =>
    s.Unread ∧ s.requestBytes = header ∧ header.length = Socks4Request.size ∧ userdata = []
  | .openRemote request => s.Called [] [] ∧ request = s.request
  | .connectRemote request => s.Called [] [] ∧ request = s.request
  | .writeReply code rest =>
    ∃ written, s.Called written [code] ∧ written ++ rest = s.replyBytes code ∧ rest ≠ []
  | .startRemote => s.Called (s.replyBytes .success) [.success]
  | .relay _ => False
  | .catchAll => s.Failed
  | .stop _ => s.Failed
  | .escaped => s.Failed

/-- The streams in the relay phase: both loops are pipes, and the one to the client starts after
the reply. -/
structure Relaying (s : Streams) (hostBuffer : Buffer) (hostPoint : RelayPoint)
    (remoteBuffer : Buffer) (remotePoint : RelayPoint) : Prop where
  host : ∃ input, s.hostReceived = s.requestBytes ++ input ∧
    Relays hostBuffer hostPoint input s.remoteSent
  remote : ∃ output, s.hostSent = s.replyBytes .success ++ output ∧
    Relays remoteBuffer remotePoint s.remoteReceived output
  replies : s.replies = [.success]
  connects : s.connects = [s.request.endpoint]
  complete : Socks4Request.size < s.requestBytes.length

/-- **Framing and order**: the client is sent a part of one reply and of what came from the remote,
more than the reply only if it is a success; and the remote is sent a part of what came from the
client after the bytes that `handshake` took. -/
structure InOrder (s : Streams) : Prop where
  host : s.replies = [] ∧ s.hostSent = [] ∨
    ∃ code, s.replies = [code] ∧ s.hostSent <+: s.replyBytes code ++ s.remoteReceived
  success : 8 < s.hostSent.length → s.replies = [.success]
  request : s.requestBytes <+: s.hostReceived
  remote : s.remoteSent <+: s.hostReceived.drop s.requestBytes.length

theorem Quiet.inOrder {s : Streams} {written : List UInt8} {replies : List Socks4Reply}
    (h : s.Quiet written replies)
    (hw : replies = [] ∧ written = [] ∨ ∃ code, replies = [code] ∧ written <+: s.replyBytes code) :
    s.InOrder := by
  obtain ⟨h₁, rfl, h₃, h₄, rfl⟩ := h
  refine ⟨?_, ?_, h₁ ▸ List.prefix_rfl, h₄ ▸ List.nil_prefix⟩
  · rcases hw with hw | ⟨code, hc, hw⟩
    · exact .inl hw
    · exact .inr ⟨code, hc, hw.trans (List.prefix_append _ _)⟩
  · intro hl
    rcases hw with ⟨-, hw⟩ | ⟨code, -, hw⟩
    · simp [hw] at hl
    · have := hw.length_le
      rw [length_replyBytes] at this
      omega

theorem Failed.inOrder {s : Streams} (h : s.Failed) : s.InOrder := by
  cases h with
  | unread h => exact h.inOrder (.inl ⟨rfl, rfl⟩)
  | replied code written h hw => exact h.inOrder (.inr ⟨code, rfl, hw⟩)

theorem At.inOrder {s : Streams} {point : HostPoint} (h : s.At point) : s.InOrder := by
  cases point with
  | idle => exact h.1.inOrder (.inl ⟨rfl, rfl⟩)
  | readHeader => exact h.1.inOrder (.inl ⟨rfl, rfl⟩)
  | readUserdata => exact h.1.inOrder (.inl ⟨rfl, rfl⟩)
  | openRemote => exact h.1.inOrder (.inl ⟨rfl, rfl⟩)
  | connectRemote => exact h.1.inOrder (.inl ⟨rfl, rfl⟩)
  | writeReply code rest =>
    obtain ⟨written, hc, hb, -⟩ := h
    exact hc.inOrder (.inr ⟨code, rfl, rest, hb⟩)
  | startRemote => exact Quiet.inOrder h.1 (.inr ⟨.success, rfl, List.prefix_rfl⟩)
  | relay => exact h.elim
  | catchAll => exact Failed.inOrder h
  | stop => exact Failed.inOrder h
  | escaped => exact Failed.inOrder h

theorem Relaying.inOrder {s : Streams} {hostBuffer remoteBuffer : Buffer}
    {hostPoint remotePoint : RelayPoint}
    (h : s.Relaying hostBuffer hostPoint remoteBuffer remotePoint) : s.InOrder := by
  obtain ⟨⟨input, hin, hhost⟩, ⟨output, hout, hremote⟩, hreplies, -, -⟩ := h
  refine ⟨.inr ⟨.success, hreplies, ?_⟩, fun _ => hreplies, ⟨input, hin.symm⟩, ?_⟩
  · rw [hout]
    exact List.prefix_append_right_inj _ |>.mpr hremote.output_prefix
  · rw [hin, List.drop_left]
    exact hhost.output_prefix

/-- `remoteSocket.connect` is called once the header and one more byte were read, and not
before. -/
def Calls (s : Streams) : Prop :=
  s.connects = [] ∧ s.replies = [] ∧ s.requestBytes.length ≤ Socks4Request.size ∨
    s.connects = [s.request.endpoint] ∧ Socks4Request.size < s.requestBytes.length

theorem Unread.calls {s : Streams} (h : s.Unread) : s.Calls :=
  .inl ⟨h.connects, h.replies, h.incomplete⟩

theorem Called.calls {s : Streams} {written : List UInt8} {replies : List Socks4Reply}
    (h : s.Called written replies) : s.Calls :=
  .inr ⟨h.connects, h.complete⟩

theorem Failed.calls {s : Streams} (h : s.Failed) : s.Calls := by
  cases h with
  | unread h => exact h.calls
  | replied _ _ h _ => exact h.calls

theorem At.calls {s : Streams} {point : HostPoint} (h : s.At point) : s.Calls := by
  cases point with
  | idle => exact h.1.calls
  | readHeader => exact h.1.calls
  | readUserdata => exact h.1.calls
  | openRemote => exact h.1.calls
  | connectRemote => exact h.1.calls
  | writeReply => exact h.choose_spec.1.calls
  | startRemote => exact Called.calls h
  | relay => exact h.elim
  | catchAll => exact Failed.calls h
  | stop => exact Failed.calls h
  | escaped => exact Failed.calls h

end Streams

namespace SocksConnection

def streams (c : SocksConnection) : Streams where
  order := c.order
  requestBytes := c.requestBytes
  connects := c.connects
  replies := c.replies
  hostReceived := c.hostSocket.received
  hostSent := c.hostSocket.sent
  remoteReceived := c.remoteSocket.received
  remoteSent := c.remoteSocket.sent

/-- The streams are as the program points of the threads say. -/
def Framed (c : SocksConnection) : Prop :=
  match c.hostThread with
  | .relay point => ∃ remotePoint, c.remoteThread = .relay remotePoint ∧
      c.streams.Relaying c.hostBuffer point c.remoteBuffer remotePoint
  | point => c.remoteThread = .idle ∧ c.streams.At point

theorem framed_create (order : ByteOrder) (a : Allocation) : (create order a).Framed :=
  ⟨rfl, ⟨⟨rfl, rfl, rfl, rfl, rfl⟩, rfl, Nat.zero_le _⟩, rfl⟩

variable {useCount : ℕ} {c c' : SocksConnection} {out : Outcome}

/-- Starting a reply. -/
theorem Framed.reply (hi : c.remoteThread = .idle) (h : c.streams.Called [] [])
    (code : Socks4Reply) : (c.reply code c.streams.request).Framed := by
  obtain ⟨⟨h₁, h₂, h₃, h₄, h₅⟩, h₆, h₇⟩ := h
  refine ⟨hi, [], ⟨⟨h₁, h₂, h₃, h₄, ?_⟩, h₆, h₇⟩, rfl, ?_⟩
  · show c.replies ++ [code] = [code]
    rw [show c.replies = [] from h₅, List.nil_append]
  · intro hn
    have hl := c.streams.length_replyBytes code
    have hn' : c.streams.replyBytes code = [] := hn
    rw [hn'] at hl
    cases hl

/-- The host thread keeps the invariant. -/
theorem Framed.handshake (h : c.Framed) (hs : c.HandshakeSteps useCount out c') : c'.Framed := by
  cases hs with
  | readHeader hp hr hlen =>
    simp only [Framed, hp] at h
    obtain ⟨hi, ⟨⟨h₁, h₂, h₃, h₄, h₅⟩, h₆, -⟩, rfl, -⟩ := h
    exact ⟨hi, ⟨⟨congrArg (· ++ _) h₁, h₂, h₃, h₄, h₅⟩, h₆, hlen.le⟩, rfl, hlen⟩
  | endHeader hp hr hlen =>
    simp only [Framed, hp] at h
    obtain ⟨hi, ⟨⟨h₁, h₂, h₃, h₄, h₅⟩, h₆, -⟩, rfl, -⟩ := h
    exact ⟨hi, ⟨⟨congrArg (· ++ _) h₁, h₂, h₃, h₄, h₅⟩, h₆, hlen.le⟩, rfl, hlen, rfl⟩
  | headerError hp hf =>
    simp only [Framed, hp] at h
    exact ⟨h.1, .unread h.2.1⟩
  | readUserdata hp hr =>
    rename_i header userdata bs
    simp only [Framed, hp] at h
    obtain ⟨hi, ⟨⟨h₁, h₂, h₃, h₄, h₅⟩, h₆, -⟩, rfl, hlen, -⟩ := h
    have htake : (c.requestBytes ++ bs).take Socks4Request.size = c.requestBytes :=
      List.take_left' hlen
    have hpos : 0 < bs.length := List.length_pos_iff.mpr hr.2.1
    refine ⟨hi, ⟨⟨congrArg (· ++ _) h₁, h₂, h₃, h₄, h₅⟩, ?_, ?_⟩, ?_⟩
    · show c.connects ++ _ = [((Socks4Request.load c.order
        ((c.requestBytes ++ bs).take Socks4Request.size)).toHost c.order).endpoint]
      rw [htake, show c.connects = [] from h₆, List.nil_append]
      rfl
    · show Socks4Request.size < (c.requestBytes ++ bs).length
      rw [List.length_append, show c.requestBytes.length = _ from hlen]
      omega
    · show _ = (Socks4Request.load c.order
        ((c.requestBytes ++ bs).take Socks4Request.size)).toHost c.order
      rw [htake]
      rfl
  | userdataError hp hf =>
    simp only [Framed, hp] at h
    exact ⟨h.1, .unread h.2.1⟩
  | openRemote hp =>
    simp only [Framed, hp] at h
    exact h
  | openError hp =>
    simp only [Framed, hp] at h
    obtain ⟨hi, hc, rfl⟩ := h
    exact .reply hi hc .failed
  | connected hp ho =>
    rename_i request incoming
    simp only [Framed, hp] at h
    obtain ⟨hi, hc, rfl⟩ := h
    exact Framed.reply (c := { c with remoteSocket := c.remoteSocket.connect incoming })
      hi hc .success
  | connectError hp =>
    simp only [Framed, hp] at h
    obtain ⟨hi, hc, rfl⟩ := h
    exact .reply hi hc .failed
  | writeReply hp hw hr =>
    rename_i code rest n
    simp only [Framed, hp] at h
    obtain ⟨hi, written, ⟨⟨h₁, h₂, h₃, h₄, h₅⟩, h₆, h₇⟩, hb, -⟩ := h
    refine ⟨hi, written ++ rest.take n, ⟨⟨h₁, congrArg (· ++ _) h₂, h₃, h₄, h₅⟩, h₆, h₇⟩, ?_, hr⟩
    rw [List.append_assoc, List.take_append_drop]
    exact hb
  | endReply hp hw hr =>
    rename_i code rest n
    simp only [Framed, hp] at h
    obtain ⟨hi, written, ⟨⟨h₁, h₂, h₃, h₄, h₅⟩, h₆, h₇⟩, hb, -⟩ := h
    have hc : Streams.Called
        { c.streams with hostSent := c.hostSocket.sent ++ rest }
        (c.streams.replyBytes code) [code] :=
      ⟨⟨h₁, (congrArg (· ++ _) h₂).trans hb, h₃, h₄, h₅⟩, h₆, h₇⟩
    cases code with
    | success => exact ⟨hi, hc⟩
    | _ => exact ⟨hi, .replied _ _ hc List.prefix_rfl⟩
  | replyError hp =>
    simp only [Framed, hp] at h
    obtain ⟨hi, written, hc, hb, -⟩ := h
    exact ⟨hi, .replied _ _ hc ⟨_, hb⟩⟩
  | startRemote hp =>
    simp only [Framed, hp] at h
    obtain ⟨hi, ⟨⟨h₁, h₂, h₃, h₄, h₅⟩, h₆, h₇⟩⟩ := h
    refine ⟨.read, rfl, ⟨[], ?_, ?_⟩, ⟨[], ?_, ?_⟩, h₅, h₆, h₇⟩
    · exact h₁.trans (List.append_nil _).symm
    · exact .start rfl h₄
    · exact h₂.trans (List.append_nil _).symm
    · exact .start h₃ rfl
  | startError hp =>
    simp only [Framed, hp] at h
    exact ⟨h.1, .replied _ _ h.2 List.prefix_rfl⟩
  | relay hp hs =>
    rename_i r
    simp only [Framed, hp] at h
    obtain ⟨q, hq, ⟨input, hin, hrel⟩, ⟨output, hout, hrem⟩, h₅, h₆, h₇⟩ := h
    obtain ⟨taken, given, hsr, hss, hdr, hds, hrel'⟩ := hs.relays hrel
    refine ⟨q, hq, ⟨input ++ taken, ?_, ?_⟩, ⟨output, hss.trans hout, ?_⟩, h₅, h₆, h₇⟩
    · exact (hsr.trans (congrArg (· ++ taken) hin)).trans (List.append_assoc _ _ _)
    · show Relays r.buf r.point (input ++ taken) r.dst.sent
      rw [hds]
      exact hrel'
    · show Relays c.remoteBuffer q r.dst.received output
      rw [hdr]
      exact hrem
  | expired hp hu =>
    simp only [Framed, hp] at h
    exact h
  | share hp hu =>
    simp only [Framed, hp] at h
    exact h
  | stop hp hc =>
    simp only [Framed, hp] at h
    exact h

/-- While the remote thread exists, the host thread is in its relay loop. -/
theorem Framed.exists_relaying {remotePoint : RelayPoint} (h : c.Framed)
    (hq : c.remoteThread = .relay remotePoint) :
    ∃ point, c.hostThread = .relay point ∧
      c.streams.Relaying c.hostBuffer point c.remoteBuffer remotePoint := by
  unfold Framed at h
  split at h
  · next point hp =>
    obtain ⟨q, hq', hr⟩ := h
    obtain rfl : remotePoint = q := RemotePoint.relay.inj (hq.symm.trans hq')
    exact ⟨point, hp, hr⟩
  · cases hq.symm.trans h.1

/-- The remote thread keeps the invariant. -/
theorem Framed.receiveRemote {remotePoint : RelayPoint} {r : Relay} (h : c.Framed)
    (hq : c.remoteThread = .relay remotePoint)
    (hs : Relay.Steps useCount ⟨c.remoteSocket, c.hostSocket, c.remoteBuffer, remotePoint⟩ out r) :
    (c.relayedRemote r).Framed := by
  obtain ⟨point, hp, ⟨input, hin, hhost⟩, ⟨output, hout, hremote⟩, h₅, h₆, h₇⟩ :=
    h.exists_relaying hq
  obtain ⟨taken, given, hsr, hss, hdr, hds, hremote'⟩ := hs.relays hremote
  simp only [Framed, relayedRemote, hp]
  refine ⟨r.point, rfl, ⟨input, hdr.trans hin, ?_⟩, ⟨output ++ given, ?_, ?_⟩, h₅, h₆, h₇⟩
  · show Relays c.hostBuffer _ input r.src.sent
    rw [hss]
    exact hhost
  · exact (hds.trans (congrArg (· ++ given) hout)).trans (List.append_assoc _ _ _)
  · show Relays r.buf r.point r.src.received (output ++ given)
    rw [hsr]
    exact hremote'

/-- Opening, closing and the destructor change nothing that the invariant speaks of. -/
theorem Framed.destroySteps {runner : Runner} (h : c.Framed) (hs : c.DestroySteps runner c') :
    c'.Framed := by
  cases hs <;> exact h

theorem Framed.releaseHost (h : c.Framed) : c.releaseHost.Framed := by
  obtain ⟨_, -, he⟩ := c.releaseHost_eq
  rw [he]
  exact h

theorem Framed.releaseRemote (h : c.Framed) : c.releaseRemote.Framed := by
  obtain ⟨_, -, he⟩ := c.releaseRemote_eq
  rw [he]
  exact h

/-- Every step of a connection keeps the invariant. -/
theorem Framed.steps {a : ConnectionAction} (h : c.Framed) (hs : c.Steps a c') : c'.Framed := by
  cases hs with
  | accept ho hd => exact h
  | start hp hd =>
    simp only [Framed, hp] at h
    obtain ⟨hi, hu, hr⟩ := h
    exact ⟨hi, hu, hr, by decide⟩
  | host hu hs => exact (h.handshake hs).releaseHost
  | remote hu hp hs => exact (h.receiveRemote hp hs).releaseRemote
  | destroy hd => exact h
  | destructor hs => exact h.destroySteps hs

/-- **The invariant of the streams** holds in every reachable state of a connection. -/
theorem framed (h : machine.Reachable c) : c.Framed := by
  refine h.invariant (P := Framed) ?_ ?_
  · rintro _ ⟨order, a, rfl⟩
    exact framed_create order a
  · intro c a c' _ hc ha
    exact hc.steps (step_cases ha)

theorem Framed.inOrder (h : c.Framed) : c.streams.InOrder := by
  unfold Framed at h
  split at h
  · obtain ⟨q, -, hr⟩ := h
    exact hr.inOrder
  · exact h.2.inOrder

/-! ## What is never written -/

/-- `handshake` has left the reply it began: a failure, or a reply that is not completely
written. -/
structure ReplyOver (c : SocksConnection) : Prop where
  begun : c.replies ≠ []
  left : ∀ code rest, c.hostThread ≠ .writeReply code rest
  refused : c.replies = [.failed] ∨ c.hostSocket.sent.length < 8

/-- The host thread is on its way out of `handshake`, and there is no remote thread. -/
structure Leaving (c : SocksConnection) : Prop where
  point : c.hostThread = .catchAll ∨ (∃ call, c.hostThread = .stop call) ∨ c.hostThread = .escaped
  remoteThread : c.remoteThread = .idle

theorem Framed.leaving (h : c.Framed) (ho : c.ReplyOver) : c.Leaving := by
  obtain ⟨hbegun, hleft, hrefused⟩ := ho
  -- the points after a complete reply of success are excluded by its length and its code
  cases hp : c.hostThread with
  | writeReply code rest => exact absurd hp (hleft code rest)
  | catchAll =>
    simp only [Framed, hp] at h
    exact ⟨.inl hp, h.1⟩
  | stop call =>
    simp only [Framed, hp] at h
    exact ⟨.inr (.inl ⟨call, hp⟩), h.1⟩
  | escaped =>
    simp only [Framed, hp] at h
    exact ⟨.inr (.inr hp), h.1⟩
  | startRemote =>
    simp only [Framed, hp] at h
    have hsent : c.hostSocket.sent = c.streams.replyBytes .success := h.2.hostSent
    have hreplies : c.replies = [.success] := h.2.replies
    simp [hsent, hreplies] at hrefused
  | relay point =>
    simp only [Framed, hp] at h
    obtain ⟨_, _, -, ⟨output, hout, -⟩, hreplies, -, -⟩ := h
    have hsent : c.hostSocket.sent = c.streams.replyBytes .success ++ output := hout
    have hreplies' : c.replies = [.success] := hreplies
    simp [hsent, hreplies'] at hrefused
  | _ =>
    simp only [Framed, hp] at h
    exact absurd h.2.1.replies hbegun

theorem Leaving.steps {a : ConnectionAction} (h : c.Leaving) (hs : c.Steps a c') :
    c'.Leaving ∧ c'.hostSocket.sent = c.hostSocket.sent := by
  obtain ⟨hpoint, hremote⟩ := h
  cases hs with
  | start hp hd => simp [hp] at hpoint
  | host hu hs =>
    rename_i d
    have hd : d.Leaving ∧ d.hostSocket.sent = c.hostSocket.sent := by
      cases hs with
      | expired hp hu => exact ⟨⟨.inr (.inr rfl), hremote⟩, rfl⟩
      | share hp hu => exact ⟨⟨.inr (.inl ⟨_, rfl⟩), hremote⟩, rfl⟩
      | stop hp hc => exact ⟨⟨.inr (.inl ⟨_, rfl⟩), hremote⟩, rfl⟩
      | _ => simp_all
    obtain ⟨_, -, he⟩ := d.releaseHost_eq
    rw [he]
    exact ⟨⟨hd.1.1, hd.1.2⟩, hd.2⟩
  | remote hu hq hs => cases hremote.symm.trans hq
  | destructor hs => cases hs <;> exact ⟨⟨hpoint, hremote⟩, rfl⟩
  | _ => exact ⟨⟨hpoint, hremote⟩, rfl⟩

/-- Nothing is written to the client after `handshake` has left its reply. -/
theorem Leaving.sent_eq {as : List ConnectionAction} (h : c.Leaving)
    (he : machine.exec c as = some c') : c'.hostSocket.sent = c.hostSocket.sent := by
  have hrun : c'.Leaving ∧ c'.hostSocket.sent = c.hostSocket.sent := by
    refine machine.exec_induction
      (P := fun _ d => d.Leaving ∧ d.hostSocket.sent = c.hostSocket.sent) ⟨h, rfl⟩ ?_ he
    rintro as d a e - ⟨hd, hsent⟩ hs
    obtain ⟨he, hsent'⟩ := hd.steps (step_cases hs)
    exact ⟨he, hsent'.trans hsent⟩
  exact hrun.2

/-- The remote thread runs only after the complete reply of success. -/
theorem Framed.success_of_remote {a : RelayPoint} (h : c.Framed) (hq : c.remoteThread = .relay a) :
    c.replies = [.success] ∧ c.streams.replyBytes .success <+: c.hostSocket.sent := by
  obtain ⟨_, -, -, ⟨output, hout, -⟩, hreplies, -, -⟩ := h.exists_relaying hq
  exact ⟨hreplies, output, hout.symm⟩

/-- **Framing and order of both streams** in every run of a connection: at any time the streams are
in order; the remote thread makes steps only after a complete reply of success; and after a
failure, or a reply that was left partly written, nothing more is written to the client. -/
theorem streams_framed (h : machine.Reachable c) :
    c.streams.InOrder ∧
    (∀ useCount out c', c.step (.remote useCount out) = some c' →
      c.replies = [.success] ∧ c.streams.replyBytes .success <+: c.hostSocket.sent) ∧
    (c.ReplyOver → ∀ as c', machine.exec c as = some c' →
      c'.hostSocket.sent = c.hostSocket.sent) := by
  have hf := framed h
  refine ⟨hf.inOrder, ?_, ?_⟩
  · intro useCount out c' hs
    cases step_cases hs with
    | remote _ hq _ => exact hf.success_of_remote hq
  · intro ho as c' he
    exact (hf.leaving ho).sent_eq he

/-- A request for the endpoint `10.0.0.1:80`, up to its user id. -/
def sampleHeader : List UInt8 := [4, 1, 0, 80, 10, 0, 0, 1]

/-- A new connection. -/
def sample : SocksConnection := create .little ⟨0, .zeros, .zeros⟩

/-- A run to the relay phase, in which both directions have moved data. -/
def sampleRun : List ConnectionAction :=
  [.accept (sampleHeader ++ [97, 0, 7]), .start, .host 1 (.data sampleHeader),
    .host 1 (.data [97, 0]), .host 1 .ok, .host 1 (.connected [9, 8]), .host 1 (.wrote 8),
    .host 1 .ok, .host 1 (.data [7]), .remote 1 (.data [9]), .host 1 (.wrote 1),
    .remote 1 (.wrote 1)]

theorem streams_framed_sample :
    ((machine.exec sample sampleRun).getD sample).streams.InOrder :=
  (streams_framed ⟨sample, sampleRun, ⟨_, _, rfl⟩, rfl⟩).1

end SocksConnection

end LklSocks
