import LklSocks.SocksConnection.Streams

/-!
# Reading the request

The bytes of the client arrive in any segmentation. The header is read byte by byte as it comes,
but the delimiter of `asio::read_until` is empty, so the user id is whatever the first read after
the header returns, and the rest of that read is lost with the buffer. Both what is forwarded and
what is accepted depend on where this read ends.

## Main definitions

* `hostReads`: the segments that the reads of the host socket returned in a run
* `Cut`: how the bytes that `handshake` took are cut into segments
* `SocksConnection.AcceptsExactly`: exactly the complete CONNECT requests are accepted

## Main results

* `SocksConnection.payload_exact_iff`: the payload is forwarded exactly when a read ends with the
  user id
* `SocksConnection.acceptsExactly_iff`: when `handshake` decides as the protocol says
-/

namespace LklSocks

/-- The segments that the reads of the host socket returned. -/
def hostReads (as : List ConnectionAction) : List (List UInt8) :=
  as.filterMap fun
    | .host _ (.data bs) => some bs
    | _ => none

theorem hostReads_append (as bs : List ConnectionAction) :
    hostReads (as ++ bs) = hostReads as ++ hostReads bs := List.filterMap_append

/-- Nonempty segments are determined by how many items they hold. -/
theorem segments_unique {α : Type*} {segments pre pre' post post' : List (List α)}
    (hn : ∀ s ∈ segments, s ≠ []) (h : segments = pre ++ post) (h' : segments = pre' ++ post')
    (hl : pre.flatten.length = pre'.flatten.length) : pre = pre' := by
  induction pre generalizing segments pre' with
  | nil =>
    cases pre' with
    | nil => rfl
    | cons s pre' =>
      have hs : 0 < s.length := List.length_pos_iff.mpr (hn s (by simp [h']))
      rw [List.flatten_cons, List.length_append, List.flatten_nil, List.length_nil] at hl
      omega
  | cons s pre ih =>
    cases pre' with
    | nil =>
      have hs : 0 < s.length := List.length_pos_iff.mpr (hn s (by simp [h]))
      rw [List.flatten_cons, List.length_append, List.flatten_nil, List.length_nil] at hl
      omega
    | cons t pre' =>
      subst h
      obtain ⟨rfl, htail⟩ : s = t ∧ pre ++ post = pre' ++ post' := by simpa using h'
      have hn' : ∀ x ∈ pre ++ post, x ≠ [] := fun x hx => hn x (List.mem_cons_of_mem _ hx)
      rw [ih hn' rfl htail (by simpa using hl)]

/-- The reads of `handshake`: they stay within the header, or they complete it and one more read
is taken whole. -/
inductive Cut (requestBytes : List UInt8) (segments : List (List UInt8)) : Prop
  | header (h : segments.flatten = requestBytes) (hl : requestBytes.length ≤ Socks4Request.size)
  | userdata (pre : List (List UInt8)) (bs : List UInt8) (post : List (List UInt8))
      (h : segments = pre ++ bs :: post) (hl : pre.flatten.length = Socks4Request.size)
      (hr : requestBytes = pre.flatten ++ bs) (hn : bs ≠ [])

/-- One more read, of the request or after it. -/
theorem Cut.snoc {requestBytes requestBytes' bs : List UInt8} {segments : List (List UInt8)}
    (h : Cut requestBytes segments)
    (hn : bs ≠ [])
    (hb : requestBytes' = requestBytes ++ bs ∧
        ((requestBytes ++ bs).length ≤ Socks4Request.size ∨
          requestBytes.length = Socks4Request.size) ∨
      requestBytes' = requestBytes ∧ Socks4Request.size < requestBytes.length) :
    Cut requestBytes' (segments ++ [bs]) := by
  cases h with
  | header h hl =>
    subst h
    rcases hb with ⟨rfl, hle | heq⟩ | ⟨rfl, hlt⟩
    · exact .header (by simp) hle
    · exact .userdata segments bs [] rfl heq rfl hn
    · omega
  | userdata pre b post h hl hr hb' =>
    have hpos := List.length_pos_iff.mpr hb'
    rcases hb with ⟨-, hle | heq⟩ | ⟨rfl, -⟩
    · rw [hr, List.length_append, List.length_append, hl] at hle
      omega
    · rw [hr, List.length_append, hl] at heq
      omega
    · exact .userdata pre b (post ++ [bs]) (by simp [h]) hl hr hb'

namespace SocksConnection

/-- A new connection whose host socket is accepted, from a client that sends `stream` and then
closes its side. -/
def accepted (order : ByteOrder) (a : Allocation) (stream : List UInt8) : SocksConnection :=
  { create order a with hostSocket := Socket.closed.connect stream }

theorem accepted_reachable (order : ByteOrder) (a : Allocation) (stream : List UInt8) :
    machine.Reachable (accepted order a stream) :=
  ⟨create order a, [.accept stream], ⟨order, a, rfl⟩, rfl⟩

/-- After the run with the host socket reads `segments`, of a client that sends `stream`. -/
structure Segmented (stream : List UInt8) (segments : List (List UInt8)) (c : SocksConnection) :
    Prop where
  framed : c.Framed
  isOpen : c.destructor = none → c.hostSocket.isOpen = true
  total : c.hostSocket.received ++ c.hostSocket.incoming = stream
  received : segments.flatten = c.hostSocket.received
  nonempty : ∀ s ∈ segments, s ≠ []
  cut : Cut c.requestBytes segments

variable {useCount : ℕ} {c c' : SocksConnection} {out : Outcome} {stream : List UInt8}
  {segments : List (List UInt8)}

/-- What a step of the host thread reads: nothing, a part of the request, or data to relay. -/
theorem HandshakeSteps.reads (hs : c.HandshakeSteps useCount out c') (hf : c.Framed) :
    c'.destructor = c.destructor ∧
    ((hostReads [.host useCount out] = [] ∧ c'.requestBytes = c.requestBytes ∧
        c'.hostSocket = { c'.hostSocket with
          isOpen := c.hostSocket.isOpen, received := c.hostSocket.received
          incoming := c.hostSocket.incoming }) ∨
      ∃ bs, out = .data bs ∧ c.hostSocket.CanRead bs ∧ c'.hostSocket = c.hostSocket.read bs ∧
        (c'.requestBytes = c.requestBytes ++ bs ∧
            ((c.requestBytes ++ bs).length ≤ Socks4Request.size ∨
              c.requestBytes.length = Socks4Request.size) ∨
          c'.requestBytes = c.requestBytes ∧ Socks4Request.size < c.requestBytes.length)) := by
  cases hs with
  | readHeader hp hr hlen =>
    simp only [Framed, hp] at hf
    obtain ⟨-, -, rfl, -⟩ := hf
    exact ⟨rfl, .inr ⟨_, rfl, hr, rfl, .inl ⟨rfl, .inl hlen.le⟩⟩⟩
  | endHeader hp hr hlen =>
    simp only [Framed, hp] at hf
    obtain ⟨-, -, rfl, -⟩ := hf
    exact ⟨rfl, .inr ⟨_, rfl, hr, rfl, .inl ⟨rfl, .inl hlen.le⟩⟩⟩
  | readUserdata hp hr =>
    simp only [Framed, hp] at hf
    obtain ⟨-, -, rfl, hlen, -⟩ := hf
    exact ⟨rfl, .inr ⟨_, rfl, hr, rfl, .inl ⟨rfl, .inr hlen⟩⟩⟩
  | relay hp hs =>
    simp only [Framed, hp] at hf
    obtain ⟨_, -, hrel⟩ := hf
    cases hs with
    | read _ hr hb => exact ⟨rfl, .inr ⟨_, rfl, hr, rfl, .inr ⟨rfl, hrel.complete⟩⟩⟩
    | _ => exact ⟨rfl, .inl ⟨rfl, rfl, rfl⟩⟩
  | _ => exact ⟨rfl, .inl ⟨rfl, rfl, rfl⟩⟩

/-- A step of the host thread adds the segment it reads. -/
theorem Segmented.handshake (h : Segmented stream segments c)
    (hs : c.HandshakeSteps useCount out c') :
    Segmented stream (segments ++ hostReads [.host useCount out]) c' := by
  obtain ⟨hf, ho, ht, hr, hn, hc⟩ := h
  obtain ⟨hd, ⟨hnone, hb, hsock⟩ | ⟨bs, rfl, hcan, hsock, hb⟩⟩ := hs.reads hf
  · rw [hnone, List.append_nil]
    refine ⟨hf.handshake hs, ?_, ?_, ?_, hn, hb ▸ hc⟩
    · rw [hd, hsock]
      exact ho
    · rw [hsock]
      exact ht
    · rw [hsock]
      exact hr
  · refine ⟨hf.handshake hs, ?_, ?_, ?_, ?_, hc.snoc hcan.2.1 hb⟩
    · rw [hd, hsock]
      exact ho
    · rw [hsock, hcan.total, ht]
    · rw [hsock, Socket.read_received, List.flatten_append, hr]
      simp [hostReads]
    · intro s hs
      rcases List.mem_append.mp hs with hs | hs
      · exact hn s hs
      · obtain rfl : s = bs := by simpa [hostReads] using hs
        exact hcan.2.1

/-- Every step of a connection adds the segment it reads from the client. -/
theorem Segmented.steps {a : ConnectionAction} (h : Segmented stream segments c)
    (hs : c.Steps a c') : Segmented stream (segments ++ hostReads [a]) c' := by
  have hf := h.framed.steps hs
  cases hs with
  | accept ho hd =>
    rw [h.isOpen hd] at ho
    cases ho
  | host hu hs =>
    obtain ⟨-, ho, ht, hr, hn, hc⟩ := h.handshake hs
    rename_i d
    obtain ⟨e, hd, he⟩ := d.releaseHost_eq
    rw [he] at hf ⊢
    refine ⟨hf, ?_, ht, hr, hn, hc⟩
    rintro rfl
    exact hd.elim (fun hd => ho hd.symm) nofun
  | remote hu hq hs =>
    have hdst := hs.dst_eq
    rename_i u out q r
    obtain ⟨e, hd, he⟩ := (c.relayedRemote r).releaseRemote_eq
    rw [he] at hf ⊢
    rw [show hostReads [.remote u out] = [] from rfl, List.append_nil]
    refine ⟨hf, ?_, ?_, ?_, h.nonempty, h.cut⟩
    · rintro rfl
      show r.dst.isOpen = true
      rw [hdst]
      exact hd.elim (fun hd => h.isOpen hd.symm) nofun
    · show r.dst.received ++ r.dst.incoming = stream
      rw [hdst]
      exact h.total
    · show segments.flatten = r.dst.received
      rw [hdst]
      exact h.received
  | start hp hd =>
    rw [show hostReads [.start] = [] from rfl, List.append_nil]
    exact ⟨hf, h.isOpen, h.total, h.received, h.nonempty, h.cut⟩
  | destroy hd =>
    rw [show hostReads [.destroy] = [] from rfl, List.append_nil]
    exact ⟨hf, nofun, h.total, h.received, h.nonempty, h.cut⟩
  | destructor hs =>
    rw [show hostReads [.destructor] = [] from rfl, List.append_nil]
    cases hs <;> exact ⟨hf, nofun, h.total, h.received, h.nonempty, h.cut⟩

/-- **Every run segments the stream of the client.** -/
theorem segmented_of_exec {order : ByteOrder} {a : Allocation} {as : List ConnectionAction}
    (h : machine.exec (accepted order a stream) as = some c) :
    Segmented stream (hostReads as) c := by
  refine machine.exec_induction (P := fun as c => Segmented stream (hostReads as) c) ?_ ?_ h
  · exact ⟨framed (accepted_reachable order a stream), fun _ => rfl, rfl, rfl, nofun,
      .header rfl (Nat.zero_le _)⟩
  · intro as d e f _ hd hs
    rw [hostReads_append]
    exact hd.steps (step_cases hs)

/-! ## The payload -/

/-- **Payload exactness.** A client sends a header, a user id with its zero byte and a payload, and
`receiveHost` has relayed everything up to the EOF of the client. Then the remote was sent exactly
the payload if and only if the first read after the header returned exactly the user id and its
zero byte. -/
theorem payload_exact_iff {order : ByteOrder} {a : Allocation} {header userId payload : List UInt8}
    {as : List ConnectionAction} (hh : header.length = Socks4Request.size)
    (he : machine.exec (accepted order a (header ++ (userId ++ 0 :: payload))) as = some c)
    (hr : c.hostThread = .relay .read) (hi : c.hostSocket.incoming = []) :
    c.remoteSocket.sent = payload ↔
      ∃ pre post, hostReads as = pre ++ (userId ++ [0]) :: post ∧ pre.flatten = header := by
  obtain ⟨hf, -, ht, -, hn, hc⟩ := segmented_of_exec he
  simp only [Framed, hr] at hf
  obtain ⟨_, -, ⟨input, hin, hrel⟩, -, -, -, hlt⟩ := hf
  have hsent : c.remoteSocket.sent = input := by
    have hmoving := hrel.moving trivial
    rwa [RelayPoint.unwritten_read, List.append_nil] at hmoving
  cases hc with
  | header h hl => exact absurd hlt (not_lt.mpr hl)
  | userdata pre bs post h hl hb hne =>
    have hstream : pre.flatten ++ (bs ++ input) = header ++ (userId ++ 0 :: payload) := by
      rw [← ht, hi, List.append_nil, show c.hostSocket.received = c.requestBytes ++ input from hin,
        hb, List.append_assoc]
    obtain ⟨hpre, hrest⟩ := List.append_inj hstream (hl.trans hh.symm)
    have hsplit : bs ++ input = (userId ++ [0]) ++ payload := by simpa using hrest
    rw [hsent]
    constructor
    · rintro rfl
      obtain rfl := List.append_cancel_right hsplit
      exact ⟨pre, post, h, hpre⟩
    · rintro ⟨pre', post', h', hpre'⟩
      -- there is one way to cut the segments after the header
      obtain rfl : pre = pre' :=
        segments_unique hn h h' (by rw [hpre, hpre'])
      obtain ⟨rfl, -⟩ : bs = userId ++ [0] ∧ post = post' := by
        simpa using h.symm.trans h'
      exact List.append_cancel_left hsplit

/-- A connection in the relay phase: the client has sent its request, the user id in a segment of
its own, and one byte. -/
def relayed : SocksConnection :=
  (machine.exec (accepted .little ⟨0, .zeros, .zeros⟩ (sampleHeader ++ ([97] ++ 0 :: [7])))
    sampleRun.tail).getD sample

theorem exec_relayed :
    machine.exec (accepted .little ⟨0, .zeros, .zeros⟩ (sampleHeader ++ ([97] ++ 0 :: [7])))
      sampleRun.tail = some relayed := rfl

theorem payload_exact_relayed :
    relayed.remoteSocket.sent = [7] ↔
      ∃ pre post, hostReads sampleRun.tail = pre ++ ([97] ++ [0]) :: post ∧
        pre.flatten = sampleHeader :=
  payload_exact_iff rfl exec_relayed rfl rfl

/-- A client sends the whole request and its payload in one segment: the payload is lost. -/
theorem payload_not_exact :
    ¬ ∀ (order : ByteOrder) (a : Allocation) (header userId payload : List UInt8)
      (as : List ConnectionAction) (c : SocksConnection),
      header.length = Socks4Request.size → 0 ∉ userId →
      machine.exec (accepted order a (header ++ (userId ++ 0 :: payload))) as = some c →
      c.hostThread = .relay .read → c.hostSocket.incoming = [] →
      c.remoteSocket.sent = payload := by
  intro h
  have hlost := h .little ⟨0, .zeros, .zeros⟩ sampleHeader [97] [7]
    [.start, .host 1 (.data sampleHeader), .host 1 (.data [97, 0, 7]), .host 1 .ok,
      .host 1 (.connected []), .host 1 (.wrote 8), .host 1 .ok] _ rfl (by decide) rfl rfl rfl
  exact absurd hlost (by decide)

/-! ## Acceptance -/

/-- Exactly the complete CONNECT requests are accepted: `remoteSocket.connect` is called when the
bytes that arrived are one, with the endpoint it names, and a success is only reported then. -/
structure AcceptsExactly (c : SocksConnection) : Prop where
  connect_iff : c.connects ≠ [] ↔ IsConnectRequest c.requestBytes
  endpoint : ∀ e ∈ c.connects, e = Endpoint.ofHeader c.requestBytes
  success : Socks4Reply.success ∈ c.replies → IsConnectRequest c.requestBytes

theorem Framed.calls (h : c.Framed) : c.streams.Calls := by
  unfold Framed at h
  split at h
  · obtain ⟨_, -, hr⟩ := h
    exact .inr ⟨hr.connects, hr.complete⟩
  · exact h.2.calls

/-- **What is accepted.** At any time in any run, exactly the complete CONNECT requests are
accepted if and only if the header, when it was followed by another read, has the version and the
command of a CONNECT request, and that read contains a zero byte. -/
theorem acceptsExactly_iff {order : ByteOrder} {a : Allocation} {as : List ConnectionAction}
    (he : machine.exec (accepted order a stream) as = some c) :
    c.AcceptsExactly ↔
      ∀ pre bs post, hostReads as = pre ++ bs :: post →
        pre.flatten.length = Socks4Request.size →
        pre.flatten.take 2 = [SocksRequestVersion.requestSocks4.toByte,
          Socks4Command.connect.toByte] ∧ 0 ∈ bs := by
  obtain ⟨hf, -, -, -, hn, hc⟩ := segmented_of_exec he
  cases hc with
  | header h hl =>
    have hno : ¬ IsConnectRequest c.requestBytes := fun hr => by
      have := hr.length_le
      rw [Socks4Request.size] at hl
      omega
    obtain ⟨hconnects, hreplies, -⟩ | ⟨-, hlt⟩ := hf.calls
    · refine ⟨?_, fun _ => ⟨?_, ?_, ?_⟩⟩
      · intro _ pre bs post hcut hpre
        have hbs : bs ≠ [] := hn bs (by simp [hcut])
        have hpos := List.length_pos_iff.mpr hbs
        rw [← h, hcut, List.flatten_append, List.flatten_cons] at hl
        simp only [List.length_append] at hl
        omega
      · have hconnects' : c.connects = [] := hconnects
        simp [hconnects', hno]
      · have hconnects' : c.connects = [] := hconnects
        simp [hconnects']
      · have hreplies' : c.replies = [] := hreplies
        simp [hreplies']
    · exact absurd hlt (not_lt.mpr hl)
  | userdata pre bs post hcut hl hb hne =>
    -- `bs` followed the header, so the connect was called whatever both are
    have hpos := List.length_pos_iff.mpr hne
    have hlt : Socks4Request.size < c.requestBytes.length := by
      rw [hb, List.length_append]
      omega
    have hconnects : c.connects = [c.streams.request.endpoint] := by
      obtain ⟨-, -, hle⟩ | ⟨hconnects, -⟩ := hf.calls
      · exact absurd hlt (not_lt.mpr hle)
      · exact hconnects
    have hendpoint : c.streams.request.endpoint = Endpoint.ofHeader c.requestBytes := by
      have htake : c.requestBytes.take Socks4Request.size = pre.flatten := by
        rw [hb, List.take_left' hl]
      rw [Streams.request, show c.streams.requestBytes = c.requestBytes from rfl, htake, hb]
      exact endpoint_load _ hl bs
    have hiff := isConnectRequest_append hl bs
    rw [← hb] at hiff
    constructor
    · rintro ⟨hconnect, -, -⟩ pre' bs' post' hcut' hl'
      obtain rfl : pre = pre' := segments_unique hn hcut hcut' (hl.trans hl'.symm)
      obtain ⟨rfl, -⟩ : bs = bs' ∧ post = post' := by simpa using hcut.symm.trans hcut'
      exact hiff.mp (hconnect.mp (by simp [hconnects]))
    · intro h
      have hr := hiff.mpr (h pre bs post hcut hl)
      exact ⟨by simp [hconnects, hr], by simp [hconnects, hendpoint], fun _ => hr⟩

theorem acceptsExactly_relayed :
    relayed.AcceptsExactly ↔
      ∀ pre bs post, hostReads sampleRun.tail = pre ++ bs :: post →
        pre.flatten.length = Socks4Request.size →
        pre.flatten.take 2 = [SocksRequestVersion.requestSocks4.toByte,
          Socks4Command.connect.toByte] ∧ 0 ∈ bs :=
  acceptsExactly_iff exec_relayed

/-- A request of version 5 is accepted. -/
theorem not_acceptsExactly :
    ¬ ∀ (order : ByteOrder) (a : Allocation) (stream : List UInt8) (as : List ConnectionAction)
      (c : SocksConnection),
      machine.exec (accepted order a stream) as = some c → c.AcceptsExactly := by
  intro h
  have haccepts := h .little ⟨0, .zeros, .zeros⟩ [5, 1, 0, 80, 10, 0, 0, 1, 0]
    [.start, .host 1 (.data [5, 1, 0, 80, 10, 0, 0, 1]), .host 1 (.data [0])] _ rfl
  obtain ⟨p₀, p₁, a₀, a₁, a₂, a₃, userId, rest, hb, -⟩ :=
    haccepts.connect_iff.mp (List.cons_ne_nil _ _)
  exact absurd (List.cons.inj hb).1 (by decide)

end SocksConnection

end LklSocks
