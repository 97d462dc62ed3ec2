import LklSocks.SocksConnection.Threads
import LklSocks.SocksConnection.Request

/-!
# How a handshake ends

`handshake` ends in one of two ways. Either one of its calls throws, then no relay loop runs and
the `catch (...)` calls `stopConnection` once; or none does, then both relay loops start, and
`handshake` calls nothing more. The client is replied to when `remoteSocket.connect` has returned
or thrown, and not before. The reply to a connect that has thrown can fail in turn, and then the
second exception is the one that gets to the `catch (...)`.

## Main definitions

* `HandshakeCall`: the calls of `handshake` that can throw
* `HandshakeEvent`, `SocksConnection.handshakeEvents`: what a step of the handshake does
* `HandshakeEvent.Failed`: the events of a handshake that has thrown
* `SocksConnection.Attempted`: the write of a reply has returned or thrown
* `SocksConnection.HandshakeOutcome`: how the handshake of a connection has gone so far

## Main results

* `SocksConnection.handshake_outcome`: the outcome in every run
-/

namespace LklSocks

/-- The calls of `handshake` that can throw. -/
inductive HandshakeCall
  | readHeader
  | readUserdata
  | openRemote
  | connectRemote
  | writeReply (code : Socks4Reply)
  | startRemote
  deriving DecidableEq, Repr

namespace HandshakeCall

/-- The call reads the request. -/
def Reads : HandshakeCall → Prop
  | readHeader => True
  | readUserdata => True
  | _ => False

/-- The call belongs to `remoteSocket.connect`, which opens the socket first. -/
def Connects : HandshakeCall → Prop
  | openRemote => True
  | connectRemote => True
  | _ => False

theorem reads_iff {call : HandshakeCall} :
    call.Reads ↔ call = .readHeader ∨ call = .readUserdata := by
  cases call <;> simp [Reads]

theorem connects_iff {call : HandshakeCall} :
    call.Connects ↔ call = .openRemote ∨ call = .connectRemote := by
  cases call <;> simp [Connects]

end HandshakeCall

/-- What a step of the host thread does: a call of `handshake` throws, `remoteSocket.connect`
returns, the `asio::write` of a reply returns, the remote thread is created and `receiveHost`
entered; and `stopConnection` posts its handler, for the `catch (...)` or for `receiveHost`. -/
inductive HandshakeEvent
  | threw (call : HandshakeCall)
  | connected
  | replied (code : Socks4Reply)
  | relaying
  | posted
  | relayPosted
  deriving DecidableEq, Repr

namespace HandshakeEvent

/-- The reply that follows an event. -/
def reply : HandshakeEvent → Option Socks4Reply
  | threw .openRemote => some .failed
  | threw .connectRemote => some .failed
  | connected => some .success
  | _ => none

/-- The handler of a call of `stopConnection`, once it is posted. -/
def handler (e : HandshakeEvent) (call : Option StopCall) : List HandshakeEvent :=
  if HasPosted call then [e] else []

/-- What the next step of a call of `stopConnection` posts. -/
def post (e : HandshakeEvent) (call : Option StopCall) : List HandshakeEvent :=
  if call = some .argument then [e] else []

/-- A handshake has thrown and has reached its `catch (...)`. -/
inductive Failed : List HandshakeEvent → Prop
  | unread {call : HandshakeCall} (hc : call.Reads) : Failed [threw call]
  | refused {call : HandshakeCall} (hc : call.Connects) : Failed [threw call, replied .failed]
  | unreported {call : HandshakeCall} (hc : call.Connects) :
      Failed [threw call, threw (.writeReply .failed)]
  | unanswered : Failed [connected, threw (.writeReply .success)]
  | unstarted : Failed [connected, replied .success, threw .startRemote]

/-- The events up to a program point of the host thread. -/
def At (events : List HandshakeEvent) : HostPoint → Prop
  | .writeReply code _ =>
    code = .success ∧ events = [connected] ∨
      code = .failed ∧ ∃ call : HandshakeCall, call.Connects ∧ events = [threw call]
  | .startRemote => events = [connected, replied .success]
  | .relay point =>
    events = [connected, replied .success, relaying] ++ relayPosted.handler point.call
  | .catchAll => Failed events
  | .escaped => Failed events
  | .stop call => ∃ failed, Failed failed ∧ events = failed ++ posted.handler (some call)
  | _ => events = []

end HandshakeEvent

namespace SocksConnection

open HandshakeEvent

/-- The events of a step of the host thread. -/
def hostEvents (c : SocksConnection) (out : Outcome) : List HandshakeEvent :=
  match c.hostThread, out with
  | .readHeader _, .error _ => [threw .readHeader]
  | .readUserdata _ _, .error _ => [threw .readUserdata]
  | .openRemote _, .error _ => [threw .openRemote]
  | .connectRemote _, .connected _ => [connected]
  | .connectRemote _, .error _ => [threw .connectRemote]
  | .writeReply code rest, .wrote n => if rest.drop n = [] then [replied code] else []
  | .writeReply code _, .error _ => [threw (.writeReply code)]
  | .startRemote, .ok => [relaying]
  | .startRemote, .error _ => [threw .startRemote]
  | .relay point, _ => relayPosted.post point.call
  | .stop call, _ => posted.post (some call)
  | _, _ => []

/-- What a step does for the handshake. -/
def handshakeEvents (c : SocksConnection) : ConnectionAction → List HandshakeEvent
  | .host _ out => c.hostEvents out
  | _ => []

variable {useCount : ℕ} {c c' : SocksConnection} {a : ConnectionAction} {out : Outcome}
  {events : List HandshakeEvent}

/-- A step of a call adds its handler when it posts it. -/
theorem handler_append_post {call call' : Option StopCall} (h : CallStep useCount call call')
    (e : HandshakeEvent) : e.handler call ++ e.post call = e.handler call' := by
  unfold handler post
  simp only [h.hasPosted_iff]
  by_cases hc : call = some .argument
  · subst hc
    simp [HasPosted]
  · simp [hc]

/-! ## The replies -/

theorem HandshakeSteps.replies_eq (hs : c.HandshakeSteps useCount out c') :
    c'.replies = c.replies ++ (c.hostEvents out).filterMap HandshakeEvent.reply := by
  cases hs with
  | relay hp hs =>
    simp only [hostEvents, hp, post]
    split <;> simp [relayedHost, HandshakeEvent.reply]
  | stop hp hc =>
    simp only [hostEvents, hp, post]
    split <;> simp [HandshakeEvent.reply]
  | writeReply hp hw hr => simp [hostEvents, hp, hr]
  | endReply hp hw hr => simp [hostEvents, hp, hr, HandshakeEvent.reply]
  | _ hp => simp [hostEvents, hp, HandshakeEvent.reply, SocksConnection.reply]

theorem Steps.replies_eq (hs : c.Steps a c') :
    c'.replies = c.replies ++ (c.handshakeEvents a).filterMap HandshakeEvent.reply := by
  cases hs with
  | host hu hs =>
    rename_i d
    have hd := hs.replies_eq
    obtain ⟨_, -, he⟩ := d.releaseHost_eq
    rw [he]
    exact hd
  | remote hu hq hs =>
    rename_i r
    obtain ⟨_, -, he⟩ := (c.relayedRemote r).releaseRemote_eq
    rw [he]
    exact (List.append_nil _).symm
  | destructor hs => cases hs <;> exact (List.append_nil _).symm
  | _ => exact (List.append_nil _).symm

/-! ## The program points -/

theorem at_handshake (h : At events c.hostThread) (hs : c.HandshakeSteps useCount out c') :
    At (events ++ c.hostEvents out) c'.hostThread := by
  cases hs with
  | relay hp hs =>
    rename_i point r
    rw [hp] at h
    obtain rfl : events = _ ++ relayPosted.handler point.call := h
    simp only [hostEvents, hp]
    rw [List.append_assoc, handler_append_post hs.call]
    rfl
  | stop hp hc =>
    rw [hp] at h
    obtain ⟨failed, hf, rfl⟩ := h
    simp only [hostEvents, hp]
    rw [List.append_assoc, handler_append_post (.next hc)]
    exact ⟨failed, hf, rfl⟩
  | share hp hu =>
    rw [hp] at h
    simp only [hostEvents, hp, List.append_nil]
    exact ⟨events, h, by simp [handler, HasPosted]⟩
  | writeReply hp hw hr =>
    rw [hp] at h
    simp only [hostEvents, hp, hr, if_false, List.append_nil]
    exact h
  | endReply hp hw hr =>
    rw [hp] at h
    simp only [hostEvents, hp, hr, if_true]
    obtain ⟨rfl, rfl⟩ | ⟨rfl, call, hc, rfl⟩ := h
    · rfl
    · exact .refused hc
  | replyError hp =>
    rw [hp] at h
    simp only [hostEvents, hp]
    obtain ⟨rfl, rfl⟩ | ⟨rfl, call, hc, rfl⟩ := h
    · exact .unanswered
    · exact .unreported hc
  | openError hp =>
    rw [hp] at h
    obtain rfl : events = [] := h
    simp only [hostEvents, hp, List.nil_append]
    exact .inr ⟨rfl, .openRemote, trivial, rfl⟩
  | connectError hp =>
    rw [hp] at h
    obtain rfl : events = [] := h
    simp only [hostEvents, hp, List.nil_append]
    exact .inr ⟨rfl, .connectRemote, trivial, rfl⟩
  | connected hp ho =>
    rw [hp] at h
    obtain rfl : events = [] := h
    simp only [hostEvents, hp, List.nil_append]
    exact .inl ⟨rfl, rfl⟩
  | headerError hp hf =>
    rw [hp] at h
    obtain rfl : events = [] := h
    simp only [hostEvents, hp, List.nil_append]
    exact .unread (show HandshakeCall.readHeader.Reads from trivial)
  | userdataError hp hf =>
    rw [hp] at h
    obtain rfl : events = [] := h
    simp only [hostEvents, hp, List.nil_append]
    exact .unread (show HandshakeCall.readUserdata.Reads from trivial)
  | startRemote hp =>
    rw [hp] at h
    obtain rfl : events = _ := h
    simp [hostEvents, hp, At, handler, HasPosted, RelayPoint.call]
  | startError hp =>
    rw [hp] at h
    obtain rfl : events = _ := h
    simp only [hostEvents, hp]
    exact .unstarted
  | _ hp =>
    rw [hp] at h
    simp only [hostEvents, hp, List.append_nil]
    exact h

theorem at_steps (h : At events c.hostThread) (hs : c.Steps a c') :
    At (events ++ c.handshakeEvents a) c'.hostThread := by
  cases hs with
  | host hu hs =>
    rename_i d
    rw [d.releaseHost_threads.1]
    exact at_handshake h hs
  | remote hu hq hs =>
    rename_i r
    rw [(c.relayedRemote r).releaseRemote_threads.1]
    simpa [handshakeEvents, relayedRemote] using h
  | start hp hd =>
    rw [hp] at h
    obtain rfl : events = [] := h
    rfl
  | destructor hs =>
    rw [hs.threads.1]
    simpa [handshakeEvents] using h
  | _ => simpa [handshakeEvents] using h

/-! ## What the events tell -/

/-- The write of a reply has returned, or has thrown. -/
def Attempted (events : List HandshakeEvent) (code : Socks4Reply) : Prop :=
  replied code ∈ events ∨ threw (.writeReply code) ∈ events

/-- A call of `handshake` has thrown. -/
def Threw (events : List HandshakeEvent) : Prop := ∃ call, threw call ∈ events

@[simp] theorem mem_handler {e f : HandshakeEvent} {call : Option StopCall} :
    f ∈ e.handler call ↔ HasPosted call ∧ f = e := by
  unfold handler
  split <;> simp [*]

@[simp] theorem filterMap_handler {e : HandshakeEvent} (he : e.reply = none)
    (call : Option StopCall) : (e.handler call).filterMap HandshakeEvent.reply = [] := by
  unfold handler
  split <;> simp [he]

theorem count_handler (e : HandshakeEvent) (call : Option StopCall) :
    (e.handler call).count e = if HasPosted call then 1 else 0 := by
  unfold handler
  split <;> simp

theorem failed_threw (h : Failed events) : Threw events := by
  cases h with
  | unread hc => exact ⟨_, List.mem_cons_self⟩
  | refused hc => exact ⟨_, List.mem_cons_self⟩
  | unreported hc => exact ⟨_, List.mem_cons_self⟩
  | unanswered => exact ⟨.writeReply .success, by simp⟩
  | unstarted => exact ⟨.startRemote, by simp⟩

theorem failed_notMem (h : Failed events) :
    posted ∉ events ∧ relaying ∉ events ∧ relayPosted ∉ events := by
  cases h <;> simp

/-- The replies that the events ask for: at most one, none if the request was not read, and the
one that was attempted, if one was; and the relay starts right after the reply of a success. -/
structure Replied (events : List HandshakeEvent) : Prop where
  one : (events.filterMap HandshakeEvent.reply).length ≤ 1
  unread : ∀ call : HandshakeCall, call.Reads → threw call ∈ events →
    events.filterMap HandshakeEvent.reply = []
  attempted : ∀ code, Attempted events code → events.filterMap HandshakeEvent.reply = [code]
  entered : relaying ∈ events → [connected, replied .success, relaying] <+: events

theorem failed_replied (h : Failed events) : Replied events := by
  have hno : relaying ∉ events := (failed_notMem h).2.1
  cases h with
  | unread hc =>
    obtain rfl | rfl := HandshakeCall.reads_iff.mp hc
    · exact ⟨by decide, fun _ _ _ => rfl, by simp [Attempted], fun hr => absurd hr hno⟩
    · exact ⟨by decide, fun _ _ _ => rfl, by simp [Attempted], fun hr => absurd hr hno⟩
  | refused hc =>
    obtain rfl | rfl := HandshakeCall.connects_iff.mp hc
    · exact ⟨by decide, by simp [HandshakeCall.reads_iff],
        by simp [Attempted, HandshakeEvent.reply], fun hr => absurd hr hno⟩
    · exact ⟨by decide, by simp [HandshakeCall.reads_iff],
        by simp [Attempted, HandshakeEvent.reply], fun hr => absurd hr hno⟩
  | unreported hc =>
    obtain rfl | rfl := HandshakeCall.connects_iff.mp hc
    · exact ⟨by decide, by simp [HandshakeCall.reads_iff],
        by simp [Attempted, HandshakeEvent.reply], fun hr => absurd hr hno⟩
    · exact ⟨by decide, by simp [HandshakeCall.reads_iff],
        by simp [Attempted, HandshakeEvent.reply], fun hr => absurd hr hno⟩
  | unanswered =>
    exact ⟨by decide, by simp [HandshakeCall.reads_iff],
      by simp [Attempted, HandshakeEvent.reply], fun hr => absurd hr hno⟩
  | unstarted =>
    exact ⟨by decide, by simp [HandshakeCall.reads_iff],
      by simp [Attempted, HandshakeEvent.reply], fun hr => absurd hr hno⟩

/-- Neither the relay loops nor a call of `stopConnection` change the replies. -/
theorem Replied.append_handler (h : Replied events) {e : HandshakeEvent}
    (he : e = posted ∨ e = relayPosted) (call : Option StopCall) :
    Replied (events ++ e.handler call) := by
  obtain ⟨hone, hunread, hattempted, hentered⟩ := h
  have hreply : e.reply = none := by rcases he with rfl | rfl <;> rfl
  have hreplies : (events ++ e.handler call).filterMap HandshakeEvent.reply =
      events.filterMap HandshakeEvent.reply := by
    rw [List.filterMap_append, filterMap_handler hreply, List.append_nil]
  have hmem {f : HandshakeEvent} (hp : f ≠ posted) (hr : f ≠ relayPosted)
      (hf : f ∈ events ++ e.handler call) : f ∈ events := by
    rcases List.mem_append.mp hf with hf | hf
    · exact hf
    · obtain rfl := (mem_handler.mp hf).2
      exact (he.elim hp hr).elim
  refine ⟨hreplies ▸ hone, ?_, ?_, ?_⟩
  · intro thrown hreads hthrew
    rw [hreplies]
    exact hunread thrown hreads (hmem nofun nofun hthrew)
  · intro code hcode
    rw [hreplies]
    exact hattempted code (hcode.imp (hmem nofun nofun) (hmem nofun nofun))
  · intro hr
    exact (hentered (hmem nofun nofun hr)).trans (List.prefix_append _ _)

theorem at_replied {p : HostPoint} (h : At events p) : Replied events := by
  cases p with
  | writeReply code rest =>
    obtain ⟨-, rfl⟩ | ⟨-, call, hc, rfl⟩ := h
    · exact ⟨by decide, by simp, by simp [Attempted], by simp⟩
    · obtain rfl | rfl := HandshakeCall.connects_iff.mp hc
      · exact ⟨by decide, by simp [HandshakeCall.reads_iff], by simp [Attempted], by simp⟩
      · exact ⟨by decide, by simp [HandshakeCall.reads_iff], by simp [Attempted], by simp⟩
  | startRemote =>
    obtain rfl : events = _ := h
    exact ⟨by decide, by simp, by simp [Attempted, HandshakeEvent.reply], by simp⟩
  | relay point =>
    obtain rfl : events = _ := h
    have hbefore : Replied [connected, replied .success, relaying] :=
      ⟨by decide, by simp, by simp [Attempted, HandshakeEvent.reply], fun _ => List.prefix_rfl⟩
    exact hbefore.append_handler (.inr rfl) _
  | catchAll => exact failed_replied h
  | escaped => exact failed_replied h
  | stop call =>
    obtain ⟨failed, hf, rfl⟩ := h
    exact (failed_replied hf).append_handler (.inl rfl) _
  | _ =>
    obtain rfl : events = [] := h
    exact ⟨by decide, by simp, by simp [Attempted], by simp⟩

theorem failed_answered (h : Failed events) {code : Socks4Reply}
    (hr : code ∈ events.filterMap HandshakeEvent.reply) : Attempted events code := by
  cases h with
  | unread hc => obtain rfl | rfl := HandshakeCall.reads_iff.mp hc <;> cases hr
  | refused hc =>
    obtain rfl | rfl := HandshakeCall.connects_iff.mp hc <;>
      exact .inl (by simp_all [HandshakeEvent.reply])
  | unreported hc =>
    obtain rfl | rfl := HandshakeCall.connects_iff.mp hc <;>
      exact .inr (by simp_all [HandshakeEvent.reply])
  | unanswered => exact .inr (by simp_all [HandshakeEvent.reply])
  | unstarted => exact .inl (by simp_all [HandshakeEvent.reply])

/-- Past the write of the reply, the reply that the events ask for was attempted. -/
theorem at_answered {p : HostPoint} (h : At events p) (hp : ∀ code rest, p ≠ .writeReply code rest)
    {code : Socks4Reply} (hr : code ∈ events.filterMap HandshakeEvent.reply) :
    Attempted events code := by
  cases p with
  | writeReply code rest => exact absurd rfl (hp code rest)
  | startRemote =>
    obtain rfl : events = _ := h
    exact .inl (by simp_all [HandshakeEvent.reply])
  | relay point =>
    obtain rfl : events = _ := h
    rw [List.filterMap_append, filterMap_handler rfl, List.append_nil] at hr
    exact .inl (by simp_all [HandshakeEvent.reply])
  | catchAll => exact failed_answered h hr
  | escaped => exact failed_answered h hr
  | stop call =>
    obtain ⟨failed, hf, rfl⟩ := h
    rw [List.filterMap_append, filterMap_handler rfl, List.append_nil] at hr
    exact (failed_answered hf hr).imp (List.mem_append_left _) (List.mem_append_left _)
  | _ =>
    obtain rfl : events = [] := h
    cases hr

/-! ## The bytes of the reply -/

/-- A reply repeats the bytes 2 to 7 of the request. -/
theorem replyBytes_eq {s : Streams} (h : Socks4Request.size < s.requestBytes.length)
    (code : Socks4Reply) :
    s.replyBytes code = [0, code.toByte] ++ (s.requestBytes.drop 2).take 6 := by
  have hlen : (s.requestBytes.take Socks4Request.size).length = 8 :=
    List.length_take_of_le h.le
  have hbytes : (s.requestBytes.drop 2).take 6 =
      (s.requestBytes.take Socks4Request.size).drop 2 := by
    rw [Socks4Request.size, List.drop_take]
  rw [Streams.replyBytes, Streams.request, hbytes]
  exact response_load s.order hlen code

/-- What was written to the client stays written. -/
theorem HandshakeSteps.sent_prefix (hs : c.HandshakeSteps useCount out c') :
    c.hostSocket.sent <+: c'.hostSocket.sent := by
  cases hs with
  | writeReply hp hw hr => exact List.prefix_append _ _
  | endReply hp hw hr => exact List.prefix_append _ _
  | relay hp hs => cases hs <;> exact List.prefix_rfl
  | _ => exact List.prefix_rfl

theorem Steps.sent_prefix (hs : c.Steps a c') : c.hostSocket.sent <+: c'.hostSocket.sent := by
  cases hs with
  | host hu hs =>
    rename_i d
    have hd := hs.sent_prefix
    obtain ⟨_, -, he⟩ := d.releaseHost_eq
    rw [he]
    exact hd
  | remote hu hq hs =>
    rename_i r
    obtain ⟨_, -, he⟩ := (c.relayedRemote r).releaseRemote_eq
    rw [he]
    show c.hostSocket.sent <+: r.dst.sent
    cases hs with
    | write hp hw => exact List.prefix_append _ _
    | _ => exact List.prefix_rfl
  | destructor hs => cases hs <;> exact List.prefix_rfl
  | _ => exact List.prefix_rfl

/-- The write of a reply returns when its eight bytes are written. -/
theorem HandshakeSteps.length_of_replied {code : Socks4Reply} (hf : c.Framed)
    (hs : c.HandshakeSteps useCount out c') (h : replied code ∈ c.hostEvents out) :
    8 ≤ c'.hostSocket.sent.length := by
  cases hs with
  | endReply hp hw hr =>
    simp only [Framed, hp] at hf
    obtain ⟨-, written, hc, hb, -⟩ := hf
    have hsent : c.hostSocket.sent = written := hc.hostSent
    have hlen := congrArg List.length hb
    rw [Streams.length_replyBytes] at hlen
    show 8 ≤ (c.hostSocket.sent ++ _).length
    rw [hsent, hlen]
  | writeReply hp hw hr => simp [hostEvents, hp, hr] at h
  | relay hp hs =>
    simp only [hostEvents, hp, post] at h
    split at h <;> simp at h
  | stop hp hc =>
    simp only [hostEvents, hp, post] at h
    split at h <;> simp at h
  | _ hp => simp [hostEvents, hp] at h

theorem Steps.length_of_replied {code : Socks4Reply} (hf : c.Framed) (hs : c.Steps a c')
    (h : replied code ∈ c.handshakeEvents a) : 8 ≤ c'.hostSocket.sent.length := by
  cases hs with
  | host hu hs =>
    rename_i d
    have hd := hs.length_of_replied hf h
    obtain ⟨_, -, he⟩ := d.releaseHost_eq
    rw [he]
    exact hd
  | _ => simp [handshakeEvents] at h

/-- A reply that was written has all its eight bytes, and nothing follows it but what the remote
sent. -/
structure Written (events : List HandshakeEvent) (c : SocksConnection) (code : Socks4Reply) :
    Prop where
  complete : Socks4Request.size < c.requestBytes.length
  sent : ∃ output, c.hostSocket.sent =
    [0, code.toByte] ++ (c.requestBytes.drop 2).take 6 ++ output ∧
      (relaying ∉ events → output = [])

/-- When a handshake has thrown, a reply of eight bytes is complete and nothing follows it. -/
theorem written_of_failed {code : Socks4Reply} (hf : c.streams.Failed) (hr : c.replies = [code])
    (hl : 8 ≤ c.hostSocket.sent.length) : Written events c code := by
  cases hf with
  | unread h =>
    have hnil : c.replies = [] := h.replies
    cases hr.symm.trans hnil
  | replied code' written h hw =>
    have hreplies : c.replies = [code'] := h.replies
    obtain rfl : code = code' := List.singleton_inj.mp (hr.symm.trans hreplies)
    have hsent : c.hostSocket.sent = written := h.hostSent
    have heq : written = c.streams.replyBytes code := by
      refine hw.eq_of_length_le ?_
      rw [Streams.length_replyBytes, ← hsent]
      exact hl
    refine ⟨h.complete, [], ?_, fun _ => rfl⟩
    rw [List.append_nil, hsent, heq]
    exact replyBytes_eq h.complete code

theorem written {code : Socks4Reply} (hf : c.Framed) (hat : At events c.hostThread)
    (hreplies : c.replies = events.filterMap HandshakeEvent.reply)
    (hlen : 8 ≤ c.hostSocket.sent.length) (h : replied code ∈ events) :
    Written events c code := by
  have hr : c.replies = [code] := hreplies.trans ((at_replied hat).attempted code (.inl h))
  cases hp : c.hostThread with
  | catchAll =>
    simp only [Framed, hp] at hf
    exact written_of_failed hf.2 hr hlen
  | escaped =>
    simp only [Framed, hp] at hf
    exact written_of_failed hf.2 hr hlen
  | stop call =>
    simp only [Framed, hp] at hf
    exact written_of_failed hf.2 hr hlen
  | startRemote =>
    simp only [Framed, hp] at hf
    obtain ⟨-, hc⟩ := hf
    have hsuccess : c.replies = [.success] := hc.replies
    obtain rfl : code = .success := List.singleton_inj.mp (hr.symm.trans hsuccess)
    have hsent : c.hostSocket.sent = c.streams.replyBytes .success := hc.hostSent
    refine ⟨hc.complete, [], ?_, fun _ => rfl⟩
    rw [List.append_nil, hsent]
    exact replyBytes_eq hc.complete .success
  | relay point =>
    simp only [Framed, hp] at hf
    obtain ⟨_, -, -, ⟨output, hout, -⟩, hsuccess, -, hcomplete⟩ := hf
    have hsuccess' : c.replies = [.success] := hsuccess
    obtain rfl : code = .success := List.singleton_inj.mp (hr.symm.trans hsuccess')
    rw [hp] at hat
    obtain rfl : events = _ := hat
    refine ⟨hcomplete, output, ?_, fun hn => absurd (by simp) hn⟩
    exact hout.trans (congrArg (· ++ output) (replyBytes_eq hcomplete .success))
  | writeReply code' rest =>
    rw [hp] at hat
    obtain ⟨-, rfl⟩ | ⟨-, call, -, rfl⟩ := hat
    · simp at h
    · simp at h
  | _ =>
    rw [hp] at hat
    obtain rfl : events = [] := hat
    cases h

/-! ## The outcome -/

/-- What the `catch (...)` does while a strong reference exists: it posts one handler. -/
def Posts (c : SocksConnection) : Prop :=
  c.destructor = none → ∀ n m, n ≠ 0 → ∃ d,
    machine.exec c [.host n .ok, .host m .ok] = some d ∧
      machine.trace handshakeEvents c [.host n .ok, .host m .ok] = [posted]

theorem posts_of_catchAll (hp : c.hostThread = .catchAll) : c.Posts := by
  intro hd n m hn
  have hshare : c.step (.host n .ok) = some { c with hostThread := .stop .argument } := by
    simp [step, hostStep, handshake, hp, hd, hn, releaseHost, HostPoint.call]
  have hpost : { c with hostThread := .stop .argument }.step (.host m .ok) =
      some { c with hostThread := .stop .posted } := by
    simp [step, hostStep, handshake, hd, StopCall.next, releaseHost, HostPoint.call]
  refine ⟨{ c with hostThread := .stop .posted }, ?_, ?_⟩
  · simp [Machine.exec_cons, machine, hshare, hpost]
  · simp [Machine.trace, machine, hshare, hpost, handshakeEvents, hostEvents, hp, post]

/-- The handshake has thrown: no relay loop was entered and no thread created, and the host thread
reports the failure or is in the `catch (...)`, which posts one handler. -/
structure ThrewOutcome (events : List HandshakeEvent) (c : SocksConnection) : Prop where
  relaying : .relaying ∉ events
  relayPosted : .relayPosted ∉ events
  remoteThread : c.remoteThread = .idle
  point : (∃ rest, c.hostThread = .writeReply .failed rest) ∨ c.hostThread = .catchAll ∨
    ∃ call, c.hostThread = .stop call
  posted : events.count .posted = if HasPosted c.hostThread.call then 1 else 0
  posts : c.hostThread = .catchAll → c.Posts
  finished : c.hostThread.Finished → events.count .posted = 1

/-- No call of the handshake has thrown: it is on its way to the relay, or both loops were started
once; and only `receiveHost` has posted a handler, at most once. -/
structure RelayOutcome (events : List HandshakeEvent) (c : SocksConnection) : Prop where
  posted : .posted ∉ events
  point : c.hostThread ≠ .catchAll ∧ c.hostThread ≠ .escaped ∧ ∀ call, c.hostThread ≠ .stop call
  before : (∀ point, c.hostThread ≠ .relay point) → .relaying ∉ events ∧ c.remoteThread = .idle
  relaying : ∀ point, c.hostThread = .relay point →
    events.count .relaying = 1 ∧ c.remoteThread ≠ .idle
  relayPosted : events.count .relayPosted = if HasPosted c.hostThread.call then 1 else 0
  finished : c.hostThread.Finished → events.count .relaying = 1

/-- How a handshake has gone so far. The code of a failure is sent when `remoteSocket.connect` has
thrown, the code of a success when it has returned; the writes that have returned or thrown are
those of this reply; and the relay is entered right after the reply of a success. -/
structure HandshakeOutcome (events : List HandshakeEvent) (c : SocksConnection) : Prop where
  failed_iff : .failed ∈ c.replies ↔ ∃ call : HandshakeCall, call.Connects ∧ threw call ∈ events
  success_iff : .success ∈ c.replies ↔ connected ∈ events
  one : c.replies.length ≤ 1
  unread : ∀ call : HandshakeCall, call.Reads → threw call ∈ events → c.replies = []
  written : ∀ code, replied code ∈ events → Written events c code
  attempted : ∀ code, Attempted events code → c.replies = [code]
  failed_attempted : Attempted events .failed →
    ∃ call : HandshakeCall, call.Connects ∧ threw call ∈ events
  success_attempted : Attempted events .success → connected ∈ events
  answered : (∀ code rest, c.hostThread ≠ .writeReply code rest) → ∀ code ∈ c.replies,
    Attempted events code
  entered : .relaying ∈ events → [connected, replied .success, .relaying] <+: events
  threw : Threw events → ThrewOutcome events c
  relay : ¬ Threw events → RelayOutcome events c

theorem failed_mem_replies :
    .failed ∈ events.filterMap HandshakeEvent.reply ↔
      ∃ call : HandshakeCall, call.Connects ∧ threw call ∈ events := by
  rw [List.mem_filterMap]
  constructor
  · rintro ⟨e, he, hr⟩
    cases e with
    | threw call =>
      refine ⟨call, ?_, he⟩
      cases call with
      | openRemote => trivial
      | connectRemote => trivial
      | _ => cases hr
    | _ => cases hr
  · rintro ⟨call, hc, he⟩
    refine ⟨threw call, he, ?_⟩
    obtain rfl | rfl := HandshakeCall.connects_iff.mp hc <;> rfl

theorem success_mem_replies :
    .success ∈ events.filterMap HandshakeEvent.reply ↔ connected ∈ events := by
  rw [List.mem_filterMap]
  constructor
  · rintro ⟨e, he, hr⟩
    cases e with
    | threw call => cases call <;> cases hr
    | connected => exact he
    | _ => cases hr
  · intro he
    exact ⟨connected, he, rfl⟩

/-- A reply that was attempted is the one that the events ask for. -/
theorem Replied.mem_replies (h : Replied events) {code : Socks4Reply} (hc : Attempted events code) :
    code ∈ events.filterMap HandshakeEvent.reply := by
  rw [h.attempted code hc]
  exact List.mem_singleton_self code

theorem threwOutcome (hf : c.Framed) (hat : At events c.hostThread)
    (hesc : c.hostThread ≠ .escaped) (ht : Threw events) : ThrewOutcome events c := by
  obtain ⟨thrown, ht⟩ := ht
  cases hp : c.hostThread with
  | writeReply code rest =>
    simp only [Framed, hp] at hf
    rw [hp] at hat
    obtain ⟨-, rfl⟩ | ⟨rfl, call, -, rfl⟩ := hat
    · simp at ht
    · exact ⟨by simp, by simp, hf.1, .inl ⟨rest, hp⟩, by simp [hp, HostPoint.call, HasPosted],
        by simp [hp], by simp [hp, HostPoint.Finished]⟩
  | catchAll =>
    simp only [Framed, hp] at hf
    rw [hp] at hat
    obtain ⟨hposted, hrelaying, hrelayPosted⟩ := failed_notMem hat
    refine ⟨hrelaying, hrelayPosted, hf.1, .inr (.inl hp), ?_, fun _ => posts_of_catchAll hp, ?_⟩
    · simp [hp, HostPoint.call, HasPosted, List.count_eq_zero_of_not_mem hposted]
    · simp [hp, HostPoint.Finished]
  | stop call =>
    simp only [Framed, hp] at hf
    rw [hp] at hat
    obtain ⟨failed, hfailed, rfl⟩ := hat
    obtain ⟨hposted, hrelaying, hrelayPosted⟩ := failed_notMem hfailed
    have hcount : (failed ++ posted.handler (some call)).count posted =
        if HasPosted (some call) then 1 else 0 := by
      rw [List.count_append, List.count_eq_zero_of_not_mem hposted, count_handler, Nat.zero_add]
    refine ⟨by simp [hrelaying], by simp [hrelayPosted], hf.1, .inr (.inr ⟨call, hp⟩), ?_,
      by simp [hp], fun hfin => ?_⟩
    · rw [hp]
      exact hcount
    · rw [hp] at hfin
      obtain rfl : call = .done := hfin
      exact hcount
  | escaped => exact absurd hp hesc
  | startRemote =>
    rw [hp] at hat
    obtain rfl : events = _ := hat
    simp at ht
  | relay point =>
    rw [hp] at hat
    obtain rfl : events = _ := hat
    simp at ht
  | _ =>
    rw [hp] at hat
    obtain rfl : events = [] := hat
    cases ht

theorem relayOutcome (hf : c.Framed) (hat : At events c.hostThread) (ht : ¬ Threw events) :
    RelayOutcome events c := by
  cases hp : c.hostThread with
  | writeReply code rest =>
    simp only [Framed, hp] at hf
    rw [hp] at hat
    obtain ⟨-, rfl⟩ | ⟨-, call, -, rfl⟩ := hat
    · exact ⟨by simp, by simp [hp], fun _ => ⟨by simp, hf.1⟩, by simp [hp],
        by simp [hp, HostPoint.call, HasPosted], by simp [hp, HostPoint.Finished]⟩
    · exact absurd ⟨call, List.mem_singleton.mpr rfl⟩ ht
  | startRemote =>
    simp only [Framed, hp] at hf
    rw [hp] at hat
    obtain rfl : events = _ := hat
    exact ⟨by simp, by simp [hp], fun _ => ⟨by simp, hf.1⟩, by simp [hp],
      by simp [hp, HostPoint.call, HasPosted], by simp [hp, HostPoint.Finished]⟩
  | relay point =>
    simp only [Framed, hp] at hf
    obtain ⟨q, hq, -⟩ := hf
    rw [hp] at hat
    obtain rfl : events = _ := hat
    have hcount : ([connected, replied .success, relaying] ++
        relayPosted.handler point.call).count relaying = 1 := by
      rw [List.count_append, List.count_eq_zero_of_not_mem (l := relayPosted.handler _) (by simp)]
      rfl
    refine ⟨by simp, by simp [hp], fun hn => absurd hp (hn point), fun _ _ => ⟨hcount, ?_⟩, ?_,
      fun _ => hcount⟩
    · intro hnone
      rw [hq] at hnone
      cases hnone
    · rw [List.count_append, count_handler, hp]
      exact Nat.zero_add _
  | catchAll =>
    rw [hp] at hat
    exact absurd (failed_threw hat) ht
  | escaped =>
    rw [hp] at hat
    exact absurd (failed_threw hat) ht
  | stop call =>
    rw [hp] at hat
    obtain ⟨failed, hfailed, rfl⟩ := hat
    obtain ⟨thrown, hmem⟩ := failed_threw hfailed
    exact absurd ⟨thrown, List.mem_append_left _ hmem⟩ ht
  | _ =>
    simp only [Framed, hp] at hf
    rw [hp] at hat
    obtain rfl : events = [] := hat
    exact ⟨by simp, by simp [hp], fun _ => ⟨by simp, hf.1⟩, by simp [hp],
      by simp [hp, HostPoint.call, HasPosted], by simp [hp, HostPoint.Finished]⟩

/-- The events of a run from a new connection to `c`. -/
structure Traced (events : List HandshakeEvent) (c : SocksConnection) : Prop where
  point : At events c.hostThread
  replies : c.replies = events.filterMap HandshakeEvent.reply
  written : ∀ code, replied code ∈ events → 8 ≤ c.hostSocket.sent.length

theorem Traced.steps (h : Traced events c) (hf : c.Framed) (hs : c.Steps a c') :
    Traced (events ++ c.handshakeEvents a) c' := by
  obtain ⟨hpoint, hreplies, hwritten⟩ := h
  refine ⟨at_steps hpoint hs, ?_, ?_⟩
  · rw [hs.replies_eq, hreplies, List.filterMap_append]
  · intro code hmem
    rcases List.mem_append.mp hmem with hmem | hmem
    · exact (hwritten code hmem).trans hs.sent_prefix.length_le
    · exact hs.length_of_replied hf hmem

theorem traced {order : ByteOrder} {alloc : Allocation} {as : List ConnectionAction}
    (he : machine.exec (create order alloc) as = some c) :
    Traced (machine.trace handshakeEvents (create order alloc) as) c := by
  refine machine.exec_induction (P := fun as c =>
    Traced (machine.trace handshakeEvents (create order alloc) as) c) ?_ ?_ he
  · exact ⟨rfl, rfl, nofun⟩
  · intro as d a e hd ih hs
    have hr : machine.Reachable d := ⟨_, as, ⟨order, alloc, rfl⟩, hd⟩
    rw [Machine.trace_snoc _ _ hd]
    exact ih.steps (framed hr) (step_cases hs)

/-! ## Every run -/

/-- If the step is the `shared_from_this` of the `catch (...)`, the server still has a reference. -/
def Referenced (c : SocksConnection) : ConnectionAction → Prop
  | .host useCount _ => c.hostThread = .catchAll → useCount ≠ 0
  | _ => True

instance (c : SocksConnection) (a : ConnectionAction) : Decidable (c.Referenced a) := by
  unfold Referenced
  split <;> infer_instance

/-- No exception leaves `handshake` while the connection is referenced. -/
theorem not_escaped {order : ByteOrder} {alloc : Allocation} {as : List ConnectionAction}
    (he : machine.exec (create order alloc) as = some c)
    (href : ∀ t a u, machine.Takes (create order alloc) as t a u → t.Referenced a) :
    c.hostThread ≠ .escaped := by
  refine Machine.visits_of_takes (P := fun c : SocksConnection => c.hostThread ≠ .escaped)
    (r := Referenced) ?_ ?_ href ⟨as, List.prefix_rfl, he⟩
  · nofun
  · intro t a u hT ht hr hu
    rcases (step_cases hT.step_eq).escaped hu with hp | ⟨n, out, rfl, hn, hp⟩
    · exact ht hp
    · exact hr hp hn

/-- The relay starts on both threads in one step. -/
theorem Steps.of_relaying (hf : c.Framed) (hs : c.Steps a c') (h : relaying ∈ c.handshakeEvents a) :
    c.remoteThread = .idle ∧ c'.hostThread = .relay .read ∧ c'.remoteThread = .relay .read := by
  cases hs with
  | host hu hs =>
    rename_i d
    rw [d.releaseHost_threads.1, d.releaseHost_threads.2]
    cases hs with
    | startRemote hp =>
      simp only [Framed, hp] at hf
      exact ⟨hf.1, rfl, rfl⟩
    | relay hp hs =>
      simp only [handshakeEvents, hostEvents, hp, post] at h
      split at h <;> simp at h
    | stop hp hc =>
      simp only [handshakeEvents, hostEvents, hp, post] at h
      split at h <;> simp at h
    | endReply hp hw hr => simp [handshakeEvents, hostEvents, hp, hr] at h
    | writeReply hp hw hr => simp [handshakeEvents, hostEvents, hp, hr] at h
    | _ hp => simp [handshakeEvents, hostEvents, hp] at h
  | _ => simp [handshakeEvents] at h

/-- **The outcome of the handshake** in every run of a connection that is referenced when
`handshake` gets to its `catch (...)`. -/
theorem handshake_outcome {order : ByteOrder} {alloc : Allocation} {as : List ConnectionAction}
    (he : machine.exec (create order alloc) as = some c)
    (href : ∀ t a u, machine.Takes (create order alloc) as t a u → t.Referenced a) :
    HandshakeOutcome (machine.trace handshakeEvents (create order alloc) as) c ∧
    ∀ a c', c.step a = some c' → .relaying ∈ c.handshakeEvents a →
      c.remoteThread = .idle ∧ c'.hostThread = .relay .read ∧ c'.remoteThread = .relay .read := by
  have hf : c.Framed := framed ⟨_, as, ⟨order, alloc, rfl⟩, he⟩
  obtain ⟨hpoint, hreplies, hwritten⟩ := traced he
  have hreplied := at_replied hpoint
  refine ⟨⟨?_, ?_, ?_, ?_, ?_, ?_, ?_, ?_, ?_, ?_, ?_, ?_⟩,
    fun a c' hs => (step_cases hs).of_relaying hf⟩
  · rw [hreplies]
    exact failed_mem_replies
  · rw [hreplies]
    exact success_mem_replies
  · rw [hreplies]
    exact hreplied.one
  · rw [hreplies]
    exact hreplied.unread
  · intro code hmem
    exact written hf hpoint hreplies (hwritten code hmem) hmem
  · rw [hreplies]
    exact hreplied.attempted
  · exact fun hc => failed_mem_replies.mp (hreplied.mem_replies hc)
  · exact fun hc => success_mem_replies.mp (hreplied.mem_replies hc)
  · intro hp code hmem
    rw [hreplies] at hmem
    exact at_answered hpoint hp hmem
  · exact hreplied.entered
  · exact threwOutcome hf hpoint (not_escaped he href)
  · exact relayOutcome hf hpoint

/-- A run in which `remoteSocket.connect` throws, the failure is reported in two pieces, and the
host thread stops the connection. -/
def refusedRun : List ConnectionAction :=
  [.accept (sampleHeader ++ [0]), .start, .host 1 (.data sampleHeader), .host 1 (.data [0]),
    .host 1 .ok, .host 1 (.error (.system 111)), .host 1 (.wrote 3), .host 1 (.wrote 5),
    .host 1 .ok, .host 2 .ok, .host 2 .ok]

/-- The connection after the run. -/
def refused : SocksConnection := (machine.exec sample refusedRun).getD sample

theorem handshake_outcome_refused :
    (machine.trace handshakeEvents sample refusedRun).count .posted = 1 ∧
      refused.replies = [.failed] ∧
      Written (machine.trace handshakeEvents sample refusedRun) refused .failed := by
  have hmeets : machine.Meets Referenced sample refusedRun := by decide
  have he : machine.exec (create .little ⟨0, .zeros, .zeros⟩) refusedRun = some refused := rfl
  obtain ⟨houtcome, -⟩ := handshake_outcome he fun t a u hT => hmeets.takes hT
  exact ⟨(houtcome.threw ⟨.connectRemote, by decide⟩).finished rfl,
    houtcome.attempted .failed (.inl (by decide)), houtcome.written .failed (by decide)⟩

end SocksConnection

end LklSocks
