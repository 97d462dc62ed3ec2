import LklSocks.SocksConnection.Lifetime

/-!
# The LKL calls of a connection

A connection uses LKL through its remote socket only. The host thread opens it, connects it and
writes to it, the remote thread reads from it, and the destructor shuts it down and closes it. The
operations on a socket that is not open fail before their call, and the destructor leaves such a
socket alone.

## Main definitions

* `LklCall`: the calls
* `SocksConnection.lklCalls`: the calls that a step issues
* `SocksConnection.Unopening`: a connection whose remote socket is closed for good

## Main results

* `SocksConnection.opensOnce`: the remote socket is opened at most once
* `SocksConnection.Unopening.lklCalls_eq_nil`, `Unopening.steps`: such a connection issues no call
-/

namespace LklSocks

/-- The LKL calls of a connection. `lkl_socket` opens a descriptor or fails. -/
inductive LklCall
  | socket (opened : Bool)
  | connect
  | sendmsg
  | recvmsg
  | shutdown
  | close
  deriving DecidableEq, Repr

/-- `handshake` has still to open the remote socket. -/
def HostPoint.Opening : HostPoint → Prop
  | readHeader _ => True
  | readUserdata _ _ => True
  | openRemote _ => True
  | _ => False

namespace SocksConnection

/-- The calls of a step of the host thread. -/
def hostCalls (c : SocksConnection) (out : Outcome) : List LklCall :=
  match c.hostThread with
  | .openRemote _ => [.socket (out = .ok)]
  | .connectRemote _ => if c.remoteSocket.isOpen = true then [.connect] else []
  | .relay (.write _ _) => if c.remoteSocket.isOpen = true then [.sendmsg] else []
  | _ => []

/-- The calls of a step of the remote thread. -/
def remoteCalls (c : SocksConnection) : List LklCall :=
  match c.remoteThread with
  | .relay .read => if c.remoteSocket.isOpen = true then [.recvmsg] else []
  | _ => []

/-- The calls of a step of the destructor. The sockets are destroyed after the threads, unless a
thread is still joinable. -/
def destructorCalls (c : SocksConnection) : List LklCall :=
  match c.destructor with
  | some (_, .closeRemote) => if c.remoteSocket.isOpen = true then [.shutdown, .close] else []
  | some (_, .members) =>
    if c.remoteSocket.isOpen = true ∧ ¬ (c.hostJoinable ∨ c.remoteJoinable) then [.close] else []
  | _ => []

/-- The LKL calls that a step issues. -/
def lklCalls (c : SocksConnection) : ConnectionAction → List LklCall
  | .host _ out => c.hostCalls out
  | .remote _ _ => c.remoteCalls
  | .destructor => c.destructorCalls
  | _ => []

variable {c c' : SocksConnection} {a : ConnectionAction} {useCount : ℕ} {out : Outcome}

/-- Before the remote socket is opened the host thread runs, is in no call of `stopConnection`, and
is the only thread. -/
theorem Framed.of_opening (hf : c.Framed) (hp : c.hostThread.Opening) :
    ¬ c.HostOver ∧ c.hostThread.call = none ∧ c.remoteThread = .idle := by
  unfold HostOver
  cases hpoint : c.hostThread with
  | readHeader header =>
    simp only [Framed, hpoint] at hf
    exact ⟨by simp [HostPoint.Finished], rfl, hf.1⟩
  | readUserdata header userdata =>
    simp only [Framed, hpoint] at hf
    exact ⟨by simp [HostPoint.Finished], rfl, hf.1⟩
  | openRemote request =>
    simp only [Framed, hpoint] at hf
    exact ⟨by simp [HostPoint.Finished], rfl, hf.1⟩
  | _ =>
    rw [hpoint] at hp
    exact hp.elim

/-! ## The opening of the remote socket -/

/-- Before the host thread opens it, the remote socket is closed. -/
def OpensOnce (c : SocksConnection) : Prop :=
  c.hostThread = .idle ∨ c.hostThread.Opening → c.remoteSocket.isOpen = false

theorem OpensOnce.handshake (h : c.OpensOnce) (hs : c.HandshakeSteps useCount out c') :
    c'.OpensOnce := by
  intro hp'
  cases hs with
  | readHeader hp hr hlen => exact h (.inr (by rw [hp]; trivial))
  | endHeader hp hr hlen => exact h (.inr (by rw [hp]; trivial))
  | readUserdata hp hr => exact h (.inr (by rw [hp]; trivial))
  | endReply hp hw hr =>
    rename_i code rest n
    cases code <;> exact (hp'.elim nofun id).elim
  | _ => exact (hp'.elim nofun id).elim

theorem OpensOnce.steps (h : c.OpensOnce) (hs : c.Steps a c') : c'.OpensOnce := by
  cases hs with
  | start hp hd => exact fun _ => h (.inl hp)
  | host hu hs =>
    rename_i d
    obtain ⟨_, -, he⟩ := d.releaseHost_eq
    have hd := h.handshake hs
    rw [he]
    exact hd
  | remote hu hq hs =>
    rename_i r
    obtain ⟨_, -, he⟩ := (c.relayedRemote r).releaseRemote_eq
    rw [he]
    exact fun hp => hs.src_isOpen.trans (h hp)
  | destructor hs =>
    cases hs with
    | closeRemote hd => exact fun _ => rfl
    | members hd hh hr => exact fun _ => rfl
    | _ => exact h
  | _ => exact h

/-- **The remote socket is opened at most once**: it is closed in every reachable state in which the
host thread has still to open it. -/
theorem opensOnce (h : machine.Reachable c) : c.OpensOnce := by
  refine h.invariant (P := OpensOnce) ?_ ?_
  · rintro _ ⟨order, a, rfl⟩ -
    rfl
  · intro c a c' _ hc ha
    exact hc.steps (step_cases ha)

/-! ## A remote socket that is closed for good -/

/-- The remote socket is closed, and the host thread does not open it any more. -/
structure Unopening (c : SocksConnection) : Prop where
  closed : c.remoteSocket.isOpen = false
  point : ¬ c.hostThread.Opening

theorem Unopening.lklCalls_eq_nil (h : c.Unopening) (a : ConnectionAction) :
    c.lklCalls a = [] := by
  have hopen : ¬ c.remoteSocket.isOpen = true := by simp [h.closed]
  cases a with
  | host useCount out =>
    simp only [lklCalls, hostCalls]
    split
    · next hp => exact absurd (by rw [hp]; trivial) h.point
    · exact if_neg hopen
    · exact if_neg hopen
    · rfl
  | remote useCount out =>
    simp only [lklCalls, remoteCalls]
    split
    · exact if_neg hopen
    · rfl
  | destructor =>
    simp only [lklCalls, destructorCalls]
    split
    · exact if_neg hopen
    · exact if_neg fun hc => hopen hc.1
    · rfl
  | _ => rfl

theorem Unopening.handshake (h : c.Unopening) (hs : c.HandshakeSteps useCount out c') :
    c'.Unopening := by
  obtain ⟨hclosed, hpoint⟩ := h
  cases hs with
  | connected hp ho => exact absurd ho (by simp [hclosed])
  | relay hp hs =>
    rename_i r
    refine ⟨?_, id⟩
    show r.dst.isOpen = false
    rw [hs.dst_eq]
    exact hclosed
  | endReply hp hw hr =>
    rename_i code rest n
    exact ⟨hclosed, by cases code <;> exact id⟩
  | connectError hp => exact ⟨hclosed, id⟩
  | writeReply hp hw hr => exact ⟨hclosed, id⟩
  | replyError hp => exact ⟨hclosed, id⟩
  | startRemote hp => exact ⟨hclosed, id⟩
  | startError hp => exact ⟨hclosed, id⟩
  | expired hp hu => exact ⟨hclosed, id⟩
  | share hp hu => exact ⟨hclosed, id⟩
  | stop hp hc => exact ⟨hclosed, id⟩
  | _ hp => exact absurd (by rw [hp]; trivial) hpoint

/-- A connection whose remote socket is closed for good stays so. -/
theorem Unopening.steps (h : c.Unopening) (hs : c.Steps a c') (ha : a ≠ .start) :
    c'.Unopening := by
  cases hs with
  | start hp hd => exact absurd rfl ha
  | host hu hs =>
    rename_i d
    obtain ⟨_, -, he⟩ := d.releaseHost_eq
    have hd := h.handshake hs
    rw [he]
    exact ⟨hd.closed, hd.point⟩
  | remote hu hq hs =>
    rename_i r
    obtain ⟨_, -, he⟩ := (c.relayedRemote r).releaseRemote_eq
    rw [he]
    exact ⟨hs.src_isOpen.trans h.closed, h.point⟩
  | destructor hs =>
    obtain ⟨hclosed, hpoint⟩ := h
    cases hs with
    | closeRemote hd => exact ⟨rfl, hpoint⟩
    | members hd hh hr => exact ⟨rfl, hpoint⟩
    | _ => exact ⟨hclosed, hpoint⟩
  | _ => exact ⟨h.closed, h.point⟩

end SocksConnection

end LklSocks
