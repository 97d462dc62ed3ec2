import LklSocks.Lkl.Descriptors
import LklSocks.SocksConnection.Joining

/-!
# The remote socket on the socket service

The remote socket of a connection is an implementation of the socket service of LKL. The connection
constructs it, `connect` opens it, the destructor closes it if it is open, and the destruction of
the members destroys it. Whether it is open is what the connection sees of it.

## Main definitions

* `LklResults`: the results of LKL that the connection does not look at
* `SocksConnection.serviceCalls`: the operations of the service that a step makes
* `SocksConnection.Backed`: the implementation behind the remote socket

## Main results

* `SocksConnection.Backed.steps`: the service carries out every step of a connection
-/

namespace LklSocks

open Lkl (Impl Reactor ServiceAction SocketService)

/-- The descriptor that `lkl_socket` returns in a step, or its error, and the results of
`lkl_close`. -/
structure LklResults where
  socket : ℤ
  close : Lkl.CloseCalls
  deriving DecidableEq, Repr

namespace SocksConnection

variable {δ : Type} {reactor : Reactor δ} {c c' : SocksConnection} {a : ConnectionAction}
  {r : LklResults} {i : ℕ} {v w : SocketService δ}

/-- The operations that a step makes on the remote socket, whose implementation has the number
`i`. The destructor closes a socket that is open, and the members are destroyed after the last
join. -/
def serviceCalls (c : SocksConnection) (i : ℕ) (r : LklResults) :
    ConnectionAction → List ServiceAction
  | .host _ _ =>
    match c.hostThread with
    | .openRemote _ => [.openSocket i .stream r.socket]
    | _ => []
  | .destructor =>
    match c.destructor with
    | some (_, .closeRemote) => if c.remoteSocket.isOpen = true then [.close i r.close] else []
    | some (_, .members) =>
      if c.hostJoinable ∨ c.remoteJoinable then [] else [.destroy i r.close]
    | _ => []
  | _ => []

/-- The outcome of the opening of the remote socket. -/
def opening (c : SocksConnection) : ConnectionAction → Option Outcome
  | .host _ out =>
    match c.hostThread with
    | .openRemote _ => some out
    | _ => none
  | _ => none

/-- The opening of the remote socket fails exactly if `lkl_socket` does. -/
def Agrees (c : SocksConnection) (r : LklResults) (a : ConnectionAction) : Prop :=
  ∀ out ∈ c.opening a, (out = .ok ↔ 0 ≤ r.socket)

instance (c : SocksConnection) (r : LklResults) (a : ConnectionAction) : Decidable (c.Agrees r a) :=
  inferInstanceAs (Decidable (∀ out ∈ c.opening a, _))

/-- A step that opens nothing. -/
theorem agrees_of_opening (h : c.opening a = none) : c.Agrees r a := by
  intro out hout
  rw [h] at hout
  cases hout

/-- A step that opens the remote socket makes no other operation. -/
theorem serviceCalls_eq_of_mem {j : ℕ} {d : ℤ}
    (h : .openSocket j .stream d ∈ c.serviceCalls i r a) :
    c.serviceCalls i r a = [.openSocket j .stream d] := by
  unfold serviceCalls at h ⊢
  split at h
  · split at h
    · rw [List.mem_singleton.mp h]
    · cases h
  · split at h
    · split at h
      · cases List.mem_singleton.mp h
      · cases h
    · split at h
      · cases h
      · cases List.mem_singleton.mp h
    · cases h
  · cases h

/-- The implementation of the remote socket exists until the members are destroyed, and is open
when the socket is. -/
structure Backed (c : SocksConnection) (x : Option (Impl δ)) : Prop where
  freed : c.Freed → x = none
  alive : ¬ c.Freed → ∃ y, x = some y ∧ (y.IsOpen ↔ c.remoteSocket.isOpen = true)

/-- The service has carried out the operations of a step, which leave the other implementations
alone. -/
structure Serves (reactor : Reactor δ) (v : SocketService δ) (calls : List ServiceAction) (i : ℕ)
    (c' : SocksConnection) (w : SocketService δ) : Prop where
  exec : (SocketService.machine reactor).exec v calls = some w
  next : w.next = v.next
  others : ∀ j, j ≠ i → w.impl j = v.impl j
  backed : c'.Backed (w.impl i)

/-- A step that the service does not see. -/
theorem Backed.unseen (h : c.Backed (v.impl i)) (hcalls : c.serviceCalls i r a = [])
    (hopen : c'.remoteSocket.isOpen = c.remoteSocket.isOpen) (hfreed : c'.Freed ↔ c.Freed) :
    ∃ w, Serves reactor v (c.serviceCalls i r a) i c' w := by
  refine ⟨v, by rw [hcalls]; rfl, rfl, fun _ _ => rfl, ?_⟩
  constructor
  · exact fun hf => h.freed (hfreed.mp hf)
  · intro hf
    rw [hopen]
    exact h.alive (mt hfreed.mpr hf)

/-- A step with one operation, which leaves the implementation `y`. -/
theorem serves_one {b : ServiceAction} {y : Option (Impl δ)}
    (hb : (SocketService.machine reactor).step v b = some (v.set i y)) (hy : c'.Backed y) :
    Serves reactor v [b] i c' (v.set i y) where
  exec := by
    rw [Machine.exec_cons, hb]
    rfl
  next := rfl
  others j hj := by rw [SocketService.set_impl, Function.update_of_ne hj]
  backed := by rwa [SocketService.set_impl, Function.update_self]

/-- Opening the remote socket, which was closed until now. -/
theorem Backed.openRemote {request : Socks4Request} {useCount : ℕ} {out : Outcome}
    (h : c.Backed (v.impl i)) (hr : machine.Reachable c) (hf : ¬ c.Freed)
    (hp : c.hostThread = .openRemote request) (hagrees : out = .ok ↔ 0 ≤ r.socket)
    (hfresh : v.LklResult r.socket) (hf' : ¬ c'.Freed)
    (hopen : c'.remoteSocket.isOpen = true ↔ out = .ok) :
    ∃ w, Serves reactor v (c.serviceCalls i r (.host useCount out)) i c' w := by
  obtain ⟨x, hx, hiff⟩ := h.alive hf
  have hclosed : ¬ x.IsOpen := by
    rw [hiff, opensOnce hr (.inr (by rw [hp]; trivial))]
    nofun
  have hcalls : c.serviceCalls i r (.host useCount out) = [.openSocket i .stream r.socket] := by
    simp only [serviceCalls, hp]
  have hstep : (SocketService.machine reactor).step v (.openSocket i .stream r.socket) =
      some (v.set i (some (x.openSocket .stream r.socket).impl)) := by
    show Option.map _ (if _ then _ else _) = _
    rw [if_pos hfresh, hx]
    rfl
  rw [hcalls]
  refine ⟨_, serves_one hstep ⟨fun hfreed => absurd hfreed hf', fun _ => ⟨_, rfl, ?_⟩⟩⟩
  rw [hopen, hagrees]
  by_cases hneg : r.socket < 0
  · obtain ⟨hsocket, -, -⟩ := Impl.openSocket_of_not (x := x) (.inr hneg) .stream
    refine iff_of_false ?_ (not_le.mpr hneg)
    unfold Impl.IsOpen
    rw [hsocket]
    exact hclosed
  · have hnonneg := not_lt.mp hneg
    have hlt := (hfresh.resolve_left hneg).1
    refine iff_of_true (fun hinvalid => ?_) hnonneg
    rw [Impl.openSocket_of_nonneg hclosed hnonneg hlt] at hinvalid
    exact absurd (hinvalid ▸ hnonneg : 0 ≤ Lkl.invalidSocket) (by decide)

/-- The host thread leaves the remote socket open or closed, unless it opens it. -/
theorem HandshakeSteps.isOpen {useCount : ℕ} {out : Outcome}
    (hs : c.HandshakeSteps useCount out c') (hp : ∀ request, c.hostThread ≠ .openRemote request) :
    c'.remoteSocket.isOpen = c.remoteSocket.isOpen := by
  cases hs with
  | openRemote hp' => exact absurd hp' (hp _)
  | connected hp' ho => exact ho.symm
  | relay hp' hs =>
    rename_i point q
    show q.dst.isOpen = _
    rw [hs.dst_eq]
  | _ => rfl

/-- Only the destructor frees a connection. -/
theorem Steps.not_freed (hs : c.Steps a c') (hf : ¬ c.Freed) (ha : a ≠ .destructor) :
    ¬ c'.Freed := by
  cases hs with
  | accept ho hd => exact hf
  | start hp hd => exact hf
  | host hu hs =>
    rename_i d
    obtain ⟨e, he, heq⟩ := d.releaseHost_eq
    have hd : d.destructor = c.destructor := by cases hs <;> rfl
    rw [heq]
    rcases he with rfl | rfl
    · exact fun hfreed => hf (show c.Freed by rwa [Freed, ← hd])
    · intro hfreed
      cases hfreed
  | remote hu hq hs =>
    rename_i q
    obtain ⟨e, he, heq⟩ := (c.relayedRemote q).releaseRemote_eq
    rw [heq]
    rcases he with rfl | rfl
    · exact hf
    · intro hfreed
      cases hfreed
  | destroy hd =>
    intro hfreed
    cases hfreed
  | destructor hs => exact absurd rfl ha

theorem Backed.host {d : SocksConnection} {useCount : ℕ} {out : Outcome}
    (h : c.Backed (v.impl i)) (hr : machine.Reachable c) (hf : ¬ c.Freed)
    (hs : c.HandshakeSteps useCount out d) (hf' : ¬ d.releaseHost.Freed)
    (hagrees : c.Agrees r (.host useCount out))
    (hfresh : .openSocket i .stream r.socket ∈ c.serviceCalls i r (.host useCount out) →
      v.LklResult r.socket) :
    ∃ w, Serves reactor v (c.serviceCalls i r (.host useCount out)) i d.releaseHost w := by
  have hopen : d.releaseHost.remoteSocket.isOpen = d.remoteSocket.isOpen := by
    obtain ⟨e, -, heq⟩ := d.releaseHost_eq
    rw [heq]
  cases hp : c.hostThread with
  | openRemote request =>
    have hopening : c.opening (.host useCount out) = some out := by simp [opening, hp]
    have hiff := hagrees out hopening
    have hclosed := opensOnce hr (.inr (by rw [hp]; trivial))
    refine h.openRemote hr hf hp hiff (hfresh (by simp [serviceCalls, hp])) hf' ?_
    rw [hopen]
    cases hs with
    | openRemote hp' => exact iff_of_true rfl rfl
    | openError hp' => exact iff_of_false (by simp [reply, hclosed]) nofun
    | _ hp' => cases hp.symm.trans hp'
  | _ =>
    refine h.unseen (by simp [serviceCalls, hp]) ?_ (iff_of_false hf' hf)
    rw [hopen]
    apply hs.isOpen
    intro request hp'
    cases hp.symm.trans hp'

theorem Backed.destructor {runner : Runner} (h : c.Backed (v.impl i)) (hf : ¬ c.Freed)
    (hs : c.DestroySteps runner c') :
    ∃ w, Serves reactor v (c.serviceCalls i r .destructor) i c' w := by
  obtain ⟨x, hx, hiff⟩ := h.alive hf
  cases hs with
  | closeRemote hd =>
    by_cases hopen : c.remoteSocket.isOpen = true
    · have hcalls : c.serviceCalls i r .destructor = [.close i r.close] := by
        simp only [serviceCalls, hd, if_pos hopen]
      have hstep : (SocketService.machine reactor).step v (.close i r.close) =
          some (v.set i (some (x.close r.close).impl)) := by
        show Option.map _ (Option.map _ (v.impl i)) = _
        rw [hx]
        rfl
      rw [hcalls]
      refine ⟨_, serves_one hstep ⟨nofun, fun _ => ⟨_, rfl, iff_of_false (fun ho => ho rfl) ?_⟩⟩⟩
      nofun
    · have hcalls : c.serviceCalls i r .destructor = [] := by
        simp only [serviceCalls, hd, if_neg hopen]
      refine h.unseen hcalls ?_ (iff_of_false nofun hf)
      exact (Bool.eq_false_of_not_eq_true hopen).symm
  | members hd hh hr =>
    have hcalls : c.serviceCalls i r .destructor = [.destroy i r.close] := by
      simp only [serviceCalls, hd, if_neg (not_or.mpr ⟨hh, hr⟩)]
    have hstep : (SocketService.machine reactor).step v (.destroy i r.close) =
        some (v.set i none) := by
      show Option.map _ (Option.map _ (v.impl i)) = _
      rw [hx]
      rfl
    rw [hcalls]
    exact ⟨_, serves_one hstep ⟨fun _ => rfl, fun hn => absurd rfl hn⟩⟩
  | terminate hd hj =>
    refine h.unseen ?_ rfl (iff_of_false nofun hf)
    simp only [serviceCalls, hd, if_pos hj]
  | _ hd => exact h.unseen (by simp only [serviceCalls, hd]) rfl (iff_of_false nofun hf)

/-- **The service carries out every step of a connection**: the operations that the step makes are
admitted, they leave the other implementations alone, and the implementation of the remote socket is
open when the socket is. -/
theorem Backed.steps (reactor : Reactor δ) (h : c.Backed (v.impl i)) (hr : machine.Reachable c)
    (hs : c.Steps a c') (hagrees : c.Agrees r a)
    (hfresh : .openSocket i .stream r.socket ∈ c.serviceCalls i r a → v.LklResult r.socket) :
    ∃ w, Serves reactor v (c.serviceCalls i r a) i c' w := by
  have hf : ¬ c.Freed := fun hf => hf.not_steps (closing hr) hs
  cases hs with
  | host hu hs => exact h.host hr hf hs ((Steps.host hu hs).not_freed hf nofun) hagrees hfresh
  | remote hu hq hs =>
    rename_i useCount out point q
    have hf' := (Steps.remote hu hq hs).not_freed hf nofun
    obtain ⟨e, -, heq⟩ := (c.relayedRemote q).releaseRemote_eq
    refine h.unseen rfl ?_ (iff_of_false hf' hf)
    rw [heq]
    exact hs.src_isOpen
  | destructor hs => exact h.destructor hf hs
  | accept ho hd => exact h.unseen rfl rfl Iff.rfl
  | start hp hd => exact h.unseen rfl rfl Iff.rfl
  | destroy hd => exact h.unseen rfl rfl (iff_of_false nofun hf)

end SocksConnection

end LklSocks
