import LklSocks.SocksServer.Accept

/-!
# Ownership of the connections

A connection lives as long as a strong reference to it exists. Every step of the program moves
references, creates a connection with one reference, or releases one, and starts the destructor
exactly when it releases the last. So the destructor of a connection has started if and only if no
reference to it is left, and two connections have the same address only if the older one is freed.

## Main definitions

* `SocksServer.drops`: the reference that the main thread is about to release
* `SocksServer.OwnedBy`: the invariant
* `SocksServer.ConnSteps`: what a step of the program does to one connection

## Main results

* `SocksServer.OwnedBy.mem_owners_iff`: the main thread loses only the reference it releases
* `SocksServer.ownedBy`: the invariant holds in every reachable state
* `SocksServer.OwnedBy.connSteps`: every connection of the program runs as a connection of its own
-/

namespace LklSocks

namespace SocksServer

variable {s t : SocksServer} {a : Action}

theorem owners_count (s : SocksServer) (d : ℕ) :
    s.owners.count d = s.connections.count d + (s.queue.map Handler.conn).count d +
      s.accepting.toList.count d + s.main.conn.toList.count d := by
  simp only [owners, List.count_append]

theorem mem_owners {d : ℕ} :
    d ∈ s.owners ↔ d ∈ s.connections ∨ d ∈ s.queue.map Handler.conn ∨ some d = s.accepting ∨
      some d = s.main.conn := by
  simp only [owners, List.mem_append, Option.mem_toList, or_assoc, @eq_comm _ (some d)]

/-- The connection whose reference the main thread is about to release. -/
def drops (s : SocksServer) : Option ℕ :=
  match s.main with
  | .finish c => some c
  | .dropConnections => s.connections.head?
  | .dropHandlers => s.queue.head?.map Handler.conn
  | _ => none

theorem release_owners (s : SocksServer) (c : ℕ) : (s.release c).owners = s.owners := by
  simp [owners]

/-! ## Ownership -/

/-- Every connection runs as one of its own; the ones that were not yet created are not referred
to; the destructor of the others has started exactly when no reference is left; and an address is
used again only when its connection is freed. -/
structure OwnedBy (s : SocksServer) : Prop where
  reachable : ∀ c, SocksConnection.machine.Reachable (s.conn c)
  unused : ∀ c, s.next ≤ c → c ∉ s.owners ∧ (s.conn c).hostThread = .idle ∧
    (s.conn c).remoteThread = .idle ∧ (s.conn c).destructor = none
  owned : ∀ c < s.next, (s.conn c).Owned (s.owners.count c)
  address : ∀ c d, c < d → d < s.next → (s.conn c).address = (s.conn d).address →
    (s.conn c).Freed

theorem ownedBy_initial (order : ByteOrder) : (initial order).OwnedBy where
  reachable _ := .of_init ⟨order, _, rfl⟩
  unused _ _ := ⟨by simp [initial, owners, MainPoint.conn], rfl, rfl, rfl⟩
  owned _ hc := absurd hc (Nat.not_lt_zero _)
  address _ _ _ hd := absurd hd (Nat.not_lt_zero _)

namespace OwnedBy

theorem lt_next {c : ℕ} (h : s.OwnedBy) (hc : c ∈ s.owners) : c < s.next :=
  not_le.mp fun hn => (h.unused c hn).1 hc

/-- What is referred to is alive. -/
theorem destructor_eq {c : ℕ} (h : s.OwnedBy) (hc : c ∈ s.owners) :
    (s.conn c).destructor = none :=
  (h.owned c (h.lt_next hc)).destructor_eq fun h0 => List.count_eq_zero.mp h0 hc

/-- Two connections that are referred to have different addresses. -/
theorem eq_of_address {c d : ℕ} (h : s.OwnedBy) (hc : c ∈ s.owners) (hd : d ∈ s.owners)
    (ha : (s.conn c).address = (s.conn d).address) : c = d := by
  rcases lt_trichotomy c d with hlt | heq | hlt
  · exact absurd (h.destructor_eq hc) (h.address c d hlt (h.lt_next hd) ha).destructor_ne
  · exact heq
  · exact absurd (h.destructor_eq hd) (h.address d c hlt (h.lt_next hc) ha.symm).destructor_ne

/-- A step that changes no connection. -/
theorem of_conn (h : s.OwnedBy) (hconn : t.conn = s.conn) (hnext : t.next = s.next)
    (hmem : ∀ d, d ∈ t.owners → d ∈ s.owners)
    (hown : ∀ d < s.next, (s.conn d).Owned (t.owners.count d)) : t.OwnedBy where
  reachable := by
    rw [hconn]
    exact h.reachable
  unused c hc := by
    rw [hconn]
    obtain ⟨hc', hidle⟩ := h.unused c (hnext ▸ hc)
    exact ⟨fun hm => hc' (hmem c hm), hidle⟩
  owned c hc := by
    rw [hconn]
    exact hown c (hnext ▸ hc)
  address := by
    rw [hconn, hnext]
    exact h.address

/-- A step that only moves references. -/
theorem move (h : s.OwnedBy) (hconn : t.conn = s.conn) (hnext : t.next = s.next)
    (hmem : ∀ d, d ∈ t.owners ↔ d ∈ s.owners) : t.OwnedBy := by
  apply h.of_conn hconn hnext (fun d => (hmem d).mp)
  intro d hd
  apply (h.owned d hd).congr
  rw [List.count_eq_zero, List.count_eq_zero, hmem]

/-- A step of one connection. -/
theorem update {c : ℕ} {b : ConnectionAction} {x : SocksConnection} (h : s.OwnedBy)
    (hc : c < s.next) (hx : (s.conn c).step b = some x)
    (hconn : t.conn = Function.update s.conn c x) (hnext : t.next = s.next)
    (hmem : ∀ d, d ≠ c → (d ∈ t.owners ↔ d ∈ s.owners)) (hown : x.Owned (t.owners.count c)) :
    t.OwnedBy where
  reachable d := by
    rw [hconn]
    by_cases hd : d = c
    · subst hd
      rw [Function.update_self]
      exact (h.reachable d).step hx
    · rw [Function.update_of_ne hd]
      exact h.reachable d
  unused d hd := by
    have hne : d ≠ c := by omega
    rw [hconn, Function.update_of_ne hne, hmem d hne]
    exact h.unused d (hnext ▸ hd)
  owned d hd := by
    rw [hconn]
    by_cases hdc : d = c
    · subst hdc
      rw [Function.update_self]
      exact hown
    · rw [Function.update_of_ne hdc]
      apply (h.owned d (hnext ▸ hd)).congr
      rw [List.count_eq_zero, List.count_eq_zero, hmem d hdc]
  address d e hde he ha := by
    have hs := SocksConnection.step_cases hx
    have haddress (i : ℕ) : (t.conn i).address = (s.conn i).address := by
      rw [hconn]
      by_cases hi : i = c
      · rw [hi, Function.update_self, hs.address]
      · rw [Function.update_of_ne hi]
    rw [haddress, haddress] at ha
    have hfreed := h.address d e hde (hnext ▸ he) ha
    rw [hconn]
    by_cases hdc : d = c
    · subst hdc
      exact absurd hs (hfreed.not_steps (SocksConnection.closing (h.reachable d)))
    · rw [Function.update_of_ne hdc]
      exact hfreed

/-- A new connection, owned by its accept operation. -/
theorem create {alloc : Allocation} {main : MainPoint} (h : s.OwnedBy) (hacc : s.accepting = none)
    (hmain : main.conn = s.main.conn)
    (ha : ∀ c < s.next, (s.conn c).address = alloc.address → (s.conn c).Freed) :
    OwnedBy { s.setConn s.next (.create s.order alloc) with
      accepting := some s.next, next := s.next + 1, main := main } where
  reachable d := by
    by_cases hd : d = s.next
    · subst hd
      rw [setConn_conn, Function.update_self]
      exact .of_init ⟨_, _, rfl⟩
    · rw [setConn_conn, Function.update_of_ne hd]
      exact h.reachable d
  unused d hd := by
    have hne : d ≠ s.next := by
      rintro rfl
      exact absurd hd (Nat.not_succ_le_self _)
    obtain ⟨hmem, hidle⟩ := h.unused d (Nat.le_of_succ_le hd)
    rw [setConn_conn, Function.update_of_ne hne]
    refine ⟨fun hd' => hmem ?_, hidle⟩
    simpa [mem_owners, hacc, hmain, hne] using hd'
  owned d hd := by
    by_cases hne : d = s.next
    · subst hne
      rw [setConn_conn, Function.update_self]
      refine .of_ne (fun h0 => List.count_eq_zero.mp h0 ?_) rfl
      simp [mem_owners]
    · rw [setConn_conn, Function.update_of_ne hne]
      apply (h.owned d (by have : d < s.next + 1 := hd; omega)).congr
      rw [List.count_eq_zero, List.count_eq_zero]
      simp [mem_owners, hacc, hmain, hne]
  address c d hcd hd haddr := by
    have hd' : d < s.next + 1 := hd
    have hc : c ≠ s.next := by omega
    rw [setConn_conn, Function.update_of_ne hc] at haddr ⊢
    by_cases hne : d = s.next
    · -- the allocator reuses an address only when its connection is freed
      subst hne
      rw [Function.update_self] at haddr
      exact ha c hcd haddr
    · rw [Function.update_of_ne hne] at haddr
      exact h.address c d hcd (by omega) haddr

/-- The release of a reference by the main thread. -/
theorem release {c : ℕ} (h : s.OwnedBy) (hconn : t.conn = s.conn) (hnext : t.next = s.next)
    (hmem : ∀ d, d ≠ c → (d ∈ t.owners ↔ d ∈ s.owners)) (hc : c ∈ s.owners) :
    (t.release c).OwnedBy := by
  have hd := h.destructor_eq hc
  unfold SocksServer.release
  split
  · next hlast =>
    obtain ⟨h0, hd'⟩ := hlast
    have hx : (s.conn c).step .destroy =
        some { s.conn c with destructor := some (.main, .closeRemote) } := if_pos hd
    refine h.update (h.lt_next hc) hx ?_ hnext hmem ?_
    · show Function.update t.conn c { t.conn c with destructor := _ } = _
      rw [hconn]
    · refine ⟨fun _ => nofun, fun _ => ?_⟩
      have h0' : t.owners.count c + (t.conn c).held = 0 := h0
      rw [hconn] at h0'
      exact h0'
  · next hlast =>
    refine h.of_conn hconn hnext ?_ ?_
    · intro d hd'
      by_cases hdc : d = c
      · exact hdc ▸ hc
      · exact (hmem d hdc).mp hd'
    · intro d hd'
      by_cases hdc : d = c
      · subst hdc
        have hne : t.useCount d ≠ 0 := fun h0 => hlast ⟨h0, by rw [hconn]; exact hd⟩
        rw [useCount, hconn] at hne
        exact ⟨fun h0 => absurd h0 hne, fun hnd => absurd hd hnd⟩
      · apply (h.owned d hd').congr
        rw [List.count_eq_zero, List.count_eq_zero, hmem d hdc]

/-- Before the next accept is started, none is outstanding. -/
theorem accepting_eq_none (h : s.AcceptsOne)
    (hm : s.main = .construct ∨ ∃ c, s.main = .rearm c) : s.accepting = none := by
  rcases hm with hm | ⟨c, hm⟩ <;> simp_all [AcceptsOne, accepts]

/-- What is referred to after a step of the main thread was referred to before, up to the reference
that is released and the connection that is created. -/
theorem mem_owners_iff {d : ℕ} (h : s.OwnedBy) (hacc : s.AcceptsOne) (hs : s.ServerSteps a t)
    (hd : s.drops ≠ some d) (hn : d = s.next → ∀ alloc, a ≠ .alloc alloc) :
    d ∈ t.owners ↔ d ∈ s.owners := by
  cases hs with
  | construct hm ha =>
    have hne : d ≠ s.next := fun he => hn he _ rfl
    simp [mem_owners, hm, accepting_eq_none hacc (.inl hm), MainPoint.conn, hne]
  | rearm hm ha =>
    have hne : d ≠ s.next := fun he => hn he _ rfl
    simp [mem_owners, hm, accepting_eq_none hacc (.inr ⟨_, hm⟩), MainPoint.conn, hne]
  | accepted hm ha hx =>
    simp [mem_owners, ha]
    grind
  | refused hm ha =>
    simp [mem_owners, ha]
    grind
  | runAccept hm hq =>
    rename_i c error rest
    cases error <;> simp [mem_owners, hq, hm, handleAccept, MainPoint.conn] <;> grind
  | runStart hm hq =>
    simp [mem_owners, hq, hm, MainPoint.conn]
    grind
  | runStop hm hq =>
    simp [mem_owners, hq, hm, MainPoint.conn]
    grind
  | remove hm =>
    rename_i c
    have hc : c ∈ s.owners := by simp [mem_owners, hm, MainPoint.conn]
    -- whatever has the address of `c` in the list is `c`, which the handler still owns
    have hsame : d ∈ s.connections → (s.conn d).address = (s.conn c).address → d = c :=
      fun hd => h.eq_of_address (mem_owners.mpr (.inl hd)) hc
    simp [mem_owners, hm, SocksServer.remove, MainPoint.conn]
    grind
  | finish hm =>
    rename_i c
    have hne : d ≠ c := fun he => hd (by simp [drops, hm, he])
    simp [mem_owners, hm, MainPoint.conn, hne]
  | closeAcceptor hm =>
    cases hacc : s.accepting <;>
      simp [mem_owners, hm, hacc, SocksServer.closeAcceptor, MainPoint.conn]
  | dropConnection hm hc =>
    rename_i c rest
    have hne : d ≠ c := fun he => hd (by simp [drops, hm, hc, he])
    simp [mem_owners, hc, hne]
  | dropHandler hm hq =>
    rename_i handler rest
    have hne : d ≠ handler.conn := fun he => hd (by simp [drops, hm, hq, he])
    simp [mem_owners, hq, hne]
  | _ => simp_all [mem_owners, MainPoint.conn]

/-- The main thread keeps the invariant. -/
theorem server (h : s.OwnedBy) (hacc : s.AcceptsOne) (hs : s.ServerSteps a t) : t.OwnedBy := by
  have hmem {d : ℕ} := h.mem_owners_iff (d := d) hacc hs
  cases hs with
  | construct hm ha =>
    exact h.create (accepting_eq_none hacc (.inl hm)) (by simp [hm, MainPoint.conn]) ha
  | rearm hm ha =>
    exact h.create (accepting_eq_none hacc (.inr ⟨_, hm⟩)) (by simp [hm, MainPoint.conn]) ha
  | accepted hm ha hx =>
    rename_i c stream x
    have hc : c ∈ s.owners := by simp [mem_owners, ha]
    refine h.update (h.lt_next hc) hx rfl rfl (fun d hd => hmem (by simp [drops, hm]) nofun) ?_
    refine .of_ne (fun h0 => List.count_eq_zero.mp h0 (by simp [mem_owners])) ?_
    cases SocksConnection.step_cases hx with
    | accept ho hd => exact hd
  | startThread hm hx =>
    rename_i c x
    have hc : c ∈ s.owners := by simp [mem_owners, hm, MainPoint.conn]
    refine h.update (h.lt_next hc) hx rfl rfl (fun d hd => hmem (by simp [drops, hm]) nofun) ?_
    refine .of_ne (fun h0 => List.count_eq_zero.mp h0 (by simp [mem_owners, MainPoint.conn])) ?_
    cases SocksConnection.step_cases hx with
    | start hp hd => exact hd
  | finish hm =>
    refine h.release rfl rfl (fun d hd => ?_) (by simp [mem_owners, hm, MainPoint.conn])
    have hiff := hmem (d := d) (by simp [drops, hm, hd.symm]) nofun
    rwa [release_owners] at hiff
  | dropConnection hm hc =>
    refine h.release rfl rfl (fun d hd => ?_) (by simp [mem_owners, hc])
    have hiff := hmem (d := d) (by simp [drops, hm, hc, hd.symm]) nofun
    rwa [release_owners] at hiff
  | dropHandler hm hq =>
    refine h.release rfl rfl (fun d hd => ?_) (by simp [mem_owners, hq])
    have hiff := hmem (d := d) (by simp [drops, hm, hq, hd.symm]) nofun
    rwa [release_owners] at hiff
  | dropped hm hc => exact h.move rfl rfl fun d => hmem (by simp [drops, hm, hc]) nofun
  | exit hm hq => exact h.move rfl rfl fun d => hmem (by simp [drops, hm, hq]) nofun
  | _ hm => exact h.move rfl rfl fun d => hmem (by simp [drops, hm]) nofun

/-- A connection that makes a step was created. -/
theorem lt_of_host {c : ℕ} {out : Outcome} {x : SocksConnection} (h : s.OwnedBy)
    (hx : (s.conn c).hostStep (s.useCount c) out = some x) : c < s.next := by
  by_contra hn
  obtain ⟨d, hd, -⟩ := Option.map_eq_some_iff.mp hx
  exact (SocksConnection.handshake_cases hd).not_over (.inl (h.unused c (not_lt.mp hn)).2.1)

theorem lt_of_remote {c : ℕ} {out : Outcome} {x : SocksConnection} (h : s.OwnedBy)
    (hx : (s.conn c).remoteStep (s.useCount c) out = some x) : c < s.next := by
  by_contra hn
  obtain ⟨d, hd, -⟩ := Option.map_eq_some_iff.mp hx
  obtain ⟨q, r, hq, -, -⟩ := SocksConnection.receiveRemote_cases hd
  cases hq.symm.trans (h.unused c (not_lt.mp hn)).2.2.1

theorem lt_of_destroy {c : ℕ} {x : SocksConnection} (h : s.OwnedBy)
    (hx : (s.conn c).destroyStep = some x) : c < s.next := by
  by_contra hn
  have hd := (h.unused c (not_lt.mp hn)).2.2.2
  simp [SocksConnection.destroyStep, hd] at hx

/-- No reference is left once the destructor has started. -/
theorem useCount_eq {c : ℕ} (h : s.OwnedBy) (hc : c < s.next) :
    (s.conn c).destructor = none ∨ s.useCount c = 0 :=
  or_iff_not_imp_left.mpr (h.owned c hc).mpr

theorem host_step {c : ℕ} {out : Outcome} {x : SocksConnection} (h : s.OwnedBy)
    (hx : (s.conn c).hostStep (s.useCount c) out = some x) :
    (s.conn c).step (.host (s.useCount c) out) = some x :=
  (if_pos (h.useCount_eq (h.lt_of_host hx))).trans hx

theorem remote_step {c : ℕ} {out : Outcome} {x : SocksConnection} (h : s.OwnedBy)
    (hx : (s.conn c).remoteStep (s.useCount c) out = some x) :
    (s.conn c).step (.remote (s.useCount c) out) = some x :=
  (if_pos (h.useCount_eq (h.lt_of_remote hx))).trans hx

theorem host {c : ℕ} {out : Outcome} {x : SocksConnection} (h : s.OwnedBy)
    (hx : (s.conn c).hostStep (s.useCount c) out = some x)
    (ht : t.conn = Function.update s.conn c x) (hn : t.next = s.next)
    (ho : ∀ d, t.owners.count d =
      s.owners.count d + if c = d then posts (s.conn c).hostThread.call else 0) : t.OwnedBy := by
  refine h.update (h.lt_of_host hx) (h.host_step hx) ht hn ?_ ?_
  · intro d hd
    rw [← List.count_pos_iff, ← List.count_pos_iff, ho, if_neg hd.symm, Nat.add_zero]
  · rw [ho, if_pos rfl]
    exact (h.owned c (h.lt_of_host hx)).hostStep (SocksConnection.framed (h.reachable c)) hx

theorem remote {c : ℕ} {out : Outcome} {x : SocksConnection} (h : s.OwnedBy)
    (hx : (s.conn c).remoteStep (s.useCount c) out = some x)
    (ht : t.conn = Function.update s.conn c x) (hn : t.next = s.next)
    (ho : ∀ d, t.owners.count d =
      s.owners.count d + if c = d then posts (s.conn c).remoteThread.call else 0) : t.OwnedBy := by
  refine h.update (h.lt_of_remote hx) (h.remote_step hx) ht hn ?_ ?_
  · intro d hd
    rw [← List.count_pos_iff, ← List.count_pos_iff, ho, if_neg hd.symm, Nat.add_zero]
  · rw [ho, if_pos rfl]
    exact (h.owned c (h.lt_of_remote hx)).remoteStep hx

end OwnedBy

theorem count_posting (c d : ℕ) (call : Option StopCall) :
    ((posting c call).map Handler.conn).count d = if c = d then posts call else 0 := by
  unfold posting posts
  split <;> simp [List.count_singleton, beq_iff_eq]

theorem owners_count_post (s : SocksServer) (c d : ℕ) (x : SocksConnection)
    (call : Option StopCall) :
    ((s.setConn c x).post (posting c call)).owners.count d =
      s.owners.count d + if c = d then posts call else 0 := by
  rw [owners_count, owners_count, post_queue, List.map_append, List.count_append, count_posting]
  simp only [post_connections, setConn_connections, setConn_queue, post_accepting,
    setConn_accepting, post_main, setConn_main]
  omega

/-- Every step keeps the invariant of ownership. -/
theorem OwnedBy.steps (h : s.OwnedBy) (hacc : s.AcceptsOne) (hs : s.Steps a t) : t.OwnedBy := by
  cases hs with
  | server hb hs => exact h.server hacc hs
  | host hx => exact h.host hx rfl rfl fun d => owners_count_post s _ d _ _
  | remote hx => exact h.remote hx rfl rfl fun d => owners_count_post s _ d _ _
  | destructor hx =>
    rename_i c x
    have hc := h.lt_of_destroy hx
    have hstep : (s.conn c).step .destructor = some x := hx
    refine h.update hc hstep rfl rfl (fun d _ => Iff.rfl) ?_
    obtain ⟨runner, hd⟩ := SocksConnection.destroyStep_cases hx
    exact (h.owned c hc).destroySteps hd

/-- **Ownership**: in every reachable state the destructor of a connection has started exactly when
no strong reference to it is left, and addresses are not shared. -/
theorem ownedBy (h : machine.Reachable s) : s.OwnedBy := by
  refine h.invariant (P := OwnedBy) ?_ ?_
  · rintro _ ⟨order, rfl⟩
    exact ownedBy_initial order
  · intro s a t hr hs ht
    exact hs.steps (acceptsOne hr) (step_cases ht).2.2

/-! ## The connections of the program -/

/-- How a step of the program is a step of the connection `c`. -/
inductive Causes (s : SocksServer) (c : ℕ) : Action → ConnectionAction → Prop
  | accept {stream : List UInt8} (ha : s.accepting = some c) :
      Causes s c (.accept none stream) (.accept stream)
  | start (hm : s.main = .startThread c) : Causes s c .main .start
  | host {out : Outcome} : Causes s c (.host c out) (.host (s.useCount c) out)
  | remote {out : Outcome} : Causes s c (.remote c out) (.remote (s.useCount c) out)
  | destroy : Causes s c .main .destroy
  | destructor : Causes s c (.destructor c) .destructor

/-- What a step of the program does to the connection `c`: nothing, or it creates it, or it is a
step of the connection. -/
inductive ConnSteps (s : SocksServer) (c : ℕ) (a : Action) (x : SocksConnection) : Prop
  | same (h : x = s.conn c)
  | create (hc : c = s.next) (alloc : Allocation) (h : x = .create s.order alloc)
  | step (b : ConnectionAction) (hb : s.Causes c a b) (h : (s.conn c).step b = some x)

theorem connSteps_release {d : ℕ} (ht : t.conn = s.conn) (c : ℕ) :
    s.ConnSteps c .main ((t.release d).conn c) := by
  unfold release
  split
  · next hlast =>
    by_cases hc : c = d
    · subst hc
      rw [ht] at hlast
      refine .step .destroy .destroy ?_
      show (if _ then _ else _) = some (Function.update t.conn c _ c)
      rw [if_pos hlast.2, Function.update_self, ht]
    · exact .same (by show Function.update t.conn d _ c = _; rw [Function.update_of_ne hc, ht])
  · exact .same (by rw [ht])

theorem connSteps_update {d : ℕ} {b : ConnectionAction} {x : SocksConnection}
    (hb : s.Causes d a b) (hx : (s.conn d).step b = some x) (c : ℕ) :
    s.ConnSteps c a (Function.update s.conn d x c) := by
  by_cases hc : c = d
  · subst hc
    rw [Function.update_self]
    exact .step b hb hx
  · rw [Function.update_of_ne hc]
    exact .same rfl

theorem OwnedBy.connSteps (h : s.OwnedBy) (hs : s.Steps a t) (c : ℕ) :
    s.ConnSteps c a (t.conn c) := by
  cases hs with
  | server hb hs =>
    cases hs with
    | @construct alloc hm ha =>
      by_cases hc : c = s.next
      · exact .create hc alloc (by simp [hc])
      · exact .same (by simp [hc])
    | @rearm d alloc hm ha =>
      by_cases hc : c = s.next
      · exact .create hc alloc (by simp [hc])
      · exact .same (by simp [hc])
    | accepted hm ha hx => exact connSteps_update (.accept ha) hx c
    | startThread hm hx => exact connSteps_update (.start hm) hx c
    | finish hm => exact connSteps_release (by rfl) c
    | dropConnection hm hc => exact connSteps_release (by rfl) c
    | dropHandler hm hq => exact connSteps_release (by rfl) c
    | _ => exact .same rfl
  | host hx => exact connSteps_update .host (h.host_step hx) c
  | remote hx => exact connSteps_update .remote (h.remote_step hx) c
  | destructor hx => exact connSteps_update .destructor hx c

end SocksServer

end LklSocks
