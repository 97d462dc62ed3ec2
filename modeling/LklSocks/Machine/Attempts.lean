import Mathlib.Data.List.Basic

/-!
# Attempts at an operation

An operation is attempted until it is done. An attempt that was interrupted is made again at once,
and one that cannot be completed now is made again when its resource is ready. A caller that blocks
goes through the attempts in one loop, with a wait where one is needed. A reactor makes a row of
attempts each time the resource is ready. For the same answers of the environment both come to the
same end. A caller that does not make an interrupted attempt again gives up there, and the others
go on with the answers after it.

## Main definitions

* `Attempt`: what an attempt comes to
* `Attempt.row`: attempts in a row, until one is done or has to wait
* `Attempt.blocking`: attempts with waits between them
* `Attempt.Driven`: an operation that is made each time its resource is ready
* `Attempt.once`, `Attempt.collapse`: a caller that gives up where it would try again or wait

## Main results

* `Attempt.driven_row_iff`: rows of attempts that are driven come to what the loop comes to
* `Attempt.blocking_once`: the loop of a caller that does not make interrupted attempts again
* `Attempt.blocking_collapse`: the loop of a caller that does not wait
-/

universe u v w

/-- What an attempt comes to: the operation is done, or it is attempted again, at once or when the
resource is ready. -/
inductive Attempt (β : Type v) (γ : Type w)
  | done (b : β)
  | again
  | wait (c : γ)

namespace Attempt

variable {α : Type u} {β : Type v} {γ : Type w}

/-- Attempts in a row, until one is done or has to wait; and the answers that are left. -/
def row (attempt : α → Attempt β γ) : List α → Option ((β ⊕ γ) × List α)
  | [] => none
  | a :: as =>
    match attempt a with
    | done b => some (.inl b, as)
    | again => row attempt as
    | wait c => some (.inr c, as)

/-- Attempts with waits between them, until one is done or a wait fails. -/
def blocking (attempt : α → Attempt β γ) (ready : γ → α → Option β) :
    List α → Option (β × List α)
  | [] => none
  | a :: as =>
    match attempt a with
    | done b => some (b, as)
    | again => blocking attempt ready as
    | wait c =>
      match as with
      | [] => none
      | p :: as =>
        match ready c p with
        | some b => some (b, as)
        | none => blocking attempt ready as

/-- An operation that is made each time its resource is ready, until it is done or a wait fails. -/
inductive Driven (op : List α → Option ((β ⊕ γ) × List α)) (ready : γ → α → Option β) :
    List α → β → List α → Prop
  | done {as bs : List α} {b : β} (h : op as = some (.inl b, bs)) : Driven op ready as b bs
  | failed {as bs : List α} {c : γ} {p : α} {b : β} (h : op as = some (.inr c, p :: bs))
      (hp : ready c p = some b) : Driven op ready as b bs
  | ready {as bs cs : List α} {c : γ} {p : α} {b : β} (h : op as = some (.inr c, p :: bs))
      (hp : ready c p = none) (hd : Driven op ready bs b cs) : Driven op ready as b cs

/-- A caller that gives up where it would try again at once. -/
def once (giveUp : α → β) (attempt : α → Attempt β γ) (a : α) : Attempt β γ :=
  match attempt a with
  | again => done (giveUp a)
  | r => r

/-- A caller that gives up where it would wait. -/
def collapse (giveUp : γ → β) (attempt : α → Attempt β γ) (a : α) : Attempt β γ :=
  match attempt a with
  | wait c => done (giveUp c)
  | r => r

variable {attempt : α → Attempt β γ} {ready : γ → α → Option β} {as bs : List α} {a p : α} {b : β}
  {c : γ}

theorem row_again (h : attempt a = again) : row attempt (a :: as) = row attempt as := by
  simp only [row, h]

theorem blocking_again (h : attempt a = again) :
    blocking attempt ready (a :: as) = blocking attempt ready as := by
  simp only [blocking, h]

/-! ## Rows of attempts -/

theorem blocking_of_row_done (h : row attempt as = some (.inl b, bs)) :
    blocking attempt ready as = some (b, bs) := by
  induction as with
  | nil => cases h
  | cons a as ih =>
    rcases ha : attempt a with b' | - | c'
    · simp only [row, ha] at h
      obtain ⟨rfl, rfl⟩ := Prod.mk.inj (Option.some.inj h) |>.imp_left Sum.inl.inj
      simp only [blocking, ha]
    · rw [row_again ha] at h
      rw [blocking_again ha]
      exact ih h
    · simp only [row, ha] at h
      cases h

theorem blocking_of_row_wait (h : row attempt as = some (.inr c, p :: bs)) :
    blocking attempt ready as =
      match ready c p with
      | some b => some (b, bs)
      | none => blocking attempt ready bs := by
  induction as with
  | nil => cases h
  | cons a as ih =>
    rcases ha : attempt a with b' | - | c'
    · simp only [row, ha] at h
      cases h
    · rw [row_again ha] at h
      rw [blocking_again ha]
      exact ih h
    · simp only [row, ha] at h
      obtain ⟨rfl, rfl⟩ := Prod.mk.inj (Option.some.inj h) |>.imp_left Sum.inr.inj
      simp only [blocking, ha]

/-- An interrupted attempt before a row of attempts. -/
theorem Driven.again (h : Driven (row attempt) ready as b bs) (ha : attempt a = .again) :
    Driven (row attempt) ready (a :: as) b bs := by
  rcases h with h | ⟨h, hp⟩ | ⟨h, hp, hd⟩
  · exact .done ((row_again ha).trans h)
  · exact .failed ((row_again ha).trans h) hp
  · exact .ready ((row_again ha).trans h) hp hd

/-- **Rows of attempts, each made when the resource is ready, come to what the loop comes to.** -/
theorem driven_row_iff :
    Driven (row attempt) ready as b bs ↔ blocking attempt ready as = some (b, bs) := by
  constructor
  · intro h
    induction h with
    | done h => exact blocking_of_row_done h
    | failed h hp => rw [blocking_of_row_wait h, hp]
    | ready h hp hd ih =>
      rw [blocking_of_row_wait h, hp]
      exact ih
  · intro h
    fun_induction blocking attempt ready as with
    | case1 => cases h
    | case2 a as b' ha =>
      obtain ⟨rfl, rfl⟩ := Prod.mk.inj (Option.some.inj h)
      exact .done (by simp only [row, ha])
    | case3 a as ha ih => exact (ih h).again ha
    | case4 => cases h
    | case5 a c ha p as b' hp =>
      obtain ⟨rfl, rfl⟩ := Prod.mk.inj (Option.some.inj h)
      exact .failed (by simp only [row, ha]) hp
    | case6 a c ha p as hp ih => exact .ready (by simp only [row, ha]) hp (ih h)

/-! ## Callers that give up -/

/-- **A caller that does not make an interrupted attempt again** comes to the same end, or gives up
at an interrupted attempt, and the answers after it decide what the others come to. -/
theorem blocking_once (attempt : α → Attempt β γ) (ready : γ → α → Option β) (giveUp : α → β)
    (as : List α) :
    blocking (once giveUp attempt) ready as = blocking attempt ready as ∨
      ∃ a bs, a :: bs <:+ as ∧ attempt a = again ∧
        blocking (once giveUp attempt) ready as = some (giveUp a, bs) ∧
        blocking attempt ready as = blocking attempt ready bs := by
  fun_induction blocking attempt ready as with
  | case1 => exact .inl rfl
  | case2 a as b ha =>
    left
    simp only [blocking, once, ha]
  | case3 a as ha ih =>
    refine .inr ⟨a, as, List.suffix_rfl, ha, ?_, rfl⟩
    simp only [blocking, once, ha]
  | case4 a c ha =>
    left
    simp only [blocking, once, ha]
  | case5 a c ha p as b hp =>
    left
    simp only [blocking, once, ha, hp]
  | case6 a c ha p as hp ih =>
    have hloop : blocking (once giveUp attempt) ready (a :: p :: as) =
        blocking (once giveUp attempt) ready as := by
      simp only [blocking, once, ha, hp]
    rw [hloop]
    refine ih.imp_right ?_
    rintro ⟨a', bs, hs, h⟩
    exact ⟨a', bs, hs.trans ((List.suffix_cons p as).trans (List.suffix_cons a _)), h⟩

/-- **A caller that does not wait** makes one row of attempts. -/
theorem blocking_collapse (giveUp : γ → β) (as : List α) :
    blocking (collapse giveUp attempt) ready as =
      (row attempt as).map fun r => (r.1.elim id giveUp, r.2) := by
  induction as with
  | nil => rfl
  | cons a as ih =>
    rcases ha : attempt a with b | - | c
    · simp only [blocking, collapse, row, ha]
      rfl
    · simp only [blocking, collapse, row, ha, ih]
    · simp only [blocking, collapse, row, ha]
      rfl

end Attempt
