import LklSocks.Machine.Runs

/-!
# Queues

Items are put into a queue at its end and served from its front, until the queue is closed; what is
left then is discarded from the front. What went in is what was served, discarded and waits, in this
order, so the items are served in the order in which they came, each at most once.

## Main definitions

* `Fifo`: the items that were served and those that wait
* `Fifo.machine`: the operations
* `Fifo.puts`: what an operation puts in
* `Fifo.entered`: the items that were put into an open queue

## Main results

* `Fifo.accounted`: nothing is lost, duplicated or overtaken
* `Fifo.served_of_notMem`: what was put in and does not wait was served
-/

universe u

/-- The items that were served, in their order, those that wait, and whether the queue is closed. -/
structure Fifo (α : Type u) where
  served : List α
  waiting : List α
  closed : Bool

inductive FifoAction (α : Type u)
  | put (x : α)
  | serve
  | close
  | discard

namespace Fifo

variable {α : Type u} {q t : Fifo α} {a : FifoAction α}

def empty : Fifo α := ⟨[], [], false⟩

/-- An open queue serves its first item, and a closed one discards it. -/
def machine : Machine (Fifo α) (FifoAction α) where
  init q := q = empty
  step q
    | .put x => some { q with waiting := q.waiting ++ [x] }
    | .serve =>
      match q.waiting with
      | [] => none
      | x :: rest =>
        if q.closed = false then some { q with served := q.served ++ [x], waiting := rest }
        else none
    | .close => some { q with closed := true }
    | .discard =>
      match q.waiting with
      | [] => none
      | _ :: rest => if q.closed = true then some { q with waiting := rest } else none

/-- What an operation puts into the queue. -/
def puts (_q : Fifo α) : FifoAction α → List α
  | .put x => [x]
  | .serve => []
  | .close => []
  | .discard => []

/-- The items `xs` went in: they were served or discarded, or they wait, and an open queue discards
nothing. -/
def Accounts (q : Fifo α) (xs : List α) : Prop :=
  ∃ discarded, xs = q.served ++ discarded ++ q.waiting ∧ (q.closed = false → discarded = [])

theorem Accounts.step {xs : List α} (h : q.Accounts xs) (hs : machine.step q a = some t) :
    t.Accounts (xs ++ q.puts a) := by
  obtain ⟨discarded, rfl, hopen⟩ := h
  cases a with
  | put x =>
    obtain rfl := Option.some.inj hs
    exact ⟨discarded, by simp [puts], hopen⟩
  | serve =>
    obtain ⟨served, waiting, closed⟩ := q
    cases waiting with
    | nil => cases hs
    | cons x rest =>
      obtain ⟨hc, he⟩ := Option.ite_none_right_eq_some.mp hs
      obtain rfl := Option.some.inj he
      -- an open queue has discarded nothing, so the next item is the first that waits
      obtain rfl := hopen hc
      exact ⟨[], by simp [puts], fun _ => rfl⟩
  | close =>
    obtain rfl := Option.some.inj hs
    exact ⟨discarded, by simp [puts], nofun⟩
  | discard =>
    obtain ⟨served, waiting, closed⟩ := q
    cases waiting with
    | nil => cases hs
    | cons x rest =>
      obtain ⟨hc, he⟩ := Option.ite_none_right_eq_some.mp hs
      obtain rfl := Option.some.inj he
      refine ⟨discarded ++ [x], by simp [puts], fun hc' => ?_⟩
      cases hc.symm.trans hc'

/-- **Nothing is lost, duplicated or overtaken** in any run. -/
theorem accounted {as : List (FifoAction α)} (h : machine.exec empty as = some q) :
    q.Accounts (machine.trace puts empty as) := by
  refine machine.exec_induction (P := fun as q => q.Accounts (machine.trace puts empty as)) ?_ ?_ h
  · exact ⟨[], rfl, fun _ => rfl⟩
  · intro as q a t he hq hs
    rw [machine.trace_snoc puts he]
    exact hq.step hs

/-! ## An open queue -/

/-- The items that were put in, as long as none is discarded. -/
def entered (q : Fifo α) : List α := q.served ++ q.waiting

/-- An open queue was open before. -/
theorem closed_of_step (hs : machine.step q a = some t) (ht : t.closed = false) :
    q.closed = false := by
  obtain ⟨served, waiting, closed⟩ := q
  cases a with
  | put x =>
    obtain rfl := Option.some.inj hs
    exact ht
  | serve =>
    cases waiting with
    | nil => cases hs
    | cons x rest => exact (Option.ite_none_right_eq_some.mp hs).1
  | close =>
    obtain rfl := Option.some.inj hs
    cases ht
  | discard =>
    cases waiting with
    | nil => cases hs
    | cons x rest =>
      obtain ⟨hc, he⟩ := Option.ite_none_right_eq_some.mp hs
      obtain rfl := Option.some.inj he
      exact ht

theorem entered_of_step (hs : machine.step q a = some t) (ht : t.closed = false) :
    q.entered <+: t.entered := by
  obtain ⟨served, waiting, closed⟩ := q
  cases a with
  | put x =>
    obtain rfl := Option.some.inj hs
    exact ⟨[x], List.append_assoc served waiting [x]⟩
  | serve =>
    cases waiting with
    | nil => cases hs
    | cons x rest =>
      obtain ⟨-, he⟩ := Option.ite_none_right_eq_some.mp hs
      obtain rfl := Option.some.inj he
      exact ⟨[], by simp [entered]⟩
  | close =>
    obtain rfl := Option.some.inj hs
    exact List.prefix_rfl
  | discard =>
    cases waiting with
    | nil => cases hs
    | cons x rest =>
      obtain ⟨hc, he⟩ := Option.ite_none_right_eq_some.mp hs
      obtain rfl := Option.some.inj he
      cases hc.symm.trans ht

/-- **An open queue loses nothing** in any run. -/
theorem entered_prefix {as : List (FifoAction α)} (h : machine.exec q as = some t)
    (ht : t.closed = false) : q.closed = false ∧ q.entered <+: t.entered := by
  refine machine.exec_induction
    (P := fun _ t => t.closed = false → q.closed = false ∧ q.entered <+: t.entered)
    (fun hq => ⟨hq, List.prefix_rfl⟩) ?_ h ht
  intro as m a u _ ih hs hu
  obtain ⟨hclosed, hprefix⟩ := ih (closed_of_step hs hu)
  exact ⟨hclosed, hprefix.trans (entered_of_step hs hu)⟩

/-- An item that was put in and does not wait was served, after those that came before it. -/
theorem served_of_notMem {xs : List α} {x : α} (h : xs ++ [x] <+: q.entered)
    (hx : x ∉ q.waiting) : xs ++ [x] <+: q.served := by
  have hserved : q.served <+: q.entered := List.prefix_append _ _
  rcases Nat.le_total (xs ++ [x]).length q.served.length with hle | hle
  · exact List.prefix_of_prefix_length_le h hserved hle
  · obtain ⟨ys, hys⟩ := List.prefix_of_prefix_length_le hserved h hle
    rcases List.eq_nil_or_concat ys with rfl | ⟨zs, z, rfl⟩
    · rw [List.append_nil] at hys
      rw [hys]
    · rw [List.concat_eq_append, ← List.append_assoc] at hys
      obtain ⟨-, hz⟩ := List.append_inj' hys rfl
      obtain rfl := List.singleton_inj.mp hz
      rw [← hys, List.append_assoc] at h
      have hwaiting : zs ++ [z] <+: q.waiting := (List.prefix_append_right_inj _).mp h
      exact absurd (hwaiting.subset (List.mem_append_right zs (List.mem_singleton_self z))) hx

end Fifo
