import LklSocks.Machine.Progress

/-!
# Machines whose steps are answered

The outcome of a step is often not free, but what a lower level answers. A machine over these
answers makes a step of the machine below it for each answer, or no step where the answer changes
nothing. Its runs are runs of that machine. Where a measure ends the runs of the machine, an
infinite run over the answers comes to idle.

## Main definitions

* `Machine.answered`: the machine over the answers
* `Machine.made`: the step that is made for an answer, if any

## Main results

* `Machine.exec_made`: the runs over the answers are runs of the machine
* `Machine.eventually_idle`: an infinite run over the answers comes to idle
-/

universe u v w x

namespace Machine

variable {σ : Type u} {α : Type v} {β : Type w} {M : Machine σ α}
  {decided : σ → β → Option (Option α)} {s t : σ} {b : β} {bs : List β}

/-- The machine over the answers. An answer decides a step or no step, if it can be given. -/
def answered (M : Machine σ α) (decided : σ → β → Option (Option α)) : Machine σ β where
  init := M.init
  step s b := (decided s b).bind fun a => a.elim (some s) (M.step s)

/-- The step that is made for an answer. -/
def made (decided : σ → β → Option (Option α)) (s : σ) (b : β) : List α :=
  ((decided s b).bind id).toList

theorem made_of_decided {a : Option α} (h : decided s b = some a) :
    made decided s b = a.toList := by
  rw [made, h]
  rfl

theorem answered_step_iff : (M.answered decided).step s b = some t ↔
    (∃ a, decided s b = some (some a) ∧ M.step s a = some t) ∨
      decided s b = some none ∧ t = s := by
  constructor
  · intro h
    obtain ⟨a, hd, ha⟩ := Option.bind_eq_some_iff.mp h
    rcases a with - | a
    · exact .inr ⟨hd, (Option.some.inj ha).symm⟩
    · exact .inl ⟨a, hd, ha⟩
  · rintro (⟨a, hd, ha⟩ | ⟨hd, rfl⟩)
    · exact Option.bind_eq_some_iff.mpr ⟨some a, hd, ha⟩
    · exact Option.bind_eq_some_iff.mpr ⟨none, hd, rfl⟩

theorem exists_decided (h : (M.answered decided).step s b = some t) :
    ∃ a, decided s b = some a :=
  (Option.bind_eq_some_iff.mp h).imp fun _ ha => ha.1

/-- **A run over the answers is a run of the machine.** -/
theorem exec_made (h : (M.answered decided).exec s bs = some t) :
    M.exec s ((M.answered decided).trace (made decided) s bs) = some t := by
  refine (M.answered decided).exec_induction
    (P := fun bs t => M.exec s ((M.answered decided).trace (made decided) s bs) = some t) rfl ?_ h
  intro bs t b u hbs ih hb
  rw [trace_snoc _ _ hbs, exec_append, ih]
  rcases answered_step_iff.mp hb with ⟨a, hd, ha⟩ | ⟨hd, rfl⟩
  · rw [made_of_decided hd]
    show M.exec t [a] = some u
    rw [exec_cons, ha]
    rfl
  · rw [made_of_decided hd]
    rfl

theorem reachable_of_answered (h : (M.answered decided).Reachable s) : M.Reachable s := by
  obtain ⟨s₀, bs, hinit, hbs⟩ := h
  exact ⟨s₀, _, hinit, exec_made hbs⟩

/-- **An infinite run over the answers comes to idle**, if a measure ends the runs of the machine:
from some point on no answer decides a step, and the state does not change. -/
theorem eventually_idle {γ : Type x} [Preorder γ] [WellFoundedLT γ] {μ : σ → γ} {P : σ → Prop}
    (next : ∀ s a t, P s → M.step s a = some t → P t ∧ μ t < μ s) {run : ℕ → σ} {bs : ℕ → β}
    (hrun : P (run 0))
    (hstep : ∀ n, (M.answered decided).step (run n) (bs n) = some (run (n + 1))) :
    ∃ n, ∀ m ≥ n, run m = run n ∧ decided (run m) (bs m) = some none := by
  have hp : ∀ n, P (run n) := by
    intro n
    induction n with
    | zero => exact hrun
    | succ n ih =>
      rcases answered_step_iff.mp (hstep n) with ⟨a, -, ha⟩ | ⟨-, hsame⟩
      · exact (next _ _ _ ih ha).1
      · rw [hsame]
        exact ih
  -- the smallest measure of the run is kept from its first state on
  obtain ⟨n, hmin⟩ : ∃ n, ∀ m, ¬ μ (run m) < μ (run n) := by
    obtain ⟨-, ⟨n, rfl⟩, hmin⟩ :=
      WellFounded.has_min (wellFounded_lt (α := γ)) (Set.range (μ ∘ run)) ⟨_, 0, rfl⟩
    exact ⟨n, fun m => hmin _ ⟨m, rfl⟩⟩
  have hidle {m : ℕ} (hm : run m = run n) :
      decided (run m) (bs m) = some none ∧ run (m + 1) = run m := by
    rcases answered_step_iff.mp (hstep m) with ⟨a, -, ha⟩ | h
    · exact absurd (hm ▸ (next _ _ _ (hp m) ha).2) (hmin (m + 1))
    · exact h
  have hsame (k : ℕ) : run (n + k) = run n := by
    induction k with
    | zero => rfl
    | succ k ih => exact (hidle ih).2.trans ih
  refine ⟨n, fun m hm => ?_⟩
  obtain ⟨k, rfl⟩ := Nat.exists_eq_add_of_le hm
  exact ⟨hsame k, (hidle (hsame k)).1⟩

end Machine
