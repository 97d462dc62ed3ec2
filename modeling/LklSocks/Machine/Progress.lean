import LklSocks.Machine.Runs
import Mathlib.Order.OrderIsoNat

/-!
# Runs that come to an end

A measure that every step makes smaller ends the runs: none is infinite, and where the measure is a
number it bounds their length. Where only some steps make the measure smaller, a run of such steps
reaches the goal if there is one in every state before it.

## Main definitions

* `Machine.Stuck`: a state without a step
* `Machine.Infinite`: an infinite run
* `Machine.restrict`: the machine that makes some of the steps only

## Main results

* `Machine.infinite_of_rounds`: an infinite run from rounds
* `Machine.length_le_of_decreases`: the length of a run is at most the measure
* `Machine.exists_ge_of_decreases`: an infinite run goes on making other steps
* `Machine.not_infinite`: no run is infinite
* `Machine.exists_exec_of_decreases`: a run to a goal
-/

universe u v w

namespace Machine

variable {σ : Type u} {α : Type v} {M : Machine σ α} {P goal : σ → Prop} {ok : α → Prop}

/-- No label is admitted. -/
def Stuck (M : Machine σ α) (s : σ) : Prop := ∀ a, M.step s a = none

/-- An infinite run starts in `s`. -/
def Infinite (M : Machine σ α) (s : σ) : Prop :=
  ∃ (run : ℕ → σ) (as : ℕ → α), run 0 = s ∧ ∀ n, M.step (run n) (as n) = some (run (n + 1))

section Restrict

variable (M) (allowed : σ → α → Prop) [∀ s a, Decidable (allowed s a)]

/-- The machine that makes the steps that are allowed. -/
def restrict : Machine σ α where
  init := M.init
  step s a := if allowed s a then M.step s a else none

variable {M allowed}

theorem restrict_step_iff {s t : σ} {a : α} :
    (M.restrict allowed).step s a = some t ↔ allowed s a ∧ M.step s a = some t :=
  Option.ite_none_right_eq_some

theorem stuck_restrict_iff {s : σ} :
    (M.restrict allowed).Stuck s ↔ ∀ a, allowed s a → M.step s a = none := by
  constructor
  · intro h a ha
    exact (if_pos ha).symm.trans (h a)
  · intro h a
    by_cases ha : allowed s a
    · exact (if_pos ha).trans (h a ha)
    · exact if_neg ha

end Restrict

/-- **A measure bounds the runs.** -/
theorem length_le_of_decreases {μ : σ → ℕ}
    (next : ∀ s a t, P s → M.step s a = some t → P t ∧ μ t < μ s) {s t : σ} {as : List α}
    (hs : P s) (he : M.exec s as = some t) : P t ∧ as.length + μ t ≤ μ s := by
  induction as generalizing s with
  | nil =>
    obtain rfl := Option.some.inj he
    exact ⟨hs, (Nat.zero_add _).le⟩
  | cons a as ih =>
    obtain ⟨m, hm, he⟩ := Option.bind_eq_some_iff.mp he
    obtain ⟨hpm, hlt⟩ := next s a m hs hm
    obtain ⟨hpt, hle⟩ := ih hpm he
    refine ⟨hpt, ?_⟩
    rw [List.length_cons]
    omega

/-- A state inside a round: the labels that are left of it lead to the start of the next one. -/
structure InRound (M : Machine σ α) (f : ℕ → σ) where
  state : σ
  left : List α
  index : ℕ
  left_ne : left ≠ []
  exec_eq : M.exec state left = some (f (index + 1))

/-- Rounds that follow one another make an infinite run. -/
theorem infinite_of_rounds {f : ℕ → σ} {round : ℕ → List α} (hne : ∀ k, round k ≠ [])
    (h : ∀ k, M.exec (f k) (round k) = some (f (k + 1))) : M.Infinite (f 0) := by
  have hnext (x : M.InRound f) : ∃ (a : α) (y : M.InRound f), M.step x.state a = some y.state := by
    obtain ⟨s, left, k, hleft, he⟩ := x
    obtain ⟨a, rest, rfl⟩ := List.exists_cons_of_ne_nil hleft
    obtain ⟨m, hm, he⟩ := Option.bind_eq_some_iff.mp he
    by_cases hrest : rest = []
    · subst hrest
      obtain rfl := Option.some.inj he
      exact ⟨a, ⟨_, round (k + 1), k + 1, hne _, h _⟩, hm⟩
    · exact ⟨a, ⟨m, rest, k, hrest, he⟩, hm⟩
  choose label next hstep using hnext
  let start : M.InRound f := ⟨f 0, round 0, 0, hne 0, h 0⟩
  refine ⟨fun n => (next^[n] start).state, fun n => label (next^[n] start), rfl, fun n => ?_⟩
  show M.step _ _ = some (next^[n + 1] start).state
  rw [Function.iterate_succ_apply']
  exact hstep _

section WellFounded

variable {β : Type w} [Preorder β] [WellFoundedLT β] {μ : σ → β}

/-- **A measure leaves infinitely many other steps**: where every step keeps `P`, and the steps of
kind `K` make the measure smaller, an infinite run has steps of another kind again and again. -/
theorem exists_ge_of_decreases {K : α → Prop}
    (next : ∀ s a t, P s → M.step s a = some t → P t ∧ (K a → μ t < μ s)) {run : ℕ → σ}
    {as : ℕ → α} (hs : P (run 0)) (hstep : ∀ n, M.step (run n) (as n) = some (run (n + 1)))
    (n : ℕ) : ∃ m ≥ n, ¬ K (as m) := by
  have hp : ∀ m, P (run m) := by
    intro m
    induction m with
    | zero => exact hs
    | succ m ih => exact (next _ _ _ ih (hstep m)).1
  by_contra hall
  push Not at hall
  -- the measures of the states from `n` on would be an infinite descent
  refine not_strictAnti_of_wellFoundedLT (fun m => μ (run (n + m)))
    (strictAnti_nat_of_succ_lt fun m => ?_)
  exact (next _ _ _ (hp _) (hstep (n + m))).2 (hall _ (Nat.le_add_right n m))

/-- **A measure ends the runs.** -/
theorem not_infinite (next : ∀ s a t, P s → M.step s a = some t → P t ∧ μ t < μ s) {s : σ}
    (hs : P s) : ¬ M.Infinite s := by
  rintro ⟨run, as, rfl, hstep⟩
  obtain ⟨m, -, hm⟩ := exists_ge_of_decreases (K := fun _ => True)
    (fun s a t h ht => ⟨(next s a t h ht).1, fun _ => (next s a t h ht).2⟩) hs hstep 0
  exact hm trivial

/-- **Progress**: if every state before the goal has a step of the right kind that makes the measure
smaller, then a run of such steps reaches the goal. -/
theorem exists_exec_of_decreases
    (next : ∀ s, P s → ¬ goal s → ∃ a t, ok a ∧ M.step s a = some t ∧ P t ∧ μ t < μ s)
    {s : σ} (hs : P s) : ∃ as t, M.exec s as = some t ∧ goal t ∧ ∀ a ∈ as, ok a := by
  induction hb : μ s using (wellFounded_lt (α := β)).induction generalizing s with
  | h b ih =>
    by_cases hg : goal s
    · exact ⟨[], s, rfl, hg, fun a ha => absurd ha List.not_mem_nil⟩
    · obtain ⟨a, m, ha, hm, hpm, hlt⟩ := next s hs hg
      obtain ⟨as, t, he, hgt, has⟩ := ih (μ m) (hb ▸ hlt) hpm rfl
      refine ⟨a :: as, t, ?_, hgt, List.forall_mem_cons.mpr ⟨ha, has⟩⟩
      rw [exec_cons, hm]
      exact he

end WellFounded

end Machine
