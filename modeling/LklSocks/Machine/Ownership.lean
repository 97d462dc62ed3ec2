import Mathlib.Logic.Function.Basic
import LklSocks.Machine.Runs

/-!
# Exclusive ownership

Every owner holds at most one resource. An owner without one takes a resource that nobody holds,
an owner drops what it holds, and an owner takes over what another one holds, after it has dropped
its own. At any time no resource has two owners, and every resource that was ever taken is held or
was dropped afterwards.

## Main definitions

* `OwnershipAction`, `OwnershipEvent`: the operations, and what they take and drop
* `Ownership.machine`, `Ownership.events`: the operations on a table of owners
* `Ownership.Held`, `Ownership.Exclusive`: a resource has an owner, and at most one

## Main results

* `Ownership.exclusive`: no resource has two owners
* `Ownership.accounted`: what was taken is held or was dropped
* `Ownership.dropped`: what is dropped was held, and is not held any more
-/

universe u v

/-- Taking a resource, dropping the one that is held, and taking over that of another owner. -/
inductive OwnershipAction (ι : Type u) (ρ : Type v)
  | take (i : ι) (r : ρ)
  | drop (i : ι)
  | move (i other : ι)

inductive OwnershipEvent (ρ : Type v)
  | taken (r : ρ)
  | dropped (r : ρ)
  deriving DecidableEq

namespace Ownership

open OwnershipEvent

variable {ι : Type u} {ρ : Type v} {o t : ι → Option ρ} {a : OwnershipAction ι ρ} {r : ρ}

/-- The resource has an owner. -/
def Held (o : ι → Option ρ) (r : ρ) : Prop := ∃ i, o i = some r

/-- No resource has two owners. -/
def Exclusive (o : ι → Option ρ) : Prop := ∀ i j r, o i = some r → o j = some r → i = j

section Machine

variable [DecidableEq ι]

open Classical in
/-- The operations on a table of what the owners hold. -/
noncomputable def machine : Machine (ι → Option ρ) (OwnershipAction ι ρ) where
  init o := o = fun _ => none
  step o
    | .take i r =>
      if o i = none ∧ ¬ Held o r then some (Function.update o i (some r)) else none
    | .drop i => some (Function.update o i none)
    | .move i other => some (Function.update (Function.update o i (o other)) other none)

/-- What an operation takes and drops. -/
def events (o : ι → Option ρ) : OwnershipAction ι ρ → List (OwnershipEvent ρ)
  | .take _ r => [taken r]
  | .drop i => (o i).toList.map dropped
  | .move i _ => (o i).toList.map dropped

theorem mem_toList_map_dropped {x : Option ρ} : dropped r ∈ x.toList.map dropped ↔ x = some r := by
  cases x <;> simp [eq_comm]

/-- An owner after a move held the resource before it, or took over the owner that did. -/
theorem eq_some_of_move {i other j : ι}
    (h : Function.update (Function.update o i (o other)) other none j = some r) :
    j ≠ other ∧ (j = i ∧ o other = some r ∨ j ≠ i ∧ o j = some r) := by
  by_cases hjo : j = other
  · simp [hjo] at h
  · rw [Function.update_of_ne hjo] at h
    by_cases hji : j = i
    · rw [hji, Function.update_self] at h
      exact ⟨hjo, .inl ⟨hji, h⟩⟩
    · rw [Function.update_of_ne hji] at h
      exact ⟨hjo, .inr ⟨hji, h⟩⟩

theorem step_exclusive (h : Exclusive o) (hs : machine.step o a = some t) : Exclusive t := by
  cases a with
  | take i r =>
    obtain ⟨⟨hi, hr⟩, he⟩ := Option.ite_none_right_eq_some.mp hs
    obtain rfl := Option.some.inj he
    intro j k q hj hk
    by_cases hji : j = i
    · by_cases hki : k = i
      · rw [hji, hki]
      · rw [hji, Function.update_self] at hj
        rw [Function.update_of_ne hki, ← Option.some.inj hj] at hk
        exact absurd ⟨k, hk⟩ hr
    · rw [Function.update_of_ne hji] at hj
      by_cases hki : k = i
      · rw [hki, Function.update_self] at hk
        rw [← Option.some.inj hk] at hj
        exact absurd ⟨j, hj⟩ hr
      · rw [Function.update_of_ne hki] at hk
        exact h j k q hj hk
  | drop i =>
    obtain rfl := Option.some.inj hs
    intro j k q hj hk
    by_cases hji : j = i
    · simp [hji] at hj
    · by_cases hki : k = i
      · simp [hki] at hk
      · rw [Function.update_of_ne hji] at hj
        rw [Function.update_of_ne hki] at hk
        exact h j k q hj hk
  | move i other =>
    obtain rfl := Option.some.inj hs
    intro j k q hj hk
    obtain ⟨hjo, ⟨hji, hj⟩ | ⟨hji, hj⟩⟩ := eq_some_of_move hj
    · obtain ⟨hko, ⟨hki, hk⟩ | ⟨hki, hk⟩⟩ := eq_some_of_move hk
      · rw [hji, hki]
      · exact absurd (h k other q hk hj) hko
    · obtain ⟨hko, ⟨hki, hk⟩ | ⟨hki, hk⟩⟩ := eq_some_of_move hk
      · exact absurd (h j other q hj hk) hjo
      · exact h j k q hj hk

/-- **Exclusive ownership** in every run. -/
theorem exclusive (h : machine.Reachable o) : Exclusive o := by
  refine h.invariant (P := Exclusive) ?_ ?_
  · rintro _ rfl i j r hi
    cases hi
  · intro o a t _ ho hs
    exact step_exclusive ho hs

/-- What is taken is held after it. -/
theorem held_of_taken (hs : machine.step o a = some t) (hr : taken r ∈ events o a) : Held t r := by
  cases a with
  | take i q =>
    obtain ⟨-, he⟩ := Option.ite_none_right_eq_some.mp hs
    obtain rfl := Option.some.inj he
    obtain rfl : r = q := by simpa [events] using hr
    exact ⟨i, Function.update_self ..⟩
  | drop i => simp [events] at hr
  | move i other => simp [events] at hr

/-- What was held and is not dropped stays held. -/
theorem held_or_dropped (hs : machine.step o a = some t) (hr : Held o r) :
    Held t r ∨ dropped r ∈ events o a := by
  obtain ⟨j, hj⟩ := hr
  cases a with
  | take i q =>
    obtain ⟨⟨hi, -⟩, he⟩ := Option.ite_none_right_eq_some.mp hs
    obtain rfl := Option.some.inj he
    refine .inl ⟨j, ?_⟩
    rw [Function.update_of_ne, hj]
    rintro rfl
    cases hj.symm.trans hi
  | drop i =>
    obtain rfl := Option.some.inj hs
    by_cases hji : j = i
    · exact .inr (mem_toList_map_dropped.mpr (hji ▸ hj))
    · exact .inl ⟨j, by rw [Function.update_of_ne hji, hj]⟩
  | move i other =>
    obtain rfl := Option.some.inj hs
    by_cases hji : j = i
    · exact .inr (mem_toList_map_dropped.mpr (hji ▸ hj))
    · by_cases hjo : j = other
      · refine .inl ⟨i, ?_⟩
        rw [Function.update_of_ne (fun hio => hji (hjo.trans hio.symm)), Function.update_self,
          ← hjo, hj]
      · exact .inl ⟨j, by rw [Function.update_of_ne hjo, Function.update_of_ne hji, hj]⟩

/-- What is held after a step was held before it, or is taken by it. -/
theorem held_or_taken (hs : machine.step o a = some t) (hr : Held t r) :
    Held o r ∨ taken r ∈ events o a := by
  obtain ⟨j, hj⟩ := hr
  cases a with
  | take i q =>
    obtain ⟨-, he⟩ := Option.ite_none_right_eq_some.mp hs
    obtain rfl := Option.some.inj he
    by_cases hji : j = i
    · rw [hji, Function.update_self] at hj
      obtain rfl := Option.some.inj hj
      exact .inr (List.mem_singleton.mpr rfl)
    · rw [Function.update_of_ne hji] at hj
      exact .inl ⟨j, hj⟩
  | drop i =>
    obtain rfl := Option.some.inj hs
    by_cases hji : j = i
    · simp [hji] at hj
    · rw [Function.update_of_ne hji] at hj
      exact .inl ⟨j, hj⟩
  | move i other =>
    obtain rfl := Option.some.inj hs
    obtain ⟨-, ⟨-, hj⟩ | ⟨-, hj⟩⟩ := eq_some_of_move hj
    · exact .inl ⟨other, hj⟩
    · exact .inl ⟨j, hj⟩

/-- What is dropped was held, and is not held any more. -/
theorem dropped (h : Exclusive o) (hs : machine.step o a = some t) (hr : .dropped r ∈ events o a) :
    Held o r ∧ ¬ Held t r := by
  cases a with
  | take i q => simp [events] at hr
  | drop i =>
    obtain rfl := Option.some.inj hs
    have hi : o i = some r := mem_toList_map_dropped.mp hr
    refine ⟨⟨i, hi⟩, ?_⟩
    rintro ⟨j, hj⟩
    by_cases hji : j = i
    · simp [hji] at hj
    · rw [Function.update_of_ne hji] at hj
      exact hji (h j i r hj hi)
  | move i other =>
    obtain rfl := Option.some.inj hs
    have hi : o i = some r := mem_toList_map_dropped.mp hr
    refine ⟨⟨i, hi⟩, ?_⟩
    rintro ⟨j, hj⟩
    obtain ⟨hjo, ⟨hji, hj⟩ | ⟨hji, hj⟩⟩ := eq_some_of_move hj
    · exact hjo (hji.trans (h i other r hi hj))
    · exact hji (h j i r hj hi)

/-- **What was taken is accounted for**: it is held, or was dropped after it was taken. -/
theorem accounted {as : List (OwnershipAction ι ρ)} (he : machine.exec o as = some t)
    {pre post : List (OwnershipEvent ρ)} (h : machine.trace events o as = pre ++ taken r :: post) :
    .dropped r ∈ post ∨ Held t r := by
  refine machine.exec_induction (P := fun as t => ∀ pre post,
    machine.trace events o as = pre ++ taken r :: post → .dropped r ∈ post ∨ Held t r) ?_ ?_ he
    pre post h
  · intro pre post h
    simp at h
  · intro as m a t hm ih hs pre post h
    -- the induction is on the run, and the event is in its last step or before it
    rw [Machine.trace_snoc _ _ hm] at h
    obtain ⟨rest, -, hrest⟩ | ⟨rest, htrace, hrest⟩ := List.append_eq_append_iff.mp h
    · exact .inr (held_of_taken hs (hrest ▸ by simp))
    · cases rest with
      | nil =>
        rw [List.nil_append] at hrest
        exact .inr (held_of_taken hs (hrest ▸ List.mem_cons_self))
      | cons e rest =>
        obtain ⟨rfl, rfl⟩ := List.cons.inj hrest
        rcases ih pre rest htrace with hdropped | hheld
        · exact .inl (List.mem_append_left _ hdropped)
        · rcases held_or_dropped hs hheld with hheld | hdropped
          · exact .inr hheld
          · exact .inl (List.mem_append_right _ hdropped)

end Machine

end Ownership
