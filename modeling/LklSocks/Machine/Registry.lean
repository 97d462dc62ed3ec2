import LklSocks.Machine.Runs

/-!
# Registries

A registry lists what is started and not yet stopped. A start lists a new item; a stop removes the
item, and may come again for an item that is no longer listed. When the registry is closed, the
listed items are dropped one after the other.

## Main definitions

* `Registry`: the listed items, and the history of starts and stops
* `Registry.machine`: the operations

## Main results

* `Registry.wellFormed`: an open registry lists every started and not stopped item, exactly once
* `Registry.listed_sublist`: the items are listed in the order in which they were started
-/

universe u

/-- The listed items, the items that were started and stopped so far, and whether the registry is
closed. -/
structure Registry (α : Type u) where
  listed : List α
  started : List α
  stopped : List α
  closed : Bool

inductive RegistryAction (α : Type u)
  | start (a : α)
  | stop (a : α)
  | close
  | drop

namespace Registry

variable {α : Type u}

/-- The listed items are distinct, were started and not stopped, and while the registry is open no
such item is missing. -/
structure WellFormed (r : Registry α) : Prop where
  nodup : r.listed.Nodup
  stopped : ∀ a ∈ r.stopped, a ∈ r.started
  listed : ∀ a ∈ r.listed, a ∈ r.started ∧ a ∉ r.stopped
  complete : r.closed = false → ∀ a ∈ r.started, a ∉ r.stopped → a ∈ r.listed

theorem WellFormed.mem_listed {r : Registry α} (h : r.WellFormed) (hc : r.closed = false) (a : α) :
    a ∈ r.listed ↔ a ∈ r.started ∧ a ∉ r.stopped :=
  ⟨h.listed a, fun ha => h.complete hc a ha.1 ha.2⟩

theorem WellFormed.start {r : Registry α} {a : α} (h : r.WellFormed) (ha : a ∉ r.started) :
    WellFormed { r with listed := r.listed ++ [a], started := r.started ++ [a] } where
  nodup := by
    have hlisted : a ∉ r.listed := fun hm => ha (h.listed a hm).1
    rw [List.nodup_append]
    refine ⟨h.nodup, List.pairwise_singleton _ a, fun b hb c hc' => ?_⟩
    rintro rfl
    exact hlisted (List.mem_singleton.mp hc' ▸ hb)
  stopped b hb := List.mem_append_left _ (h.stopped b hb)
  listed b hb := by
    rcases List.mem_append.mp hb with hb | hb
    · exact ⟨List.mem_append_left _ (h.listed b hb).1, (h.listed b hb).2⟩
    · obtain rfl := List.mem_singleton.mp hb
      exact ⟨List.mem_append_right _ hb, fun hm => ha (h.stopped b hm)⟩
  complete hc b hb hn := by
    rcases List.mem_append.mp hb with hb | hb
    · exact List.mem_append_left _ (h.complete hc b hb hn)
    · exact List.mem_append_right _ hb

variable [DecidableEq α]

/-- A start needs a new item, and a stop an item that was started. -/
def machine : Machine (Registry α) (RegistryAction α) where
  init r := r = ⟨[], [], [], false⟩
  step r
    | .start a =>
      if a ∉ r.started ∧ r.closed = false then
        some { r with listed := r.listed ++ [a], started := r.started ++ [a] }
      else none
    | .stop a =>
      if a ∈ r.started ∧ r.closed = false then
        some { r with listed := r.listed.filter (· ≠ a), stopped := r.stopped ++ [a] }
      else none
    | .close => some { r with closed := true }
    | .drop => if r.closed = true then some { r with listed := r.listed.tail } else none

theorem WellFormed.stop {r : Registry α} {a : α} (h : r.WellFormed) (ha : a ∈ r.started) :
    WellFormed { r with listed := r.listed.filter (· ≠ a), stopped := r.stopped ++ [a] } where
  nodup := h.nodup.filter _
  stopped b hb := by
    rcases List.mem_append.mp hb with hb | hb
    · exact h.stopped b hb
    · rwa [List.mem_singleton.mp hb]
  listed b hb := by
    obtain ⟨hb, hne⟩ := List.mem_filter.mp hb
    refine ⟨(h.listed b hb).1, fun hm => ?_⟩
    rcases List.mem_append.mp hm with hm | hm
    · exact (h.listed b hb).2 hm
    · exact of_decide_eq_true hne (List.mem_singleton.mp hm)
  complete hc b hb hn := by
    obtain ⟨hn, hne⟩ := not_or.mp (mt List.mem_append.mpr hn)
    exact List.mem_filter.mpr
      ⟨h.complete hc b hb hn, decide_eq_true (mt List.mem_singleton.mpr hne)⟩

/-- **What an open registry lists** in every run. -/
theorem wellFormed {r : Registry α} (h : machine.Reachable r) : r.WellFormed := by
  refine h.invariant (P := WellFormed) ?_ ?_
  · rintro _ rfl
    exact ⟨List.nodup_nil, nofun, nofun, nofun⟩
  · intro r a t _ hr ht
    cases a with
    | start a =>
      obtain ⟨⟨ha, hc⟩, he⟩ := Option.ite_none_right_eq_some.mp ht
      obtain rfl := Option.some.inj he
      exact hr.start ha
    | stop a =>
      obtain ⟨⟨ha, hc⟩, he⟩ := Option.ite_none_right_eq_some.mp ht
      obtain rfl := Option.some.inj he
      exact hr.stop ha
    | close =>
      obtain rfl := Option.some.inj ht
      exact ⟨hr.nodup, hr.stopped, hr.listed, nofun⟩
    | drop =>
      obtain ⟨hc, he⟩ := Option.ite_none_right_eq_some.mp ht
      obtain rfl := Option.some.inj he
      exact ⟨hr.nodup.tail, hr.stopped, fun a ha => hr.listed a (List.mem_of_mem_tail ha),
        fun hc' => absurd (hc.symm.trans hc') nofun⟩

/-- **The items are listed in the order in which they were started.** -/
theorem listed_sublist {r : Registry α} (h : machine.Reachable r) : r.listed.Sublist r.started := by
  refine h.invariant (P := fun r => r.listed.Sublist r.started) ?_ ?_
  · rintro _ rfl
    exact List.Sublist.slnil
  · intro r a t _ hr ht
    cases a with
    | start a =>
      obtain ⟨-, he⟩ := Option.ite_none_right_eq_some.mp ht
      obtain rfl := Option.some.inj he
      exact hr.append (List.Sublist.refl [a])
    | stop a =>
      obtain ⟨-, he⟩ := Option.ite_none_right_eq_some.mp ht
      obtain rfl := Option.some.inj he
      exact List.filter_sublist.trans hr
    | close =>
      obtain rfl := Option.some.inj ht
      exact hr
    | drop =>
      obtain ⟨-, he⟩ := Option.ite_none_right_eq_some.mp ht
      obtain rfl := Option.some.inj he
      exact (List.tail_sublist _).trans hr

end Registry
