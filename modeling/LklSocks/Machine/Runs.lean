import Mathlib.Data.List.Infix

/-!
# Runs of a labelled machine

A machine has initial states and a partial step function on labels; the label carries every
choice the environment makes, so a run is a list of labels. A property of all runs follows from
what one step preserves. For a run whose steps all meet a condition, the same induction needs
the step only where the condition holds; when every other step breaks the property, the two
are equivalent along the run.

## Main definitions

* `Machine σ α`: initial states and a partial step function
* `Machine.exec s as`: the state after the labels `as`
* `Machine.Visits s as t`, `Machine.Takes s as t a u`: the states and the steps of a run
* `Machine.Meets ok s as`: every step of a run meets a condition, as a computation
* `Machine.trace out s as`: what the steps of a run put out
* `Machine.Reachable`: the states of the runs from initial states
* `Machine.Simulates`: each step of one machine is a step of another, or no step
* `Machine.Implements`: each step of one machine is a run of another that puts out the same

## Main results

* `Machine.exec_induction`: induction on a run, one label at a time, at its end
* `Machine.Reachable.invariant`: what holds initially and is preserved by steps holds in every
  reachable state
* `Machine.visits_of_takes`: the same along one run whose steps meet a condition
* `Machine.Meets.takes`: the steps of a run that was checked meet the condition
* `Machine.trace_snoc`: the output of a run, one step at its end
* `Machine.visits_iff_takes`: a property holds along a run exactly when its steps meet a condition
* `Machine.Implements.exec`: the runs of a machine are runs of the one it implements
* `Machine.Simulates.reachable`, `Machine.Implements.reachable`: the images of reachable states are
  reachable
-/

universe u v

/-- A machine with states `σ` and labels `α`: its initial states, and the state a label leads
to, if the label is admitted. -/
structure Machine (σ : Type u) (α : Type v) where
  init : σ → Prop
  step : σ → α → Option σ

namespace Machine

variable {σ τ : Type u} {α β : Type v} (M : Machine σ α)

/-- The state after the labels `as`, if every label is admitted. -/
def exec : σ → List α → Option σ
  | s, [] => some s
  | s, a :: as => (M.step s a).bind fun t => exec t as

@[simp] theorem exec_nil (s : σ) : M.exec s [] = some s := rfl

theorem exec_cons (s : σ) (a : α) (as : List α) :
    M.exec s (a :: as) = (M.step s a).bind fun t => M.exec t as := rfl

theorem exec_cons_of_step {s t : σ} {a : α} (h : M.step s a = some t) (as : List α) :
    M.exec s (a :: as) = M.exec t as := by
  rw [exec_cons, h]
  rfl

theorem exec_append (s : σ) (as bs : List α) :
    M.exec s (as ++ bs) = (M.exec s as).bind fun t => M.exec t bs := by
  induction as generalizing s with
  | nil => rfl
  | cons a as ih =>
    rw [List.cons_append, exec_cons, exec_cons]
    cases M.step s a with
    | none => rfl
    | some t => exact ih t

theorem exec_snoc_iff {s u : σ} {as : List α} {a : α} :
    M.exec s (as ++ [a]) = some u ↔ ∃ t, M.exec s as = some t ∧ M.step t a = some u := by
  rw [exec_append]
  cases M.exec s as with
  | none => simp
  | some t => cases h : M.step t a <;> simp [exec_cons, h]

/-- **Induction on a run**, adding one label at its end. -/
theorem exec_induction {s : σ} {P : List α → σ → Prop} (base : P [] s)
    (next : ∀ as t a u, M.exec s as = some t → P as t → M.step t a = some u → P (as ++ [a]) u)
    {as : List α} {t : σ} (h : M.exec s as = some t) : P as t := by
  induction as using List.reverseRecOn generalizing t with
  | nil =>
    obtain rfl : s = t := by simpa using h
    exact base
  | append_singleton as a ih =>
    obtain ⟨m, hm, ha⟩ := M.exec_snoc_iff.mp h
    exact next as m a t hm (ih hm) ha

/-! ## Reachable states -/

/-- The states of the runs that start in an initial state. -/
def Reachable (t : σ) : Prop := ∃ s as, M.init s ∧ M.exec s as = some t

variable {M}

theorem Reachable.of_init {s : σ} (h : M.init s) : M.Reachable s := ⟨s, [], h, rfl⟩

theorem Reachable.exec {s t : σ} {as : List α} (hs : M.Reachable s) (h : M.exec s as = some t) :
    M.Reachable t := by
  obtain ⟨s₀, bs, hi, hb⟩ := hs
  exact ⟨s₀, bs ++ as, hi, by rw [exec_append, hb]; exact h⟩

theorem Reachable.step {s t : σ} {a : α} (hs : M.Reachable s) (h : M.step s a = some t) :
    M.Reachable t := by
  have he : M.exec s [a] = some t := by rw [exec_cons, h]; rfl
  exact hs.exec he

/-- **Invariance**: what holds initially and is preserved by every step from a reachable state
holds in every reachable state. -/
theorem Reachable.invariant {P : σ → Prop} (base : ∀ s, M.init s → P s)
    (next : ∀ s a t, M.Reachable s → P s → M.step s a = some t → P t) {t : σ}
    (ht : M.Reachable t) : P t := by
  obtain ⟨s, as, hi, h⟩ := ht
  refine M.exec_induction (P := fun _ t => P t) (base s hi) (fun as t a u he hp hs => ?_) h
  exact next t a u ((Reachable.of_init hi).exec he) hp hs

/-! ## The states and the steps of one run -/

variable (M)

/-- `t` is a state of the run of `as` from `s`. -/
def Visits (s : σ) (as : List α) (t : σ) : Prop :=
  ∃ pre, pre <+: as ∧ M.exec s pre = some t

/-- The run of `as` from `s` takes the step from `t` to `u` with the label `a`. -/
def Takes (s : σ) (as : List α) (t : σ) (a : α) (u : σ) : Prop :=
  ∃ pre, pre ++ [a] <+: as ∧ M.exec s pre = some t ∧ M.step t a = some u

variable {M} {s t u : σ} {as : List α} {a : α}

theorem Visits.reachable (hs : M.init s) (h : M.Visits s as t) : M.Reachable t := by
  obtain ⟨pre, -, hp⟩ := h
  exact ⟨s, pre, hs, hp⟩

theorem Takes.visits_left (h : M.Takes s as t a u) : M.Visits s as t := by
  obtain ⟨pre, hp, ht, -⟩ := h
  exact ⟨pre, (List.prefix_append pre [a]).trans hp, ht⟩

theorem Takes.visits_right (h : M.Takes s as t a u) : M.Visits s as u := by
  obtain ⟨pre, hp, ht, hu⟩ := h
  exact ⟨pre ++ [a], hp, M.exec_snoc_iff.mpr ⟨t, ht, hu⟩⟩

theorem Takes.step_eq (h : M.Takes s as t a u) : M.step t a = some u := h.choose_spec.2.2

theorem takes_cons {b : α} :
    M.Takes s (b :: as) t a u ↔
      (t = s ∧ a = b ∧ M.step s b = some u) ∨ ∃ m, M.step s b = some m ∧ M.Takes m as t a u := by
  constructor
  · rintro ⟨pre, hp, ht, hu⟩
    cases pre with
    | nil =>
      obtain rfl : s = t := Option.some.inj ht
      obtain rfl : a = b := (List.cons_prefix_cons.mp hp).1
      exact .inl ⟨rfl, rfl, hu⟩
    | cons p pre =>
      obtain ⟨rfl, hpre⟩ := List.cons_prefix_cons.mp hp
      obtain ⟨m, hm, ht⟩ := Option.bind_eq_some_iff.mp ht
      exact .inr ⟨m, hm, pre, hpre, ht, hu⟩
  · rintro (⟨rfl, rfl, hu⟩ | ⟨m, hm, pre, hp, ht, hu⟩)
    · exact ⟨[], List.cons_prefix_cons.mpr ⟨rfl, List.nil_prefix⟩, rfl, hu⟩
    · refine ⟨b :: pre, List.cons_prefix_cons.mpr ⟨rfl, hp⟩, ?_, hu⟩
      rw [exec_cons, hm]
      exact ht

variable (M) in
/-- Every step of the run of `as` from `s` meets `ok`. -/
def Meets (ok : σ → α → Prop) : σ → List α → Prop
  | _, [] => True
  | s, a :: as => ok s a ∧ ∀ t ∈ M.step s a, Meets ok t as

instance decidableMeets (ok : σ → α → Prop) [∀ s a, Decidable (ok s a)] :
    ∀ s as, Decidable (M.Meets ok s as)
  | _, [] => inferInstanceAs (Decidable True)
  | s, a :: as =>
    have (t : σ) : Decidable (M.Meets ok t as) := decidableMeets ok t as
    inferInstanceAs (Decidable (ok s a ∧ ∀ t ∈ M.step s a, M.Meets ok t as))

theorem Meets.takes {ok : σ → α → Prop} (h : M.Meets ok s as) (hT : M.Takes s as t a u) :
    ok t a := by
  induction as generalizing s with
  | nil =>
    obtain ⟨pre, hp, -, -⟩ := hT
    simp at hp
  | cons b as ih =>
    rcases takes_cons.mp hT with ⟨rfl, rfl, -⟩ | ⟨m, hm, hT⟩
    · exact h.1
    · exact ih (h.2 m hm) hT

/-- **Conditional invariance**: along a run whose steps all meet `ok`, what holds at the start
and is preserved by the steps that meet `ok` holds in every state. -/
theorem visits_of_takes {P : σ → Prop} {r : σ → α → Prop} (base : P s)
    (next : ∀ t a u, M.Takes s as t a u → P t → r t a → P u)
    (hok : ∀ t a u, M.Takes s as t a u → r t a) (ht : M.Visits s as t) : P t := by
  obtain ⟨pre, hp, ht⟩ := ht
  -- the induction is on the labels so far, which stay a prefix of the run
  refine M.exec_induction (P := fun bs t => bs <+: as → P t) (fun _ => base) ?_ ht hp
  intro bs m a u hm ih ha hb
  have hTakes : M.Takes s as m a u := ⟨bs, hb, hm, ha⟩
  exact next m a u hTakes (ih ((List.prefix_append bs [a]).trans hb)) (hok m a u hTakes)

/-- **A property and a condition on the steps are equivalent along a run** when the steps that
meet the condition preserve the property and the others break it. -/
theorem visits_iff_takes {P : σ → Prop} {ok : σ → α → Prop} (base : P s)
    (next : ∀ t a u, M.Takes s as t a u → P t → ok t a → P u)
    (broken : ∀ t a u, M.Takes s as t a u → P u → ok t a) :
    (∀ t, M.Visits s as t → P t) ↔ ∀ t a u, M.Takes s as t a u → ok t a :=
  ⟨fun h t a u hT => broken t a u hT (h u hT.visits_right),
    fun h _ ht => visits_of_takes base next h ht⟩

/-! ## What a run puts out -/

section Trace

variable (M) {γ : Type*} (out : σ → α → List γ)

/-- What the steps of the run of `as` from `s` put out, in their order. -/
def trace : σ → List α → List γ
  | _, [] => []
  | s, a :: as => out s a ++ (M.step s a).elim [] fun t => trace t as

@[simp] theorem trace_nil (s : σ) : M.trace out s [] = [] := rfl

theorem trace_append (h : M.exec s as = some t) (bs : List α) :
    M.trace out s (as ++ bs) = M.trace out s as ++ M.trace out t bs := by
  induction as generalizing s with
  | nil =>
    obtain rfl : s = t := Option.some.inj h
    rfl
  | cons b as ih =>
    obtain ⟨m, hm, ht⟩ := Option.bind_eq_some_iff.mp h
    simp only [List.cons_append, trace, hm, Option.elim_some]
    rw [ih ht, List.append_assoc]

theorem trace_snoc (h : M.exec s as = some t) (a : α) :
    M.trace out s (as ++ [a]) = M.trace out s as ++ out t a := by
  rw [trace_append M out h]
  cases hm : M.step t a <;> simp [trace, hm]

theorem trace_filterMap {κ : Type*} (g : γ → Option κ) (s : σ) (as : List α) :
    M.trace (fun s a => (out s a).filterMap g) s as = (M.trace out s as).filterMap g := by
  induction as generalizing s with
  | nil => rfl
  | cons a as ih =>
    simp only [trace, List.filterMap_append]
    cases M.step s a with
    | none => rfl
    | some t => rw [Option.elim_some, Option.elim_some, ih]

/-- What a run puts out is put out by one of its steps. -/
theorem exists_takes_of_mem_trace {x : γ} (h : M.exec s as = some t) (hx : x ∈ M.trace out s as) :
    ∃ m a u, M.Takes s as m a u ∧ x ∈ out m a := by
  induction as generalizing s with
  | nil => cases hx
  | cons b as ih =>
    obtain ⟨m, hm, ht⟩ := Option.bind_eq_some_iff.mp h
    simp only [trace, hm, Option.elim_some] at hx
    rcases List.mem_append.mp hx with hx | hx
    · exact ⟨s, b, m, takes_cons.mpr (.inl ⟨rfl, rfl, hm⟩), hx⟩
    · obtain ⟨n, a, u, hT, hx⟩ := ih ht hx
      exact ⟨n, a, u, takes_cons.mpr (.inr ⟨m, hm, hT⟩), hx⟩

end Trace

/-! ## Simulation -/

/-- `f` maps the runs of `M` to runs of `N`: each step of `M` is a step of `N`, or leaves the image
unchanged, or starts it afresh. -/
structure Simulates (M : Machine σ α) (N : Machine τ β) (f : σ → τ) : Prop where
  init : ∀ s, M.init s → N.Reachable (f s)
  step : ∀ s a t, M.Reachable s → M.step s a = some t →
    f t = f s ∨ N.init (f t) ∨ ∃ b, N.step (f s) b = some (f t)

/-- `f` maps the runs of `M` to runs of `N` that put out the same: each step of `M` is a run of
`N`. -/
structure Implements (M : Machine σ α) (N : Machine τ β) (f : σ → τ) {γ : Type*}
    (out : σ → α → List γ) (out' : τ → β → List γ) : Prop where
  init : ∀ s, M.init s → N.init (f s)
  step : ∀ s a t, M.Reachable s → M.step s a = some t →
    ∃ bs, N.exec (f s) bs = some (f t) ∧ N.trace out' (f s) bs = out s a

theorem Implements.exec {N : Machine τ β} {f : σ → τ} {γ : Type*} {out : σ → α → List γ}
    {out' : τ → β → List γ} (h : Implements M N f out out') (hs : M.init s)
    (he : M.exec s as = some t) :
    ∃ bs, N.exec (f s) bs = some (f t) ∧ N.trace out' (f s) bs = M.trace out s as := by
  refine M.exec_induction (P := fun as t => ∃ bs, N.exec (f s) bs = some (f t) ∧
    N.trace out' (f s) bs = M.trace out s as) ⟨[], rfl, rfl⟩ ?_ he
  rintro as t a u he ⟨bs, hb, htrace⟩ ha
  obtain ⟨cs, hc, hout⟩ := h.step t a u ((Reachable.of_init hs).exec he) ha
  refine ⟨bs ++ cs, ?_, ?_⟩
  · rw [exec_append, hb]
    exact hc
  · rw [trace_append _ _ hb, htrace, hout, trace_snoc _ _ he]

/-- A machine with one step of `N` for each step. -/
theorem Implements.of_step {N : Machine τ β} {f : σ → τ} {g : α → β} {γ : Type*}
    {out : σ → α → List γ} {out' : τ → β → List γ} (init : ∀ s, M.init s → N.init (f s))
    (step : ∀ s a t, M.step s a = some t →
      N.step (f s) (g a) = some (f t) ∧ out' (f s) (g a) = out s a) :
    Implements M N f out out' where
  init := init
  step := by
    intro s a t _ h
    obtain ⟨hstep, hout⟩ := step s a t h
    refine ⟨[g a], ?_, ?_⟩
    · rw [exec_cons, hstep]
      rfl
    · simp [trace, hstep, hout]

theorem Implements.reachable {N : Machine τ β} {f : σ → τ} {γ : Type*} {out : σ → α → List γ}
    {out' : τ → β → List γ} (h : Implements M N f out out') (hs : M.Reachable s) :
    N.Reachable (f s) := by
  obtain ⟨s₀, as, hi, he⟩ := hs
  obtain ⟨bs, hb, -⟩ := h.exec hi he
  exact ⟨f s₀, bs, h.init s₀ hi, hb⟩

theorem Simulates.reachable {N : Machine τ β} {f : σ → τ} (h : Simulates M N f)
    (hs : M.Reachable s) : N.Reachable (f s) := by
  apply hs.invariant (P := fun s => N.Reachable (f s)) h.init
  intro s a t hr hp ha
  rcases h.step s a t hr ha with he | hi | ⟨b, hb⟩
  · rw [he]
    exact hp
  · exact .of_init hi
  · exact hp.step hb

end Machine
