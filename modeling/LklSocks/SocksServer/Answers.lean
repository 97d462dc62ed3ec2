import LklSocks.Machine.Answered
import LklSocks.SocksConnection.Answers
import LklSocks.SocksServer.Termination

/-!
# The server over the results of LKL

The outcomes of the operations on the remote sockets are what LKL answers, for every connection of
the program. A step of the program that waits for LKL is one step of its connection, or it makes no
progress. A relay thread whose reads end with failures that are not translated can spin forever, and
with peers that send finitely many bytes this is what every infinite shutdown ends in.

## Main definitions

* `SocksServer.lklMachine`: the program over the results of LKL

## Main results

* `SocksServer.lkl_results_iff`: what the results of LKL decide, in every run
* `SocksServer.lkl_shutdown_spins`: an infinite shutdown spins
-/

namespace LklSocks

namespace SocksServer

/-- The step with another outcome. -/
def Action.withOutcome (out : Outcome) : Action → Action
  | host c _ => host c out
  | remote c _ => remote c out
  | a => a

/-- The operation on a remote socket that a step makes, and its connection. -/
def remoteOperation (s : SocksServer) : Action → Option (ℕ × RemoteOperation)
  | .host c out => ((s.conn c).remoteOperation (.host (s.useCount c) out)).map (Prod.mk c)
  | .remote c out => ((s.conn c).remoteOperation (.remote (s.useCount c) out)).map (Prod.mk c)
  | _ => none

/-- What the results of LKL decide, as long as the program runs. -/
def decided (s : SocksServer) (l : Action × LklAnswers) : Option (Option Action) :=
  if s.terminated = true ∨ s.main = .exited then none
  else
    match s.remoteOperation l.1 with
    | none => some (some l.1)
    | some (c, op) =>
      if (s.conn c).Admissible l.2 op then
        (l.2.answer op).map fun answer => answer.toOption.map l.1.withOutcome
      else none

/-- The program under every order of its steps and all results of LKL. -/
def lklMachine : Machine SocksServer (Action × LklAnswers) := machine.answered decided

/-- The results of a transfer. -/
def transfers (s : SocksServer) (l : Action × LklAnswers) : List ℤ :=
  (s.remoteOperation l.1).elim [] fun p => l.2.transfers p.2

/-- The results of a connect of the connection `c` that reaches LKL. -/
def connectCalls (c : ℕ) (s : SocksServer) (l : Action × LklAnswers) : List Lkl.ConnectCalls :=
  if s.remoteOperation l.1 = some (c, .connecting) ∧ (s.conn c).remoteSocket.isOpen = true then
    [l.2.connect]
  else []

/-- The steps over the results of LKL, one rule for each kind of answer. -/
inductive LklSteps (s : SocksServer) (a : Action) (k : LklAnswers) : SocksServer → Prop
  | other {t : SocksServer} (ho : s.remoteOperation a = none) (hs : s.step a = some t) :
      LklSteps s a k t
  | outcome {t : SocksServer} {c : ℕ} {op : RemoteOperation} {out : Outcome}
      (ho : s.remoteOperation a = some (c, op)) (hk : (s.conn c).Admissible k op)
      (ha : k.answer op = some (.outcome out)) (hs : s.step (a.withOutcome out) = some t) :
      LklSteps s a k t
  | nothing {c : ℕ} {op : RemoteOperation} (ho : s.remoteOperation a = some (c, op))
      (hk : (s.conn c).Admissible k op) (ha : k.answer op = some .nothing) : LklSteps s a k s

variable {s t : SocksServer} {a : Action} {k : LklAnswers} {c : ℕ}

theorem decided_cases {step : Option Action} (h : s.decided (a, k) = some step) :
    s.remoteOperation a = none ∧ step = some a ∨
      ∃ c op answer, s.remoteOperation a = some (c, op) ∧ (s.conn c).Admissible k op ∧
        k.answer op = some answer ∧ step = answer.toOption.map a.withOutcome := by
  obtain ⟨-, h⟩ := Option.ite_none_left_eq_some.mp h
  split at h
  · next ho => exact .inl ⟨ho, (Option.some.inj h).symm⟩
  · next c op ho =>
    obtain ⟨hk, h⟩ := Option.ite_none_right_eq_some.mp h
    obtain ⟨answer, ha, he⟩ := Option.map_eq_some_iff.mp h
    exact .inr ⟨c, op, answer, ho, hk, ha, he.symm⟩

/-- Inversion of a step. -/
theorem lklStep_cases (h : lklMachine.step s (a, k) = some t) : s.LklSteps a k t := by
  rcases Machine.answered_step_iff.mp h with ⟨b, hd, hs⟩ | ⟨hd, rfl⟩
  · rcases decided_cases hd with ⟨ho, hb⟩ | ⟨c, op, answer, ho, hk, ha, hb⟩
    · obtain rfl := Option.some.inj hb
      exact .other ho hs
    · cases answer with
      | outcome out =>
        obtain rfl := Option.some.inj hb
        exact .outcome ho hk ha hs
      | nothing => cases hb
  · rcases decided_cases hd with ⟨-, hb⟩ | ⟨c, op, answer, ho, hk, ha, hb⟩
    · cases hb
    · cases answer with
      | outcome out => cases hb
      | nothing => exact .nothing ho hk ha

/-! ## The connections -/

theorem remoteOperation_cases {op : RemoteOperation} (h : s.remoteOperation a = some (c, op)) :
    (∃ out, a = .host c out ∧
      (s.conn c).remoteOperation (.host (s.useCount c) out) = some op) ∨
    ∃ out, a = .remote c out ∧
      (s.conn c).remoteOperation (.remote (s.useCount c) out) = some op := by
  cases a with
  | host d out =>
    obtain ⟨op', ho, he⟩ := Option.map_eq_some_iff.mp h
    obtain ⟨rfl, rfl⟩ := Prod.mk.inj he
    exact .inl ⟨out, rfl, ho⟩
  | remote d out =>
    obtain ⟨op', ho, he⟩ := Option.map_eq_some_iff.mp h
    obtain ⟨rfl, rfl⟩ := Prod.mk.inj he
    exact .inr ⟨out, rfl, ho⟩
  | _ => cases h

/-- What a step over the results of LKL does to the connection `c`: nothing, or it creates it, or it
is a step of the connection over them. -/
inductive LklConnSteps (s : SocksServer) (c : ℕ) (a : Action) (k : LklAnswers)
    (x : SocksConnection) : Prop
  | same (h : x = s.conn c) (hc : connectCalls c s (a, k) = [])
  | create (hc : c = s.next) (h : x.replies = []) (hcalls : connectCalls c s (a, k) = [])
  | step (b : ConnectionAction) (h : (s.conn c).LklSteps b k x)
      (hc : connectCalls c s (a, k) = (s.conn c).connectCalls (b, k))

theorem connectCalls_of_ne {p : ℕ × RemoteOperation} (h : s.remoteOperation a = some p)
    (hp : p ≠ (c, .connecting)) : connectCalls c s (a, k) = [] :=
  if_neg fun hc => hp (Option.some.inj (h.symm.trans hc.1))

theorem connectCalls_of_none (h : s.remoteOperation a = none) : connectCalls c s (a, k) = [] :=
  if_neg fun hc => by cases h.symm.trans hc.1

/-- The calls of a step are those of its connection. -/
theorem connectCalls_eq {op : RemoteOperation} {b : ConnectionAction}
    (h : s.remoteOperation a = some (c, op)) (hb : (s.conn c).remoteOperation b = some op) :
    connectCalls c s (a, k) = (s.conn c).connectCalls (b, k) := by
  unfold connectCalls SocksConnection.connectCalls
  dsimp only
  rw [h, hb]
  refine if_congr (and_congr_left' ?_) rfl rfl
  simp

/-- A step that is no operation on a remote socket. -/
theorem OwnedBy.lklConnSteps_other (h : s.OwnedBy) (ho : s.remoteOperation a = none)
    (hs : s.Steps a t) (c : ℕ) : s.LklConnSteps c a k (t.conn c) := by
  have hcalls := connectCalls_of_none (c := c) (k := k) ho
  rcases h.connSteps hs c with hsame | ⟨hc, alloc, hx⟩ | ⟨b, hb, hx⟩
  · exact .same hsame hcalls
  · exact .create hc (by rw [hx]; rfl) hcalls
  · have hbo : (s.conn c).remoteOperation b = none := by
      cases hb with
      | host => exact Option.map_eq_none_iff.mp ho
      | remote => exact Option.map_eq_none_iff.mp ho
      | _ => rfl
    refine .step b (.other hbo hx) (hcalls.trans ?_)
    rw [SocksConnection.connectCalls, if_neg]
    rintro ⟨hc, -⟩
    cases hbo.symm.trans hc

theorem lklConnSteps_update {d : ℕ} {op : RemoteOperation} {b : ConnectionAction}
    {x : SocksConnection} (ho : s.remoteOperation a = some (d, op))
    (hb : (s.conn d).remoteOperation b = some op) (hx : (s.conn d).LklSteps b k x) (c : ℕ) :
    s.LklConnSteps c a k (Function.update s.conn d x c) := by
  by_cases hc : c = d
  · subst hc
    rw [Function.update_self]
    exact .step b hx (connectCalls_eq ho hb)
  · rw [Function.update_of_ne hc]
    exact .same rfl (connectCalls_of_ne ho fun he => hc (congrArg Prod.fst he).symm)

theorem OwnedBy.lklConnSteps (h : s.OwnedBy) (hs : s.LklSteps a k t) (c : ℕ) :
    s.LklConnSteps c a k (t.conn c) := by
  cases hs with
  | other ho hs => exact h.lklConnSteps_other ho (step_cases hs).2.2 c
  | @outcome _ d op out ho hk ha hs =>
    rcases remoteOperation_cases ho with ⟨out', rfl, hb⟩ | ⟨out', rfl, hb⟩
    · have hsteps : s.Steps (.host d out) t := (step_cases hs).2.2
      cases hsteps with
      | server hd hs => cases hs
      | host hx => exact lklConnSteps_update ho hb (.outcome hb hk ha (h.host_step hx)) c
    · have hsteps : s.Steps (.remote d out) t := (step_cases hs).2.2
      cases hsteps with
      | server hd hs => cases hs
      | remote hx => exact lklConnSteps_update ho hb (.outcome hb hk ha (h.remote_step hx)) c
  | @nothing d op ho hk ha =>
    have hself : Function.update s.conn d (s.conn d) = s.conn := Function.update_eq_self d s.conn
    rcases remoteOperation_cases ho with ⟨out, rfl, hb⟩ | ⟨out, rfl, hb⟩
    · exact hself ▸ lklConnSteps_update ho hb (.nothing hb hk ha) c
    · exact hself ▸ lklConnSteps_update ho hb (.nothing hb hk ha) c

/-! ## What the clients are told -/

theorem Steps.next_le (hs : s.Steps a t) : s.next ≤ t.next := by
  cases hs with
  | server hb hs =>
    cases hs with
    | construct hm ha => exact Nat.le_succ _
    | rearm hm ha => exact Nat.le_succ _
    | finish hm => rw [release_next]
    | dropConnection hm hc => rw [release_next]
    | dropHandler hm hq => rw [release_next]
    | _ => exact le_rfl
  | _ => exact le_rfl

theorem LklSteps.next_le (hs : s.LklSteps a k t) : s.next ≤ t.next := by
  cases hs with
  | other ho hs => exact (step_cases hs).2.2.next_le
  | outcome ho hk ha hs => exact (step_cases hs).2.2.next_le
  | nothing => exact le_rfl

/-- A connection that was not yet created does not connect. -/
theorem OwnedBy.connectCalls_eq_nil (h : s.OwnedBy) (hc : s.next ≤ c) :
    connectCalls c s (a, k) = [] := by
  have hidle : (s.conn c).hostThread = .idle := (h.unused c hc).2.1
  refine if_neg ?_
  rintro ⟨ho, -⟩
  rcases remoteOperation_cases ho with ⟨out, rfl, hb⟩ | ⟨out, rfl, hb⟩
  · simp only [SocksConnection.remoteOperation, hidle] at hb
    cases hb
  · obtain ⟨⟨request, hp⟩, -⟩ := SocksConnection.remoteOperation_eq_connecting hb
    cases hidle.symm.trans hp

/-- What the clients were told about the connects that reached LKL. -/
structure Told (s : SocksServer) (xs : ℕ → List Lkl.ConnectCalls) : Prop where
  told : ∀ c, (s.conn c).Told (xs c)
  unused : ∀ c, s.next ≤ c → xs c = []

theorem Told.lklSteps {xs : ℕ → List Lkl.ConnectCalls} (h : s.Told xs) (ho : s.OwnedBy)
    (hs : s.LklSteps a k t) : t.Told fun c => xs c ++ connectCalls c s (a, k) where
  told c := by
    rcases ho.lklConnSteps hs c with ⟨hx, hc⟩ | ⟨hn, hx, hc⟩ | ⟨b, hx, hc⟩
    · rw [hc, List.append_nil, hx]
      exact h.told c
    · rw [hc, List.append_nil, h.unused c hn.ge]
      refine .none fun hm => ?_
      rw [hx] at hm
      cases hm
    · rw [hc]
      exact (h.told c).lklSteps hx
  unused c hc := by
    have hn := hs.next_le.trans hc
    rw [h.unused c hn, ho.connectCalls_eq_nil hn]
    rfl

theorem told {order : ByteOrder} {ls : List (Action × LklAnswers)}
    (he : lklMachine.exec (initial order) ls = some s) :
    s.Told fun c => lklMachine.trace (connectCalls c) (initial order) ls := by
  have hinit : lklMachine.init (initial order) := ⟨order, rfl⟩
  refine lklMachine.exec_induction
    (P := fun ls s => s.Told fun c => lklMachine.trace (connectCalls c) (initial order) ls) ?_ ?_ he
  · exact ⟨fun c => .none List.not_mem_nil, fun c _ => rfl⟩
  · rintro ls m ⟨a, k⟩ t hm ih hs
    have hreach : machine.Reachable m := Machine.reachable_of_answered ⟨_, ls, hinit, hm⟩
    have htrace (c : ℕ) : lklMachine.trace (connectCalls c) (initial order) (ls ++ [(a, k)]) =
        lklMachine.trace (connectCalls c) (initial order) ls ++ connectCalls c m (a, k) :=
      Machine.trace_snoc _ _ hm _
    rw [funext htrace]
    exact ih.lklSteps (ownedBy hreach) (lklStep_cases hs)

/-! ## What makes no progress -/

/-- A step makes no progress exactly when a failure of its transfer is not translated. -/
theorem decided_ne_none_iff {step : Option Action} (h : s.decided (a, k) = some step) :
    step ≠ none ↔ ∀ r ∈ s.transfers (a, k), Reported r := by
  rcases decided_cases h with ⟨ho, rfl⟩ | ⟨c, op, answer, ho, hk, ha, rfl⟩
  · simp only [transfers, ho]
    exact iff_of_true (Option.some_ne_none a) fun r hr => absurd hr List.not_mem_nil
  · simp only [transfers, ho]
    rw [Option.elim_some, ← hk.answer_ne_nothing_iff ha]
    cases answer with
    | outcome out => exact iff_of_true (Option.some_ne_none _) fun h => by cases h
    | nothing => exact iff_of_false (fun h => h rfl) fun h => h rfl

/-- **What the results of LKL decide**, in every run of the program over them. The run is a run of
the program, without the steps that make no progress. Every client is told a success only for a
connection that is established, exactly when the results of its connect are translated. And every
step makes progress, so no relay loop spins, exactly when the results of the transfers are. -/
theorem lkl_results_iff {order : ByteOrder} {ls : List (Action × LklAnswers)}
    (he : lklMachine.exec (initial order) ls = some s) :
    machine.exec (initial order)
      (lklMachine.trace (Machine.made decided) (initial order) ls) = some s ∧
    (∀ c, (.success ∈ (s.conn c).replies →
        ∃ calls ∈ lklMachine.trace (connectCalls c) (initial order) ls, calls.Succeeded) ↔
      ∀ calls ∈ lklMachine.trace (connectCalls c) (initial order) ls, calls.Reported) ∧
    ((∀ t l u, lklMachine.Takes (initial order) ls t l u → t.decided l ≠ some none) ↔
      ∀ t l u, lklMachine.Takes (initial order) ls t l u → ∀ r ∈ t.transfers l, Reported r) := by
  refine ⟨Machine.exec_made he, fun c => ((told he).told c).iff, ?_⟩
  have hstep {t u : SocksServer} {l : Action × LklAnswers}
      (hT : lklMachine.Takes (initial order) ls t l u) :
      t.decided l ≠ some none ↔ ∀ r ∈ t.transfers l, Reported r := by
    obtain ⟨step, hd⟩ := Machine.exists_decided hT.step_eq
    rw [← decided_ne_none_iff hd, hd]
    exact not_congr (Option.some_inj (b := none))
  constructor
  · exact fun h t l u hT => (hstep hT).mp (h t l u hT)
  · exact fun h t l u hT => (hstep hT).mpr (h t l u hT)

/-- The results of LKL when the connect ends with `ERESTARTSYS`. -/
def restartAnswers (descriptor : ℤ) (transfer : List ℤ) : LklAnswers where
  errno := 0
  descriptor := descriptor
  socket := 3
  connect := ⟨-512, 0, -512, 0, by decide, by decide, by decide⟩
  incoming := []
  transfer := transfer
  bytes := []

/-- The steps up to the connect of the first client. -/
def connectingRun : List Action :=
  startRun (SocksConnection.sampleHeader ++ [0]) ++
    [.host 0 (.data SocksConnection.sampleHeader), .host 0 (.data [0]), .host 0 .ok]

/-- A client is accepted, and its connect ends with `ERESTARTSYS`. -/
def restartRun : List (Action × LklAnswers) :=
  connectingRun.map (Prod.mk · (restartAnswers (-1) [])) ++
    [(.host 0 .ok, restartAnswers 3 [])]

/-- The server after the run. -/
def restarted : SocksServer := (lklMachine.exec (initial .little) restartRun).getD (initial .little)

theorem lkl_results_iff_restarted : ¬ (.success ∈ (restarted.conn 0).replies →
    ∃ calls ∈ lklMachine.trace (connectCalls 0) (initial .little) restartRun, calls.Succeeded) := by
  have hrun : lklMachine.exec (initial .little) restartRun = some restarted := rfl
  have hcalls : lklMachine.trace (connectCalls 0) (initial .little) restartRun =
      [(restartAnswers 3 []).connect] := rfl
  intro h
  have hreported := ((lkl_results_iff hrun).2.1 0).mp h
  have hmem : (restartAnswers 3 []).connect ∈
      lklMachine.trace (connectCalls 0) (initial .little) restartRun :=
    hcalls ▸ List.mem_singleton_self _
  exact absurd (hreported _ hmem).1 (by decide)

/-! ## The shutdown -/

/-- A transfer on an open remote socket ends with a failure that is not translated. -/
def Spins (s : SocksServer) (l : Action × LklAnswers) : Prop :=
  ∃ c op, s.remoteOperation l.1 = some (c, op) ∧ (s.conn c).remoteSocket.isOpen = true ∧
    ∃ r ∈ l.2.transfers op, ¬ Reported r

theorem spins_of_idle (h : s.decided (a, k) = some none) : s.Spins (a, k) := by
  rcases decided_cases h with ⟨-, hn⟩ | ⟨c, op, answer, ho, hk, ha, hn⟩
  · cases hn
  · obtain rfl : answer = .nothing := by
      cases answer with
      | outcome out => cases hn
      | nothing => rfl
    refine ⟨c, op, ho, hk.isOpen_of_nothing ha, ?_⟩
    by_contra hr
    push Not at hr
    exact (hk.answer_ne_nothing_iff ha).mpr hr rfl

/-- **An infinite shutdown spins**, if every peer sends finitely many bytes: the stream of a socket
is a finite list, which is fixed when it is accepted or connected. Once a signal has stopped the
`io_service`, a run over the results of LKL is infinite only if from some point on relay threads
make transfers on their open remote sockets whose failures are not translated, and nothing else
happens. -/
theorem lkl_shutdown_spins (h : machine.Reachable s) (hs : s.Stopped) {run : ℕ → SocksServer}
    {ls : ℕ → Action × LklAnswers} (hrun : run 0 = s)
    (hstep : ∀ n, lklMachine.step (run n) (ls n) = some (run (n + 1))) :
    ∃ n, ∀ m ≥ n, run m = run n ∧ (run m).Spins (ls m) := by
  have hidle := Machine.eventually_idle (P := fun s => machine.Reachable s ∧ s.Stopped)
    (μ := remaining) (fun s a t hp ht => ?_) (hrun ▸ ⟨h, hs⟩) hstep
  · obtain ⟨n, hn⟩ := hidle
    exact ⟨n, fun m hm => ⟨(hn m hm).1, spins_of_idle (hn m hm).2⟩⟩
  · obtain ⟨hterm, -, hsteps⟩ := step_cases ht
    exact ⟨⟨hp.1.step ht, hp.2.steps hsteps⟩,
      hsteps.remaining_lt (ownedBy hp.1) hterm fun hl => absurd hl hp.2.ne_loop⟩

/-- The remote thread of the first connection reads, and each read ends with `ERESTARTSYS`. -/
theorem lkl_shutdown_spins_stopped : stopped.Spins (.remote 0 .ok, restartAnswers 3 [-512]) := by
  have hstep : lklMachine.step stopped (.remote 0 .ok, restartAnswers 3 [-512]) = some stopped :=
    rfl
  have hstopped : machine.Reachable stopped := ⟨_, stoppedRun, ⟨.little, rfl⟩, rfl⟩
  obtain ⟨n, h⟩ := lkl_shutdown_spins hstopped (.inl rfl) rfl fun _ => hstep
  exact (h n le_rfl).2

end SocksServer

end LklSocks
