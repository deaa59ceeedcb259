import DeepInIo.AdvancedServer.ShutdownProgress

/-!
# Every queued task is processed

The workers take the tasks in the order in which they were submitted, and a worker that has a task
goes on with it to the end.  So a task at any place of the queue is taken after exactly those before
it, and is completed, in every run that neglects no worker and in which the pool is not shut down
(`task_completed`); what the IO threads, the main thread and the clients do in between does not
matter.

No worker is neglected when a worker that always can take a step takes one
(`FairToWorkers.of_weak`).  Less is enough: which of the workers that wait in `task_queue_pop` is
woken is left open, so that one of them may wait for ever while the others take the tasks
(`FairToWorkers`).

The argument is made twice with `TransitionSystem.exists_awaited`: the workers come back to
`task_queue_pop`, and the worker with the task comes to `task_destroy`.
-/

namespace DeepInIo.AdvancedServer

open State

variable {n m : ℕ}

/-- The step is one of the worker. -/
def byWorker (w : Fin m) (_ : State n m) : Action n m → Bool
  | .worker w' _ => w' = w
  | _ => false

theorem byWorker_self (w : Fin m) (s : State n m) (ok : Bool) :
    byWorker w s (.worker w ok) = true :=
  decide_eq_true rfl

/-- The step is one of a worker. -/
def byAnyWorker (_ : State n m) : Action n m → Bool
  | .worker .. => true
  | _ => false

/-- The step is one of the worker, outside `task_queue_pop`. -/
def State.goesOn (w : Fin m) (s : State n m) : Action n m → Bool
  | .worker w' _ => decide (w' = w) && !decide (s.worker w = .pop)
  | _ => false

/-- The step takes a task out of the queue. -/
def State.takes (s : State n m) : Action n m → Bool
  | .worker w _ => decide (s.worker w = .pop) && !s.queue.isEmpty
  | _ => false

/-- How many tasks were taken out of the queue before the time `i`. -/
def takenBefore (st : ℕ → State n m) (act : ℕ → Action n m) (i : ℕ) : ℕ :=
  (List.range i).countP fun j => (st j).takes (act j)

/-- The pool is not shut down, and the step does not shut it down. -/
def PoolOpen (cfg : Config n) (s : State n m) (a : Action n m) : Prop :=
  s.poolShutdown = false ∧ ∀ s', (server m cfg).step s a = some s' → s'.poolShutdown = false

section steps

variable {cfg : Config n} {s s' : State n m} {t : Fin n} {w : Fin m}

/-! ### The queue while no task is taken -/

/-- An IO thread leaves the tasks in the queue where they are. -/
theorem IoStep.queue_grows (h : IoStep cfg s t s') : s.queue <+: s'.queue := by
  cases h with
  | submit => exact List.prefix_append ..
  | _ => exact List.prefix_refl _

/-- The main thread leaves the queue alone until the pool is shut down. -/
theorem MainStep.queue_eq (h : MainStep cfg s s') (horder : StopOrder s)
    (hopen : s.poolShutdown = false) :
    s'.queue = s.queue := by
  cases h with
  | destroyTask hpc =>
    have hpool := horder.pool (horder.joining (.inr hpc))
    rw [hopen] at hpool
    cases hpool
  | _ => rfl

/-- A worker that takes no task leaves the queue alone and comes closer to taking one. -/
theorem WorkerStep.returns (h : WorkerStep cfg s w s')
    (hstop : s.worker w = .popNull → s.poolShutdown = true)
    (hno : s.worker w = .pop → s.queue = []) :
    s'.queue = s.queue ∧ (s'.worker w).rank < (s.worker w).rank := by
  cases h with
  | @move pc' hm =>
    refine ⟨rfl, ?_⟩
    rw [setWorker_worker, Function.update_self]
    exact hm.rank_lt hstop
  | pop hpc hq =>
    rw [hno hpc] at hq
    cases hq
  | link hpc =>
    refine ⟨rfl, ?_⟩
    simp only [linkMessage, setWorker_worker, Function.update_self, hpc, WorkerPc.rank]
    omega
  | install hpc | acquire hpc | notify hpc | closeMark hpc | closeRelease hpc | stats hpc
  | destroy hpc =>
    refine ⟨rfl, ?_⟩
    simp only [setWorker_worker, Function.update_self, hpc, WorkerPc.rank]
    omega

/-- A worker with a task keeps it, and comes closer to its end. -/
theorem WorkerStep.keeps (h : WorkerStep cfg s w s') {task : Task}
    (htask : (s.worker w).task? = some task) (hne : s.worker w ≠ .destroy task) :
    (s'.worker w).task? = some task ∧ (s'.worker w).rank < (s.worker w).rank := by
  cases h with
  | @move pc' hm =>
    rw [setWorker_worker, Function.update_self]
    have hstop : s.worker w = .popNull → s.poolShutdown = true := by
      intro hpc
      rw [hpc] at htask
      cases htask
    refine ⟨?_, hm.rank_lt hstop⟩
    generalize s.worker w = pc at hm htask
    cases hm <;> exact htask
  | pop hpc =>
    rw [hpc] at htask
    cases htask
  | destroy hpc =>
    rw [hpc] at htask
    cases htask
    exact (hne hpc).elim
  | link hpc =>
    simp only [linkMessage, setWorker_worker, Function.update_self]
    rw [hpc] at htask ⊢
    refine ⟨htask, ?_⟩
    simp only [WorkerPc.rank]
    omega
  | install hpc | acquire hpc | notify hpc | closeMark hpc | closeRelease hpc | stats hpc =>
    simp only [setWorker_worker, Function.update_self]
    rw [hpc] at htask ⊢
    refine ⟨htask, ?_⟩
    simp only [WorkerPc.rank]
    omega

/-! ### The two stages -/

/-- As long as no task is taken, the queue only grows, and the workers come closer to taking one. -/
theorem take_paidUntil (q : List Task) :
    (server m cfg).PaidUntil (PoolOpen cfg) (fun s a => s.takes a = true) byAnyWorker
      (fun s => ((server m cfg).Reachable s ∧ s.poolShutdown = false) ∧ q <+: s.queue)
      (fun s => ∑ w, (s.worker w).rank) := by
  intro s a s' hinv hok hs hno
  obtain ⟨⟨hr, hopen⟩, hq⟩ := hinv
  have horder := reachable_stopOrder hr
  have hinv' := And.intro (hr.next hs) (hok.2 s' hs)
  beta_reduce
  cases a with
  | main r =>
    have hstep := mainStep_spec hs
    rw [hstep.worker_eq, hstep.queue_eq horder hopen]
    exact ⟨⟨hinv', hq⟩, le_rfl⟩
  | io t r =>
    have hstep := ioStep_spec hs
    rw [hstep.worker_eq]
    exact ⟨⟨hinv', hq.trans hstep.queue_grows⟩, le_rfl⟩
  | worker w ok =>
    have hstep := workerStep_spec hs
    have hempty : s.worker w = .pop → s.queue = [] := by
      intro hpc
      by_contra hne
      refine hno ?_
      simp [State.takes, hpc, hne]
    obtain ⟨hqueue, hlt⟩ := hstep.returns (fun hpc => horder.worker w (.inl hpc)) hempty
    rw [hqueue, hstep.worker_update]
    exact ⟨⟨hinv', hq⟩, threadSum_update_add_le s.worker w (s'.worker w) WorkerPc.rank hlt⟩
  | env e =>
    have hstep := envStep_spec hs
    cases hstep <;> exact ⟨⟨hinv', hq⟩, le_rfl⟩

/-- The worker with the task goes on until it destroys it. -/
theorem complete_paidUntil (w : Fin m) (task : Task) :
    (server m cfg).PaidUntil (fun _ _ => True)
      (fun s a => byWorker w s a = true ∧ s.worker w = .destroy task) (State.goesOn w)
      (fun s => (s.worker w).task? = some task) (fun s => (s.worker w).rank) := by
  intro s a s' htask _ hs hno
  beta_reduce at htask ⊢
  cases a with
  | main r =>
    rw [(mainStep_spec hs).worker_eq]
    exact ⟨htask, le_rfl⟩
  | io t r =>
    rw [(ioStep_spec hs).worker_eq]
    exact ⟨htask, le_rfl⟩
  | worker w' ok =>
    have hstep := workerStep_spec hs
    by_cases hw : w' = w
    · subst hw
      obtain ⟨htask', hlt⟩ := hstep.keeps htask fun hpc => hno ⟨byWorker_self .., hpc⟩
      exact ⟨htask', (Nat.add_le_add_left (Bool.toNat_le _) _).trans hlt⟩
    · have hother : s.goesOn w (.worker w' ok) = false := by
        simp [State.goesOn, hw]
      rw [hstep.worker_ne (Ne.symm hw), hother]
      exact ⟨htask, le_rfl⟩
  | env e =>
    have hstep := envStep_spec hs
    cases hstep <;> exact ⟨htask, le_rfl⟩

end steps

/-! ### Runs -/

/-- No worker is neglected: when there is always a worker that can take a step, one of them does,
and a worker outside `task_queue_pop` goes on. -/
structure FairToWorkers (cfg : Config n) (st : ℕ → State n m) (act : ℕ → Action n m) : Prop where
  some : (server m cfg).WeakFair byAnyWorker st act
  each : ∀ w, (server m cfg).WeakFair (State.goesOn w) st act

section run

variable {cfg : Config n} {st : ℕ → State n m} {act : ℕ → Action n m}

/-- Nothing is taken between two times at which as much has been taken. -/
theorem takenBefore_eq {i j : ℕ} (hij : i ≤ j)
    (hno : ∀ l, i ≤ l → l < j → ¬(st l).takes (act l) = true) :
    takenBefore st act j = takenBefore st act i := by
  induction hij with
  | refl => rfl
  | @step j hij ih =>
    have hlast : (st j).takes (act j) = false :=
      Bool.eq_false_iff.mpr (hno j hij (Nat.lt_succ_self j))
    rw [takenBefore, Nat.succ_eq_add_one, List.range_succ, List.countP_append,
      List.countP_singleton, hlast]
    exact ih fun l hl hlt => hno l hl (Nat.lt_succ_of_lt hlt)

theorem takenBefore_succ {i : ℕ} (h : (st i).takes (act i) = true) :
    takenBefore st act (i + 1) = takenBefore st act i + 1 := by
  rw [takenBefore, List.range_succ, List.countP_append, List.countP_singleton, h]
  rfl

/-- While the pool stays open, no step shuts it down. -/
theorem run_poolOpen (hrun : (server m cfg).Run (fun s _ => s.poolShutdown = false) st act) :
    (server m cfg).Run (PoolOpen cfg) st act := by
  intro i
  refine ⟨⟨(hrun i).1, fun s' hs => ?_⟩, (hrun i).2⟩
  have hnext : st (i + 1) = s' := Option.some.inj ((hrun i).2.symm.trans hs)
  rw [← hnext]
  exact (hrun (i + 1)).1

/-- A worker that can take a step still can after a step that is not one of a worker. -/
theorem worker_enabled_step {s s' : State n m} {a : Action n m} {w : Fin m}
    (hr : (server m cfg).Reachable s) (hopen : s.poolShutdown = false)
    (hs : (server m cfg).step s a = some s') (ha : byAnyWorker s a = false) :
    s'.worker w = s.worker w ∧ s.queue <+: s'.queue := by
  cases a with
  | main r =>
    have hstep := mainStep_spec hs
    rw [hstep.queue_eq (reachable_stopOrder hr) hopen]
    exact ⟨congrFun hstep.worker_eq w, List.prefix_refl _⟩
  | io t r =>
    have hstep := ioStep_spec hs
    exact ⟨congrFun hstep.worker_eq w, hstep.queue_grows⟩
  | worker => cases ha
  | env e =>
    have hstep := envStep_spec hs
    cases hstep <;> exact ⟨rfl, List.prefix_refl _⟩

/-- A worker can take a step exactly when it has not returned, and finds a task if it waits for
one. -/
theorem byWorker_enabled {s : State n m} {w : Fin m} (hr : (server m cfg).Reachable s)
    (hopen : s.poolShutdown = false) :
    (∃ a, byWorker w s a = true ∧ ((server m cfg).step s a).isSome = true) ↔
      (s.worker w = .pop → s.queue ≠ []) := by
  have horder := reachable_stopOrder hr
  constructor
  · rintro ⟨a, hby, hsome⟩ hpc hempty
    cases a with
    | worker w' ok =>
      obtain rfl : w' = w := of_decide_eq_true hby
      have hqueue : s.queueShutdown = false := by
        by_contra hstop
        rw [horder.pool (Bool.eq_true_of_not_eq_false hstop)] at hopen
        cases hopen
      simp [server, State.step, workerStep, hpc, popTask, hempty, hqueue] at hsome
    | main | io | env => cases hby
  · intro hne
    have hrunning : s.worker w ≠ .exited := by
      intro hpc
      rw [horder.worker w (.inr hpc)] at hopen
      cases hopen
    exact ⟨.worker w true, byWorker_self .., workerStep_enabled hrunning fun hpc => .inl (hne hpc)⟩

/-- No worker is neglected when one that always can take a step takes one. -/
theorem FairToWorkers.of_weak (hr : (server m cfg).Reachable (st 0))
    (hrun : (server m cfg).Run (fun s _ => s.poolShutdown = false) st act)
    (hfair : ∀ w, (server m cfg).WeakFair (byWorker w) st act) : FairToWorkers cfg st act := by
  have hreach := hrun.forall (fun s a s' hs hstep => hs.next hstep) hr
  constructor
  · intro i henabled
    by_contra hnone
    push Not at hnone
    have hidle : ∀ j, i ≤ j → byAnyWorker (st j) (act j) = false :=
      fun j hij => Bool.eq_false_iff.mpr (hnone j hij)
    obtain ⟨a, hby, hsome⟩ := henabled i (Nat.le_refl i)
    cases a with
    | main | io | env => cases hby
    | worker w ok =>
      -- nothing that happens stops the worker, so that it goes on
      have hable := (byWorker_enabled (hreach i) (hrun i).1).mp ⟨_, byWorker_self w _ ok, hsome⟩
      have hkept : ∀ j, i ≤ j → ((st j).worker w = .pop → (st j).queue ≠ []) := by
        intro j hij
        induction hij with
        | refl => exact hable
        | @step j hij ih =>
          obtain ⟨hpc, hgrows⟩ :=
            worker_enabled_step (w := w) (hreach j) (hrun j).1 (hrun j).2 (hidle j hij)
          intro hpop hempty
          rw [show (st (j + 1)).queue = [] from hempty] at hgrows
          exact ih (hpc ▸ hpop) (List.prefix_nil.mp hgrows)
      obtain ⟨j, hij, hj⟩ := hfair w i fun j hij =>
        (byWorker_enabled (hreach j) (hrun j).1).mpr (hkept j hij)
      have hany : byAnyWorker (st j) (act j) = true := by
        cases hact : act j with
        | worker => rfl
        | main | io | env =>
          rw [hact] at hj
          cases hj
      rw [hidle j hij] at hany
      cases hany
  · intro w i henabled
    obtain ⟨j, hij, hj⟩ := hfair w i fun j hij => by
      obtain ⟨a, hgoes, hsome⟩ := henabled j hij
      cases a with
      | worker w' ok =>
        obtain rfl : w' = w := of_decide_eq_true (Bool.and_eq_true_iff.mp hgoes).1
        exact ⟨_, byWorker_self w' _ ok, hsome⟩
      | main | io | env => cases hgoes
    refine ⟨j, hij, ?_⟩
    -- the worker is outside `task_queue_pop` at that time
    obtain ⟨a, hgoes, -⟩ := henabled j hij
    cases hact : act j with
    | main | io | env =>
      rw [hact] at hj
      cases hj
    | worker w' ok =>
      rw [hact] at hj
      cases a with
      | worker w'' ok' => exact Bool.and_eq_true_iff.mpr ⟨hj, (Bool.and_eq_true_iff.mp hgoes).2⟩
      | main | io | env => cases hgoes

/-- A task keeps its place in a queue that grows. -/
theorem getElem?_of_grows {q q' : List Task} (h : q <+: q') {k : ℕ} {task : Task}
    (htask : q[k]? = some task) :
    q'[k]? = some task := by
  obtain ⟨rest, rfl⟩ := h
  rwa [List.getElem?_append_left (List.getElem?_eq_some_iff.mp htask).1]

/-- The next task is taken, after those submitted in the meantime have been put behind it. -/
theorem exists_take (hm : 0 < m) (hr : (server m cfg).Reachable (st 0))
    (hrun : (server m cfg).Run (fun s _ => s.poolShutdown = false) st act)
    (hfair : FairToWorkers cfg st act) {i : ℕ} (hne : (st i).queue ≠ []) :
    ∃ j, i ≤ j ∧ (st j).takes (act j) = true ∧ (st i).queue <+: (st j).queue ∧
      takenBefore st act j = takenBefore st act i := by
  have hreach := hrun.forall (fun s a s' hs hstep => hs.next hstep) hr
  -- a worker can go on as long as there is a task
  have hprogress : ∀ s : State n m,
      ((server m cfg).Reachable s ∧ s.poolShutdown = false) ∧ (st i).queue <+: s.queue →
        ∃ a, byAnyWorker s a = true ∧ ((server m cfg).step s a).isSome = true := by
    intro s hinv
    obtain ⟨⟨hs, hopen⟩, hq⟩ := hinv
    have hqueue : s.queue ≠ [] := by
      intro hempty
      rw [hempty] at hq
      exact hne (List.prefix_nil.mp hq)
    obtain ⟨a, hby, hsome⟩ := (byWorker_enabled (w := ⟨0, hm⟩) hs hopen).mpr fun _ => hqueue
    cases a with
    | worker => exact ⟨_, rfl, hsome⟩
    | main | io | env => cases hby
  obtain ⟨j, hij, htake, hinv, hbefore⟩ :=
    TransitionSystem.exists_awaited (take_paidUntil (st i).queue) hprogress
      (run_poolOpen hrun) hfair.some ⟨⟨hreach i, (hrun i).1⟩, List.prefix_refl _⟩
  exact ⟨j, hij, htake, hinv.2, takenBefore_eq hij hbefore⟩

/-- A step that takes a task takes the first one. -/
theorem takes_spec {s s' : State n m} {a : Action n m} (h : s.takes a = true)
    (hs : (server m cfg).step s a = some s') :
    ∃ w ok task, a = .worker w ok ∧ s.worker w = .pop ∧ s.queue = task :: s'.queue ∧
      s'.worker w = .check task := by
  cases a with
  | worker w ok =>
    simp only [State.takes, Bool.and_eq_true, decide_eq_true_eq] at h
    obtain ⟨hpc, hne⟩ := h
    cases hq : s.queue with
    | nil =>
      rw [hq] at hne
      cases hne
    | cons task rest =>
      have hs' : s.workerStep cfg w ok = some s' := hs
      simp only [workerStep, hpc, popTask, hq] at hs'
      cases hs'
      exact ⟨w, ok, task, rfl, hpc, rfl, Function.update_self ..⟩
  | main | io | env => cases h

/-- Every task in the queue is taken, after exactly those before it. -/
theorem exists_taken (hm : 0 < m) (hr : (server m cfg).Reachable (st 0))
    (hrun : (server m cfg).Run (fun s _ => s.poolShutdown = false) st act)
    (hfair : FairToWorkers cfg st act) {i k : ℕ} {task : Task}
    (htask : (st i).queue[k]? = some task) :
    ∃ j w ok, i ≤ j ∧ takenBefore st act j = takenBefore st act i + k ∧ act j = .worker w ok ∧
      (st j).worker w = .pop ∧ (st j).queue.head? = some task ∧
      (st (j + 1)).worker w = .check task := by
  induction k generalizing i with
  | zero =>
    have hne : (st i).queue ≠ [] := by
      intro hnil
      rw [hnil] at htask
      cases htask
    obtain ⟨j, hij, htake, hgrows, hcount⟩ := exists_take hm hr hrun hfair hne
    obtain ⟨w, ok, first, hact, hpc, hqueue, hcheck⟩ := takes_spec htake (hrun j).2
    have hhead : (st j).queue.head? = some task := by
      rw [List.head?_eq_getElem?]
      exact getElem?_of_grows hgrows htask
    rw [hqueue, List.head?_cons] at hhead
    cases hhead
    refine ⟨j, w, ok, hij, hcount, hact, hpc, ?_, hcheck⟩
    rw [hqueue, List.head?_cons]
  | succ k ih =>
    have hne : (st i).queue ≠ [] := by
      intro hnil
      rw [hnil] at htask
      cases htask
    obtain ⟨j, hij, htake, hgrows, hcount⟩ := exists_take hm hr hrun hfair hne
    obtain ⟨w, ok, first, -, -, hqueue, -⟩ := takes_spec htake (hrun j).2
    -- the task has moved up by one
    have hnext : (st (j + 1)).queue[k]? = some task := by
      rw [← List.getElem?_cons_succ (a := first), ← hqueue]
      exact getElem?_of_grows hgrows htask
    obtain ⟨j', w', ok', hij', hcount', hrest⟩ := ih hnext
    refine ⟨j', w', ok', by omega, ?_, hrest⟩
    rw [hcount', takenBefore_succ htake, hcount]
    omega

/-- In a run that neglects no worker and does not shut the pool down, every task in the queue is
taken after exactly those before it, and the worker that takes it holds it until it has completed
it. -/
theorem task_completed (hm : 0 < m) (hr : (server m cfg).Reachable (st 0))
    (hrun : (server m cfg).Run (fun s _ => s.poolShutdown = false) st act)
    (hfair : FairToWorkers cfg st act) {i k : ℕ} {task : Task}
    (htask : (st i).queue[k]? = some task) :
    ∃ j w, i ≤ j ∧ takenBefore st act j = takenBefore st act i + k ∧
      byWorker w (st j) (act j) = true ∧ (st j).worker w = .pop ∧ (st j).queue.head? = some task ∧
      ∃ l, j < l ∧ (∀ l', j < l' → l' ≤ l → ((st l').worker w).task? = some task) ∧
        (st l).worker w = .destroy task ∧ byWorker w (st l) (act l) = true := by
  obtain ⟨j, w, ok, hij, hcount, hact, hpc, hhead, hcheck⟩ := exists_taken hm hr hrun hfair htask
  have htaken : byWorker w (st j) (act j) = true := by
    rw [hact]
    exact byWorker_self ..
  have hplain : (server m cfg).Run (fun _ _ => True) st act := fun i => ⟨trivial, (hrun i).2⟩
  have hheld : ((st (j + 1)).worker w).task? = some task := by
    rw [hcheck]
    rfl
  -- a worker with a task waits for nothing
  have hprogress : ∀ s : State n m, (s.worker w).task? = some task →
      ∃ a, s.goesOn w a = true ∧ ((server m cfg).step s a).isSome = true := by
    intro s hs
    have hpop : s.worker w ≠ .pop := by
      intro hpop
      rw [hpop] at hs
      cases hs
    refine ⟨.worker w true, by simp [State.goesOn, hpop],
      workerStep_enabled (fun hexited => ?_) hpop.elim⟩
    rw [hexited] at hs
    cases hs
  obtain ⟨l, hjl, ⟨hby, hdestroy⟩, -, hbefore⟩ :=
    TransitionSystem.exists_awaited (complete_paidUntil w task) hprogress hplain
      (hfair.each w) hheld
  refine ⟨j, w, hij, hcount, htaken, hpc, hhead, l, hjl, fun l' hjl' hl' => ?_, hdestroy, hby⟩
  exact (hplain.until_le (complete_paidUntil w task) hheld hjl' fun i' hi' hlt =>
    hbefore i' hi' (hlt.trans_le hl')).1

end run

/-- The workers wait for tasks, and there is none. -/
def State.PoolIdle (s : State n m) : Prop :=
  (∀ w, s.worker w = .pop) ∧ s.queue = [] ∧ s.queueShutdown = false ∧ s.poolShutdown = false

instance (s : State n m) : Decidable s.PoolIdle :=
  inferInstanceAs (Decidable (_ ∧ _))

/-- Workers that wait for tasks take no step. -/
theorem State.PoolIdle.waits {cfg : Config n} {s : State n m} (h : s.PoolIdle) {w : Fin m}
    {ok : Bool} :
    (server m cfg).step s (.worker w ok) = none := by
  obtain ⟨hpc, hqueue, hstop, -⟩ := h
  simp [server, State.step, workerStep, hpc w, popTask, hqueue, hstop]

/-- Two tasks are queued; worker 1 takes the second one while worker 0 is busy with the first. -/
theorem task_completed_two :
    ∃ (st : ℕ → State 1 2) (act : ℕ → Action 1 2) (task : Task),
      FairToWorkers (Config.fresh 1) st act ∧ (st 0).queue[1]? = some task ∧
        ∃ j w, takenBefore st act j = takenBefore st act 0 + 1 ∧
          ∃ l, j < l ∧ (st l).worker w = .destroy task := by
  obtain ⟨s₀, hr, hs₀⟩ := TransitionSystem.exists_of_exec (server 2 (Config.fresh 1))
    (s := State.start _)
    (Action.connect 10 ++ Action.adopt 0 ++ ([.env (.data 10 [65, 66])] : List (Action 1 2)) ++
      Action.deliver 0 10 { read := true } ++ Action.readOne 0 1 ++ Action.readOne 0 1)
    (fun s : State 1 2 => (s.queue[1]?).isSome &&
      ((server 2 (Config.fresh 1)).execUnder (fun s _ => s.poolShutdown = false) s
        (Action.work 0 6 ++ Action.work 1 12 ++ Action.work 0 6)).any
          fun s : State 1 2 => decide s.PoolIdle) rfl rfl
  obtain ⟨hsome, hexec⟩ := Bool.and_eq_true_iff.mp hs₀
  obtain ⟨task, htask⟩ := Option.isSome_iff_exists.mp hsome
  obtain ⟨s', hs', hrest⟩ := (Option.any_eq_true ..).mp hexec
  have hidle : ∀ s : State 1 2, s.PoolIdle → s.poolShutdown = false ∧
      ∃ s', s'.PoolIdle ∧ (server 2 (Config.fresh 1)).step s (.env .arrive) = some s' := by
    intro s hs
    let kernel := { s.kernel with backlog := s.kernel.backlog + 1, listenEdge := true }
    exact ⟨hs.2.2.2, s.setKernel kernel, hs, rfl⟩
  obtain ⟨st, act, rfl, hrun, -, hafter⟩ :=
    TransitionSystem.exists_run_of_exec (fun _ _ hok => hok) hidle hs' (of_decide_eq_true hrest)
  have hfair : FairToWorkers (Config.fresh 1) st act := by
    refine .of_weak hr hrun fun w => ?_
    refine TransitionSystem.weakFair_of_quiet (fun s a hs hby => ?_) fun i hi => (hafter i hi).1
    cases a with
    | worker w' ok => exact hs.waits
    | main | io | env => cases hby
  obtain ⟨j, w, -, hcount, -, -, -, l, hjl, -, hdestroy, -⟩ :=
    task_completed Nat.zero_lt_two hr hrun hfair htask
  exact ⟨st, act, task, hfair, htask, j, w, hcount, l, hjl, hdestroy⟩

end DeepInIo.AdvancedServer
