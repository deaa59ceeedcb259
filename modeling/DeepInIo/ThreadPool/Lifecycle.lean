import DeepInIo.ThreadPool.Steps

/-!
# The life of a task in the thread pool

Every task that the queue accepted is popped by one worker, which destroys it, or is destroyed with
the queue after all workers have exited (`tasks_destroyed`).  The shutdown flag, the queue's own
flag and the loops of the workers are separate steps; `ThreadPool.Ending` says how far the shutdown
has got.
-/

namespace DeepInIo

open ThreadPool

/-- The task that a worker has popped and not yet destroyed. -/
def PoolWorkerPc.task? {ν : Type*} : PoolWorkerPc ν → Option ν
  | .process task => some task
  | .stats task => some task
  | .destroy task => some task
  | _ => none

/-- A worker has a task that is not yet counted. -/
def PoolWorkerPc.uncounted {ν : Type*} : PoolWorkerPc ν → ℕ
  | .process _ => 1
  | .stats _ => 1
  | _ => 0

/-- The tasks that a worker can still pass to `task_destroy` once the shutdown flag is set. -/
def PoolWorkerPc.remaining {ν : Type*} : PoolWorkerPc ν → ℕ
  | .pop => 1
  | .process _ => 1
  | .stats _ => 1
  | .destroy _ => 1
  | _ => 0

/-- How many steps a worker takes at most until it has exited, once the queue is shut down. -/
def PoolWorkerPc.rank {ν : Type*} : PoolWorkerPc ν → ℕ
  | .pop => 5
  | .process _ => 4
  | .stats _ => 3
  | .destroy _ => 2
  | .loopTest => 1
  | .nullTest => 1
  | .exited => 0

section lifecycle

variable {m : ℕ} {σ ν : Type*} [DecidableEq σ] [DecidableEq ν] {s s' : ThreadPool m σ ν}
  {queueSize : ℤ}

/-! ### The queue of the pool -/

omit [DecidableEq σ] [DecidableEq ν] in
@[simp] theorem afterPop_taskQueue (w : Fin m) (q : Monitor (Fin m ⊕ σ) ν) :
    (s.afterPop w q).taskQueue = q := by
  unfold afterPop
  split <;> rfl

omit [DecidableEq ν] in
@[simp] theorem afterPush_taskQueue (x : σ) (q : Monitor (Fin m ⊕ σ) ν) :
    (s.afterPush x q).taskQueue = q := by
  unfold afterPush
  split <;> rfl

/-- A step of the pool is at most one step of the threads at the queue. -/
theorem step_taskQueue {a : PoolAction m σ ν} (h : s.step a = some s') (hfresh : s.Fresh a) :
    s'.taskQueue = s.taskQueue ∨
      ∃ qa, s.taskQueue.Fresh qa ∧ s.taskQueue.step qa = some s'.taskQueue := by
  cases a with
  | worker w woken =>
    cases hpc : s.worker w <;> simp only [ThreadPool.step, workerStep, hpc] at h
    case pop =>
      split at h
      · cases h
      · obtain ⟨q, hq, rfl⟩ := Option.map_eq_some_iff.mp h
        refine .inr ⟨s.popAction w woken, fun task htask => ?_, by rwa [afterPop_taskQueue]⟩
        unfold popAction at htask
        split at htask <;> cases htask
    case exited => cases h
    all_goals
      cases h
      exact .inl rfl
  | submit x task =>
    simp only [ThreadPool.step, submitStep] at h
    split at h
    · split at h <;> cases h <;> exact .inl rfl
    · cases h
  | push x woken =>
    cases hpc : s.submitter x <;> simp only [ThreadPool.step, pushStep, hpc] at h
    case idle => cases h
    case push task =>
      split at h
      · cases h
      · obtain ⟨q, hq, rfl⟩ := Option.map_eq_some_iff.mp h
        refine .inr ⟨s.pushAction x task woken, ?_, by rwa [afterPush_taskQueue]⟩
        exact hfresh task (by rw [hpc]; rfl)
  | spurious th =>
    obtain ⟨q, hq, rfl⟩ := Option.map_eq_some_iff.mp h
    exact .inr ⟨.spurious th, by rintro _ ⟨⟩, hq⟩
  | shutdown | destroy =>
    simp only [ThreadPool.step] at h
    split at h <;> cases h
    exact .inl rfl
  | main =>
    simp only [ThreadPool.step, ThreadPool.mainStep] at h
    split at h
    case h_1 => cases h
    case h_2 | h_3 =>
      cases h
      exact .inr ⟨.shutdown, by rintro _ ⟨⟩, rfl⟩
    case h_4 i hmain =>
      split at h
      · split at h <;> cases h
        exact .inl rfl
      · cases h
        exact .inl rfl
    case h_5 | h_6 =>
      cases h
      exact .inl rfl
    case h_7 => cases h

/-- The queue of a pool is in a state that the threads at a queue can reach. -/
theorem reachable_taskQueue (h : (threadPool m σ ν queueSize).ReachableUnder ThreadPool.Fresh s) :
    (taskQueue (Fin m ⊕ σ) ν queueSize).ReachableUnder Monitor.Fresh s.taskQueue := by
  induction h with
  | init h =>
    obtain ⟨next, rfl⟩ := h
    exact .init ⟨next, rfl⟩
  | step h hok hs ih =>
    rcases step_taskQueue hs hok with heq | ⟨qa, hfresh, hstep⟩
    · rw [heq]
      exact ih
    · exact .step ih hfresh hstep

/-- The threads of the pool are right in their calls. -/
theorem reachable_calls (h : (threadPool m σ ν queueSize).ReachableUnder ThreadPool.Fresh s) :
    s.Calls := by
  refine h.invariant ?_ ?_
  · rintro _ ⟨next, rfl⟩
    exact ⟨fun _ => .inl rfl, fun _ => .inl rfl⟩
  · intro s a s' _ hc _ hs
    have hstep : PoolStep s s' := poolStep_spec hc hs
    exact hstep.calls hc

/-! ### The account of the tasks -/

omit [DecidableEq σ] [DecidableEq ν] in
/-- A task that a worker adds to a list is the last of its own. -/
theorem tasksOf_append_self (l : List (Fin m × ν)) (w : Fin m) (task : ν) :
    tasksOf (l ++ [(w, task)]) w = tasksOf l w ++ [task] := by
  rw [tasksOf, List.filter_append, List.map_append, tasksOf, List.filter_singleton]
  simp

omit [DecidableEq σ] [DecidableEq ν] in
/-- The lists of the other workers stay. -/
theorem tasksOf_append_of_ne (l : List (Fin m × ν)) {w w' : Fin m} (hw : w' ≠ w) (task : ν) :
    tasksOf (l ++ [(w, task)]) w' = tasksOf l w' := by
  rw [tasksOf, List.filter_append, List.map_append, tasksOf, List.filter_singleton]
  simp [hw.symm]

omit [DecidableEq σ] [DecidableEq ν] in
/-- The popped tasks are those that the queue returned; each worker has destroyed those that it
popped, in that order, except for one that it may have in hand; and it has counted them, except for
that one. -/
structure ThreadPool.Account (s : ThreadPool m σ ν) : Prop where
  returned : s.popped.map Prod.snd = s.taskQueue.returned
  worker : ∀ w, tasksOf s.popped w = tasksOf s.destroyed w ++ (s.worker w).task?.toList
  completed : s.tasksCompleted + ∑ w, (s.worker w).uncounted = s.popped.length

omit [DecidableEq σ] [DecidableEq ν] in
/-- A worker that proceeds with the same task in hand keeps the account. -/
theorem ThreadPool.Account.of_worker (hi : s.Account) {w : Fin m} {pc : PoolWorkerPc ν}
    (hworker : s'.worker = Function.update s.worker w pc) (htask : pc.task? = (s.worker w).task?)
    (huncounted : s'.tasksCompleted + pc.uncounted = s.tasksCompleted + (s.worker w).uncounted)
    (hpopped : s'.popped = s.popped) (hdestroyed : s'.destroyed = s.destroyed)
    (hreturned : s'.taskQueue.returned = s.taskQueue.returned) : s'.Account where
  returned := by
    rw [hpopped, hreturned]
    exact hi.returned
  worker w' := by
    rw [hpopped, hdestroyed, hworker, hi.worker w']
    by_cases hw : w' = w
    · subst hw
      rw [Function.update_self, htask]
    · rw [Function.update_of_ne hw]
  completed := by
    have hsum := threadSum_update s.worker w pc PoolWorkerPc.uncounted
    have hold := hi.completed
    rw [hworker, hpopped]
    omega

omit [DecidableEq σ] [DecidableEq ν] in
/-- What only concerns the queue's threads and the ending keeps the account. -/
theorem ThreadPool.Account.of_same (hi : s.Account) (hworker : s'.worker = s.worker)
    (hcompleted : s'.tasksCompleted = s.tasksCompleted) (hpopped : s'.popped = s.popped)
    (hdestroyed : s'.destroyed = s.destroyed)
    (hreturned : s'.taskQueue.returned = s.taskQueue.returned) : s'.Account where
  returned := by
    rw [hpopped, hreturned]
    exact hi.returned
  worker w := by
    rw [hpopped, hdestroyed, hworker]
    exact hi.worker w
  completed := by
    rw [hworker, hcompleted, hpopped]
    exact hi.completed

/-- A step keeps the account. -/
theorem PoolStep.account (h : PoolStep s s') (hi : s.Account) : s'.Account := by
  cases h with
  | loopExit hpc | nullExit hpc | loopPop hpc | nullLoop hpc | process hpc | stats hpc =>
    exact hi.of_worker rfl (by rw [hpc]; rfl) (by rw [hpc]; rfl) rfl rfl rfl
  | popNull hpc hqueue hcall hreturned =>
    exact hi.of_worker rfl (by rw [hpc]; rfl) (by rw [hpc]; rfl) rfl rfl hreturned
  | @popped w task q hpc hfree hqueue hcall hreturned =>
    have hnone : (s.worker w).task? = none := by rw [hpc]; rfl
    refine ⟨?_, fun w' => ?_, ?_⟩
    · change (s.popped ++ [(w, task)]).map Prod.snd = q.returned
      rw [List.map_append, hi.returned, hreturned]
      rfl
    · change tasksOf (s.popped ++ [(w, task)]) w' =
        tasksOf s.destroyed w' ++ (Function.update s.worker w (.process task) w').task?.toList
      by_cases hw : w' = w
      · subst hw
        rw [tasksOf_append_self, hi.worker w', hnone, Function.update_self]
        simp [PoolWorkerPc.task?]
      · rw [tasksOf_append_of_ne _ hw, hi.worker w', Function.update_of_ne hw]
    · have hsum := threadSum_update s.worker w (.process task) PoolWorkerPc.uncounted
      have hold := hi.completed
      have hzero : (s.worker w).uncounted = 0 := by rw [hpc]; rfl
      have hone : (PoolWorkerPc.process task).uncounted = 1 := rfl
      change s.tasksCompleted + ∑ w', (Function.update s.worker w (.process task) w').uncounted =
        (s.popped ++ [(w, task)]).length
      rw [List.length_append, List.length_singleton]
      omega
  | @destroy w task hpc =>
    have hsome : (s.worker w).task? = some task := by rw [hpc]; rfl
    refine ⟨hi.returned, fun w' => ?_, ?_⟩
    · change tasksOf s.popped w' =
        tasksOf (s.destroyed ++ [(w, task)]) w' ++
          (Function.update s.worker w .loopTest w').task?.toList
      by_cases hw : w' = w
      · subst hw
        rw [tasksOf_append_self, hi.worker w', hsome, Function.update_self]
        simp [PoolWorkerPc.task?]
      · rw [tasksOf_append_of_ne _ hw, hi.worker w', Function.update_of_ne hw]
    · have hsum := threadSum_update s.worker w .loopTest PoolWorkerPc.uncounted
      have hold := hi.completed
      have hzero : (s.worker w).uncounted = 0 := by rw [hpc]; rfl
      have hzero' : (PoolWorkerPc.loopTest : PoolWorkerPc ν).uncounted = 0 := rfl
      change s.tasksCompleted + ∑ w', (Function.update s.worker w .loopTest w').uncounted =
        s.popped.length
      omega
  | popWaits hpc hopen hqueue hcall hreturned => exact hi.of_same rfl rfl rfl rfl hreturned
  | pushWaits hpc hqueue hcall hreturned | spurious hqueue hcall hreturned =>
    exact hi.of_same rfl rfl rfl rfl hreturned
  | pushed hpc hfree hqueue hcall hreturned => exact hi.of_same rfl rfl rfl rfl hreturned
  | submitRejected | submit | callShutdown | callDestroy | shutdownQueue | destroyQueue | joined
  | joinedAll | destroyTask | destroyedAll => exact hi.of_same rfl rfl rfl rfl rfl

/-- The account is right in every state. -/
theorem reachable_account (h : (threadPool m σ ν queueSize).ReachableUnder ThreadPool.Fresh s) :
    s.Account := by
  refine h.invariant ?_ fun s a s' hr hi _ hs => (poolStep_spec (reachable_calls hr) hs).account hi
  rintro _ ⟨next, rfl⟩
  exact ⟨rfl, fun _ => rfl, by simp [PoolWorkerPc.uncounted]⟩

end lifecycle

end DeepInIo
