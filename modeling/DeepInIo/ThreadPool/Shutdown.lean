import DeepInIo.ThreadPool.Lifecycle

/-!
# The shutdown of the thread pool

`thread_pool_shutdown` and `thread_pool_destroy` set the flag of the pool and then shut the queue
down.  From then on no worker waits any more: each finishes at most the one task that it has or is
about to pop, and exits; what remains in the queue is destroyed when all workers have been joined.
-/

namespace DeepInIo

open ThreadPool

section shutdown

variable {m : ℕ} {σ ν : Type*} [DecidableEq σ] [DecidableEq ν] {s s' : ThreadPool m σ ν}
  {queueSize : ℤ}

omit [DecidableEq σ] [DecidableEq ν] in
/-- How far the shutdown has got. -/
structure ThreadPool.Ending (s : ThreadPool m σ ν) : Prop where
  flag : s.shutdown = true → s.taskQueue.queue.shutdown = true ∨ s.main = .shutdownQueue ∨
    s.main = .destroyQueue
  closing : s.main = .shutdownQueue ∨ s.main = .destroyQueue → s.shutdown = true
  closed : s.taskQueue.queue.shutdown = true → s.shutdown = true
  exited : ∀ w, s.worker w = .exited → s.shutdown = true
  joining : ∀ i, s.main = .join i → s.taskQueue.queue.shutdown = true ∧
    ∀ w : Fin m, w.val < i → s.worker w = .exited
  taken : s.queueTaken = true → s.taskQueue.queue.shutdown = true ∧ ∀ w, s.worker w = .exited
  untouched : s.queueTaken = false → s.queueDestroyed = []
  rest : ∀ p, s.main = .destroyTasks p → ∃ l, LinkedChain s.taskQueue.queue.next p l ∧
    s.taskQueue.queue.nodes = s.queueDestroyed ++ l
  done : s.main = .done → s.queueDestroyed = s.taskQueue.queue.nodes

omit [DecidableEq σ] [DecidableEq ν] in
/-- A step that does not concern the ending: a worker exits only when the flag is set, and the tasks
in the queue stay when the queue is being destroyed. -/
theorem ThreadPool.Ending.of_same (hi : s.Ending) (hmain : s'.main = s.main)
    (hflag : s'.shutdown = s.shutdown) (hdestroyed : s'.queueDestroyed = s.queueDestroyed)
    (hclosed : s'.taskQueue.queue.shutdown = s.taskQueue.queue.shutdown)
    (hqueue : s.queueTaken = true → s'.taskQueue.queue = s.taskQueue.queue)
    (hkept : ∀ w, s.worker w = .exited → s'.worker w = .exited)
    (hexited : ∀ w, s'.worker w = .exited → s.shutdown = true) : s'.Ending := by
  have htaken : s'.queueTaken = s.queueTaken := by
    rw [queueTaken, queueTaken, hmain]
  refine ⟨?_, ?_, ?_, fun w hw => hflag.trans (hexited w hw), fun i h => ?_, fun h => ?_,
    fun h => ?_, fun p h => ?_, fun h => ?_⟩
  · rw [hflag, hclosed, hmain]
    exact hi.flag
  · rw [hflag, hmain]
    exact hi.closing
  · rw [hflag, hclosed]
    exact hi.closed
  · rw [hmain] at h
    obtain ⟨hshut, hjoined⟩ := hi.joining i h
    exact ⟨hclosed.trans hshut, fun w hw => hkept w (hjoined w hw)⟩
  · rw [htaken] at h
    obtain ⟨hshut, hall⟩ := hi.taken h
    exact ⟨hclosed.trans hshut, fun w => hkept w (hall w)⟩
  · rw [htaken] at h
    rw [hdestroyed]
    exact hi.untouched h
  · rw [hmain] at h
    rw [hdestroyed, hqueue (by rw [queueTaken, h])]
    exact hi.rest p h
  · rw [hmain] at h
    rw [hdestroyed, hqueue (by rw [queueTaken, h])]
    exact hi.done h

omit [DecidableEq σ] [DecidableEq ν] in
/-- A worker that proceeds was not one of those that have exited. -/
theorem exited_update {w : Fin m} (pc : PoolWorkerPc ν) (hpc : s.worker w ≠ .exited) (w' : Fin m)
    (h : s.worker w' = .exited) : Function.update s.worker w pc w' = .exited := by
  have hw : w' ≠ w := by
    rintro rfl
    exact hpc h
  rwa [Function.update_of_ne hw]

omit [DecidableEq σ] [DecidableEq ν] in
/-- When a worker proceeds and does not exit, those that have exited had done so before. -/
theorem exited_of_update {w w' : Fin m} {pc : PoolWorkerPc ν}
    (h : Function.update s.worker w pc w' = .exited) (hpc : pc ≠ .exited) :
    s.worker w' = .exited := by
  by_cases hw : w' = w
  · subst hw
    rw [Function.update_self] at h
    exact absurd h hpc
  · rwa [Function.update_of_ne hw] at h

/-- A step keeps the order of the shutdown. -/
theorem PoolStep.ending (h : PoolStep s s') (hi : s.Ending) (hshaped : s.taskQueue.queue.Shaped) :
    s'.Ending := by
  cases h with
  | loopExit hpc hflag | nullExit hpc hflag =>
    exact hi.of_same rfl rfl rfl rfl (fun _ => rfl)
      (exited_update _ (by rw [hpc]; exact nofun)) fun _ _ => hflag
  | loopPop hpc | nullLoop hpc | process hpc | stats hpc | destroy hpc =>
    exact hi.of_same rfl rfl rfl rfl (fun _ => rfl)
      (exited_update _ (by rw [hpc]; exact nofun)) fun w hw =>
        hi.exited w (exited_of_update hw nofun)
  | popWaits hpc hopen hqueue =>
    exact hi.of_same rfl rfl rfl (congrArg TaskQueue.shutdown hqueue) (fun _ => hqueue)
      (fun _ h => h) hi.exited
  | popNull hpc hqueue =>
    exact hi.of_same rfl rfl rfl (congrArg TaskQueue.shutdown hqueue) (fun _ => hqueue)
      (exited_update _ (by rw [hpc]; exact nofun)) fun w hw =>
        hi.exited w (exited_of_update hw nofun)
  | popped hpc hfree hqueue =>
    have hclosed := congrArg TaskQueue.shutdown hqueue
    refine hi.of_same rfl rfl rfl hclosed (fun htaken => ?_)
      (exited_update _ (by rw [hpc]; exact nofun)) fun w hw =>
        hi.exited w (exited_of_update hw nofun)
    rw [hfree] at htaken
    cases htaken
  | submitRejected => exact hi
  | submit => exact hi.of_same rfl rfl rfl rfl (fun _ => rfl) (fun _ h => h) hi.exited
  | pushWaits hpc hqueue | spurious hqueue =>
    exact hi.of_same rfl rfl rfl (congrArg TaskQueue.shutdown hqueue) (fun _ => hqueue)
      (fun _ h => h) hi.exited
  | @pushed x task q hpc hfree hqueue =>
    have hclosed : q.queue.shutdown = s.taskQueue.queue.shutdown := by
      rcases hqueue with hqueue | hqueue
      · rw [hqueue]
      · rw [hqueue, TaskQueue.enqueue_shutdown]
    refine hi.of_same rfl rfl rfl hclosed (fun htaken => ?_) (fun _ h => h) hi.exited
    rw [hfree] at htaken
    cases htaken
  | callShutdown hmain =>
    have hnil := hi.untouched (by rw [queueTaken, hmain])
    exact ⟨fun _ => .inr (.inl rfl), fun _ => rfl, fun _ => rfl, fun _ _ => rfl, nofun, nofun,
      fun _ => hnil, nofun, nofun⟩
  | callDestroy hmain =>
    have hnil := hi.untouched (by rw [queueTaken, hmain])
    exact ⟨fun _ => .inr (.inr rfl), fun _ => rfl, fun _ => rfl, fun _ _ => rfl, nofun, nofun,
      fun _ => hnil, nofun, nofun⟩
  | shutdownQueue hmain =>
    have hnil := hi.untouched (by rw [queueTaken, hmain])
    exact ⟨fun _ => .inl rfl, nofun, fun _ => hi.closing (.inl hmain), hi.exited, nofun, nofun,
      fun _ => hnil, nofun, nofun⟩
  | destroyQueue hmain =>
    have hnil := hi.untouched (by rw [queueTaken, hmain])
    refine ⟨fun _ => .inl rfl, nofun, fun _ => hi.closing (.inr hmain), hi.exited,
      fun i hjoin => ?_, nofun, fun _ => hnil, nofun, nofun⟩
    cases hjoin
    exact ⟨rfl, nofun⟩
  | @joined i hmain hlt hexited =>
    have hnil := hi.untouched (by rw [queueTaken, hmain])
    obtain ⟨hshut, hjoined⟩ := hi.joining i hmain
    refine ⟨fun _ => .inl hshut, nofun, hi.closed, hi.exited, fun i' hjoin => ?_, nofun,
      fun _ => hnil, nofun, nofun⟩
    cases hjoin
    refine ⟨hshut, fun w hw => ?_⟩
    rcases Nat.lt_succ_iff_lt_or_eq.mp hw with hw | hw
    · exact hjoined w hw
    · obtain rfl : w = ⟨i, hlt⟩ := Fin.ext hw
      exact hexited
  | @joinedAll i hmain hle =>
    have hnil := hi.untouched (by rw [queueTaken, hmain])
    obtain ⟨hshut, hjoined⟩ := hi.joining i hmain
    refine ⟨fun _ => .inl hshut, nofun, hi.closed, hi.exited, nofun,
      fun _ => ⟨hshut, fun w => hjoined w (lt_of_lt_of_le w.isLt hle)⟩, nofun,
      fun p hp => ?_, nofun⟩
    cases hp
    refine ⟨s.taskQueue.queue.nodes, hshaped.chain, ?_⟩
    change _ = s.queueDestroyed ++ _
    rw [hnil, List.nil_append]
  | @destroyTask current hmain =>
    obtain ⟨hshut, hall⟩ := hi.taken (by rw [queueTaken, hmain])
    refine ⟨fun _ => .inl hshut, nofun, hi.closed, hi.exited, nofun, fun _ => ⟨hshut, hall⟩, nofun,
      fun p hp => ?_, nofun⟩
    cases hp
    obtain ⟨l, hchain, hnodes⟩ := hi.rest _ hmain
    cases hchain with
    | @cons _ l hchain =>
      refine ⟨l, hchain, ?_⟩
      change _ = s.queueDestroyed ++ [current] ++ l
      rw [hnodes, List.append_assoc, List.singleton_append]
  | destroyedAll hmain =>
    obtain ⟨hshut, hall⟩ := hi.taken (by rw [queueTaken, hmain])
    refine ⟨fun _ => .inl hshut, nofun, hi.closed, hi.exited, nofun, fun _ => ⟨hshut, hall⟩,
      nofun, nofun, fun _ => ?_⟩
    obtain ⟨l, hchain, hnodes⟩ := hi.rest _ hmain
    cases hchain
    rw [hnodes, List.append_nil]

/-- The shutdown is in order in every state. -/
theorem reachable_ending (h : (threadPool m σ ν queueSize).ReachableUnder ThreadPool.Fresh s) :
    s.Ending := by
  refine h.invariant ?_ ?_
  · rintro _ ⟨next, rfl⟩
    exact ⟨nofun, nofun, nofun, nofun, nofun, nofun, fun _ => rfl, nofun, nofun⟩
  · intro s a s' hr hi _ hs
    have hstep : PoolStep s s' := poolStep_spec (reachable_calls hr) hs
    exact hstep.ending hi (reachable_linked (reachable_taskQueue hr)).shaped

/-! ### The last steps of a worker -/

/-- The step is one of the worker `w`. -/
def PoolAction.isWorker {m : ℕ} {σ ν : Type*} (w : Fin m) : PoolAction m σ ν → Bool
  | .worker w' _ => decide (w' = w)
  | _ => false

/-- The flags stay set. -/
theorem PoolStep.flags (h : PoolStep s s') :
    (s.shutdown = true → s'.shutdown = true) ∧
      (s.taskQueue.queue.shutdown = true → s'.taskQueue.queue.shutdown = true) := by
  cases h with
  | popWaits hpc hopen hqueue | popNull hpc hqueue | popped hpc hfree hqueue | pushWaits hpc hqueue
  | spurious hqueue =>
    have hsame := congrArg TaskQueue.shutdown hqueue
    exact ⟨id, fun hclosed => hsame.trans hclosed⟩
  | @pushed x task q hpc hfree hqueue =>
    refine ⟨id, fun hclosed => ?_⟩
    change q.queue.shutdown = true
    rcases hqueue with hqueue | hqueue
    · rw [hqueue]
      exact hclosed
    · rw [hqueue, TaskQueue.enqueue_shutdown]
      exact hclosed
  | callShutdown | callDestroy => exact ⟨fun _ => rfl, id⟩
  | shutdownQueue | destroyQueue => exact ⟨id, fun _ => rfl⟩
  | _ => exact ⟨id, id⟩

omit [DecidableEq σ] [DecidableEq ν] in
/-- What a worker can still destroy, before and after it proceeds. -/
theorem remaining_update {l l' : List (Fin m × ν)} {w : Fin m} {pc : PoolWorkerPc ν}
    (hother : ∀ w', w' ≠ w → tasksOf l' w' = tasksOf l w')
    (hown : (tasksOf l' w).length + pc.remaining ≤ (tasksOf l w).length + (s.worker w).remaining)
    (w' : Fin m) : (tasksOf l' w').length + (Function.update s.worker w pc w').remaining ≤
      (tasksOf l w').length + (s.worker w').remaining := by
  by_cases hw : w' = w
  · subst hw
    rw [Function.update_self]
    exact hown
  · rw [hother w' hw, Function.update_of_ne hw]

/-- Once the flag is set, a task that is destroyed is one that the worker had or could still get. -/
theorem PoolStep.remaining (h : PoolStep s s') (hflag : s.shutdown = true) (w : Fin m) :
    (tasksOf s'.destroyed w).length + (s'.worker w).remaining ≤
      (tasksOf s.destroyed w).length + (s.worker w).remaining := by
  have hno : ∀ {p : Prop}, s.shutdown = false → p := by
    intro p hopen
    rw [hflag] at hopen
    cases hopen
  cases h with
  | loopPop hpc hopen | nullLoop hpc hopen => exact hno hopen
  | loopExit hpc | nullExit hpc | popped hpc | process hpc | stats hpc =>
    exact remaining_update (fun _ _ => rfl) (by rw [hpc]; exact le_rfl) w
  | popNull hpc =>
    exact remaining_update (fun _ _ => rfl)
      (by rw [hpc]; exact Nat.add_le_add_left (Nat.zero_le _) _) w
  | @destroy w₀ task hpc =>
    refine remaining_update (fun w' hw => tasksOf_append_of_ne _ hw task) ?_ w
    rw [tasksOf_append_self, hpc, List.length_append]
    exact le_rfl
  | _ => exact le_rfl

/-- Once the queue is shut down, the rank of no worker rises. -/
theorem PoolStep.rank_le (h : PoolStep s s') (hflag : s.shutdown = true) (w : Fin m) :
    (s'.worker w).rank ≤ (s.worker w).rank := by
  have hno : ∀ {p : Prop}, s.shutdown = false → p := by
    intro p hopen
    rw [hflag] at hopen
    cases hopen
  have hupdate : ∀ {w₀ : Fin m} {pc : PoolWorkerPc ν}, pc.rank ≤ (s.worker w₀).rank →
      (Function.update s.worker w₀ pc w).rank ≤ (s.worker w).rank := by
    intro w₀ pc hle
    by_cases hw : w = w₀
    · subst hw
      rw [Function.update_self]
      exact hle
    · rw [Function.update_of_ne hw]
  cases h with
  | loopPop hpc hopen | nullLoop hpc hopen => exact hno hopen
  | loopExit hpc | nullExit hpc | popNull hpc | popped hpc | process hpc | stats hpc
  | destroy hpc =>
    refine hupdate ?_
    rw [hpc]
    exact Nat.le_of_ble_eq_true rfl
  | _ => exact le_rfl

/-- Once the queue is shut down, every step of a worker lowers its rank. -/
theorem rank_lt_of_step {w : Fin m} {woken : Finset (Fin m ⊕ σ)} (hflag : s.shutdown = true)
    (hclosed : s.taskQueue.queue.shutdown = true) (h : s.workerStep w woken = some s') :
    (s'.worker w).rank < (s.worker w).rank := by
  cases hpc : s.worker w <;> simp only [workerStep, hpc, hflag, if_true] at h
  case pop =>
    split at h
    · cases h
    · obtain ⟨q, hq, rfl⟩ := Option.map_eq_some_iff.mp h
      cases popAction_outcome hq with
      | waits hlast hopen =>
        rw [hclosed] at hopen
        cases hopen
      | null hlast =>
        simp [afterPop, hlast, PoolWorkerPc.rank]
      | popped task hlast =>
        simp only [afterPop, hlast, Function.update_self]
        exact Nat.lt_succ_self _
  case exited => cases h
  all_goals
    cases h
    simp [PoolWorkerPc.rank]

/-- Once the queue is shut down, no worker is blocked before it has exited. -/
theorem step_of_not_exited (h : (threadPool m σ ν queueSize).ReachableUnder ThreadPool.Fresh s)
    (hclosed : s.taskQueue.queue.shutdown = true) {w : Fin m} (hpc : s.worker w ≠ .exited) :
    ∃ woken s', s.step (.worker w woken) = some s' := by
  have hsection : ∀ {s₁ : Monitor (Fin m ⊕ σ) ν} (th : Fin m ⊕ σ), s₁.queue.shutdown = true →
      s₁.notFull.waiting = ∅ → ∃ q, s₁.popSection th ∅ = some q := by
    intro s₁ th hshut hempty
    rw [Monitor.popSection, TaskQueue.popWaits, hshut]
    simp only [Bool.not_true, Bool.and_false, Bool.false_eq_true, if_false, Bool.true_and]
    split
    · exact ⟨_, rfl⟩
    · split
      · exact ⟨_, rfl⟩
      · refine ⟨_, if_pos ⟨Finset.empty_subset _, ?_⟩⟩
        rw [hempty]
        exact fun h => absurd h Finset.not_nonempty_empty
  cases hw : s.worker w with
  | exited => exact absurd hw hpc
  | pop =>
    have htaken : s.queueTaken = false := by
      rw [← Bool.not_eq_true]
      exact fun htaken => hpc ((reachable_ending h).taken htaken |>.2 w)
    obtain ⟨hplaced, hawake⟩ := reachable_awake (reachable_taskQueue h)
    obtain ⟨hempty, hfull⟩ := hawake.closed hclosed
    refine ⟨∅, ?_⟩
    simp only [ThreadPool.step, workerStep, hw, htaken, popAction, Bool.false_eq_true, if_false]
    rcases (reachable_calls h).worker w with hcall | ⟨hcall, -⟩
    · obtain ⟨q, hq⟩ := hsection (.inl w) hclosed hfull
      refine ⟨s.afterPop w q, ?_⟩
      rw [hcall]
      simp only [Monitor.step, hcall, hq, Option.map_some]
    · have hmem : (.inl w : Fin m ⊕ σ) ∈ s.taskQueue.notEmpty.signalled := by
        have hin := (hplaced.notEmpty (.inl w)).mpr hcall
        rw [Condition.members, hempty, Finset.empty_union] at hin
        exact hin
      obtain ⟨q, hq⟩ := @hsection (s.taskQueue.resumePop (.inl w)) (.inl w) hclosed hfull
      refine ⟨s.afterPop w q, ?_⟩
      rw [hcall]
      simp only [Monitor.step, hcall, if_pos hmem, hq, Option.map_some]
  | loopTest | nullTest | process | stats | destroy =>
    refine ⟨∅, ?_⟩
    simp only [ThreadPool.step, workerStep, hw]
    exact ⟨_, rfl⟩

/-! ### What `thread_pool_submit` returns -/

omit [DecidableEq σ] [DecidableEq ν] in
/-- The section of a submitter is one for its own task. -/
theorem pushed?_pushAction (hc : s.Calls) {x : σ} {task : ν} (hpc : s.submitter x = .push task)
    (woken : Finset (Fin m ⊕ σ)) : s.taskQueue.pushed? (s.pushAction x task woken) = some task := by
  rcases hc.submitter x with hout | ⟨task', hcall, hpush⟩
  · rw [pushAction, hout]
    rfl
  · rw [hpc] at hpush
    cases hpush
    rw [pushAction, hcall]
    simp only [Monitor.pushed?, hcall]

/-- `thread_pool_submit` returns 0 exactly when its task is accepted. -/
theorem pushStep_result (hc : s.Calls) {x : σ} {woken : Finset (Fin m ⊕ σ)}
    (h : s.pushStep x woken = some s') :
    ∃ task, s.submitter x = .push task ∧
      (s'.taskQueue.last = some (.pushed 0) ∧ s'.submitter x = .idle ∧
          s'.taskQueue.accepted = s.taskQueue.accepted ++ [task] ∨
        s'.taskQueue.last ≠ some (.pushed 0) ∧ s'.taskQueue.accepted = s.taskQueue.accepted) := by
  rw [pushStep] at h
  split at h
  · cases h
  · next task hpc =>
    split at h
    · cases h
    · obtain ⟨q, hq, rfl⟩ := Option.map_eq_some_iff.mp h
      rw [afterPush_taskQueue]
      refine ⟨task, hpc, (monitorStep_spec hq).accepts.imp (fun haccepts => ?_) id⟩
      obtain ⟨task', htask', hlast, haccepted⟩ := haccepts
      rw [pushed?_pushAction hc hpc] at htask'
      cases htask'
      refine ⟨hlast, ?_, haccepted⟩
      rw [afterPush, hlast]
      exact Function.update_self ..

/-! ### Whole runs -/

/-- A run from a state in which the flag is set: each worker destroys at most what it had or could
still get. -/
theorem remaining_exec (hc : s.Calls) (hflag : s.shutdown = true) {as : List (PoolAction m σ ν)}
    (he : (threadPool m σ ν queueSize).exec s as = some s') (w : Fin m) :
    (tasksOf s'.destroyed w).length + (s'.worker w).remaining ≤
      (tasksOf s.destroyed w).length + (s.worker w).remaining := by
  induction as generalizing s with
  | nil =>
    cases he
    exact le_rfl
  | cons a as ih =>
    obtain ⟨s₁, hs₁, he⟩ := Option.bind_eq_some_iff.mp he
    have hstep : PoolStep s s₁ := poolStep_spec hc hs₁
    exact le_trans (ih (hstep.calls hc) (hstep.flags.1 hflag) he) (hstep.remaining hflag w)

/-- A run from a state in which the queue is shut down: the own steps of a worker are paid by its
rank. -/
theorem rank_exec (hc : s.Calls) (hflag : s.shutdown = true)
    (hclosed : s.taskQueue.queue.shutdown = true) {as : List (PoolAction m σ ν)}
    (he : (threadPool m σ ν queueSize).exec s as = some s') (w : Fin m) :
    (s'.worker w).rank + as.countP (PoolAction.isWorker w) ≤ (s.worker w).rank := by
  induction as generalizing s with
  | nil =>
    cases he
    exact le_rfl
  | cons a as ih =>
    obtain ⟨s₁, hs₁, he⟩ := Option.bind_eq_some_iff.mp he
    have hstep : PoolStep s s₁ := poolStep_spec hc hs₁
    have hrest := ih (hstep.calls hc) (hstep.flags.1 hflag) (hstep.flags.2 hclosed) he
    rw [List.countP_cons]
    split
    · next hown =>
      cases a with
      | worker w' woken =>
        obtain rfl : w' = w := of_decide_eq_true hown
        have hlt := rank_lt_of_step hflag hclosed hs₁
        omega
      | submit | push | spurious | shutdown | destroy | main => cases hown
    · have hle := hstep.rank_le hflag w
      omega

omit [DecidableEq ν] in
/-- A worker that has exited has no task in hand. -/
theorem task?_of_exited {pc : PoolWorkerPc ν} (h : pc = .exited) :
    pc.task? = none ∧ pc.uncounted = 0 := by
  subst h
  exact ⟨rfl, rfl⟩

omit [DecidableEq σ] [DecidableEq ν] in
/-- When all workers have exited, every popped task has been counted. -/
theorem ThreadPool.Account.completed_of_exited (hi : s.Account) (hall : ∀ w, s.worker w = .exited) :
    s.tasksCompleted = s.popped.length := by
  have hsum : ∑ w, (s.worker w).uncounted = 0 :=
    Finset.sum_eq_zero fun w _ => (task?_of_exited (hall w)).2
  have hcompleted := hi.completed
  omega

/-- In every run of any number of workers and submitters, and wherever `thread_pool_shutdown` and
`thread_pool_destroy` are called.  `thread_pool_submit` returns 0 exactly when its task is accepted,
and a task that was accepted has been popped or is in the queue.  Each worker passes the tasks that
it pops to `task_destroy`, each once; the tasks that are left are destroyed with the queue, each
once, when all workers have exited; so that in the end all have been destroyed.  When all workers
have exited, `tasks_completed` is the number of popped tasks.  Once the flag is set, the queue is
shut down by the next step of the thread that set it, and each worker destroys at most one more
task; once the queue is shut down, no worker is blocked, and each exits within as many of its own
steps as its rank says, which are at most five. -/
theorem tasks_destroyed_once (h : (threadPool m σ ν queueSize).ReachableUnder ThreadPool.Fresh s) :
    (∀ x woken s', s.step (.push x woken) = some s' → ∃ task, s.submitter x = .push task ∧
      (s'.taskQueue.last = some (.pushed 0) ∧ s'.submitter x = .idle ∧
          s'.taskQueue.accepted = s.taskQueue.accepted ++ [task] ∨
        s'.taskQueue.last ≠ some (.pushed 0) ∧ s'.taskQueue.accepted = s.taskQueue.accepted)) ∧
    s.taskQueue.accepted = s.popped.map Prod.snd ++ s.taskQueue.queue.nodes ∧
    (∀ w, tasksOf s.popped w = tasksOf s.destroyed w ++ (s.worker w).task?.toList) ∧
    s.queueDestroyed <+: s.taskQueue.queue.nodes ∧
    (s.queueDestroyed ≠ [] → ∀ w, s.worker w = .exited) ∧
    (s.main = .done → s.taskQueue.accepted = s.popped.map Prod.snd ++ s.queueDestroyed ∧
      ∀ w, tasksOf s.popped w = tasksOf s.destroyed w) ∧
    ((∀ w, s.worker w = .exited) → s.tasksCompleted = s.popped.length) ∧
    (s.shutdown = true →
      (s.taskQueue.queue.shutdown = true ∨
        ∃ s', s.step .main = some s' ∧ s'.taskQueue.queue.shutdown = true) ∧
      ∀ w as s', (threadPool m σ ν queueSize).exec s as = some s' →
        (tasksOf s'.destroyed w).length ≤ (tasksOf s.destroyed w).length + 1) ∧
    (s.taskQueue.queue.shutdown = true → ∀ w,
      (s.worker w ≠ .exited → ∃ woken s', s.step (.worker w woken) = some s') ∧
      ∀ as s', (threadPool m σ ν queueSize).exec s as = some s' →
        (s.worker w).rank ≤ as.countP (PoolAction.isWorker w) → s'.worker w = .exited) := by
  have hi := reachable_account h
  have he := reachable_ending h
  have hc := reachable_calls h
  have haccepted : s.taskQueue.accepted = s.popped.map Prod.snd ++ s.taskQueue.queue.nodes := by
    rw [hi.returned]
    exact (reachable_fifo (reachable_taskQueue h)).account
  refine ⟨fun x woken s' hs => pushStep_result hc hs, haccepted, hi.worker, ?_, fun hne => ?_,
    fun hdone => ?_, hi.completed_of_exited, fun hflag => ⟨?_, fun w as s' hrun => ?_⟩,
    fun hclosed w => ⟨step_of_not_exited h hclosed, fun as s' hrun hle => ?_⟩⟩
  · cases hmain : s.main with
    | destroyTasks p =>
      obtain ⟨l, -, hnodes⟩ := he.rest p hmain
      exact ⟨l, hnodes.symm⟩
    | done =>
      rw [he.done hmain]
    | running | shutdownQueue | destroyQueue | join =>
      rw [he.untouched (by rw [queueTaken, hmain])]
      exact List.nil_prefix
  · refine (he.taken ?_).2
    by_contra htaken
    exact hne (he.untouched (Bool.eq_false_iff.mpr htaken))
  · obtain ⟨-, hall⟩ := he.taken (by rw [queueTaken, hdone])
    refine ⟨by rw [he.done hdone]; exact haccepted, fun w => ?_⟩
    rw [hi.worker w, (task?_of_exited (hall w)).1]
    exact List.append_nil _
  · rcases he.flag hflag with hclosed | hmain | hmain
    · exact .inl hclosed
    · exact .inr ⟨_, by simp only [ThreadPool.step, ThreadPool.mainStep, hmain]; rfl, rfl⟩
    · exact .inr ⟨_, by simp only [ThreadPool.step, ThreadPool.mainStep, hmain]; rfl, rfl⟩
  · have hbound := remaining_exec hc hflag hrun w
    have hone : (s.worker w).remaining ≤ 1 := by
      cases s.worker w <;> simp [PoolWorkerPc.remaining]
    omega
  · have hrank := rank_exec hc (he.closed hclosed) hclosed hrun w
    have hzero : (s'.worker w).rank = 0 := by omega
    cases hw : s'.worker w <;> simp_all [PoolWorkerPc.rank]

/-- Two tasks are accepted; the worker pops one, and the other one is destroyed with the queue. -/
theorem tasks_destroyed_once_left :
    ∃ s : ThreadPool 1 ℕ ℕ, s.main = .done ∧ s.popped = [(0, 7)] ∧ s.queueDestroyed = [8] ∧
      s.taskQueue.accepted = s.popped.map Prod.snd ++ s.queueDestroyed ∧
      ∀ w, tasksOf s.popped w = tasksOf s.destroyed w := by
  obtain ⟨s, hs, hp⟩ := (threadPool 1 ℕ ℕ 4).exists_of_execUnder ThreadPool.Fresh
    [.worker 0 ∅, .worker 0 ∅, .submit 0 7, .push 0 {.inl 0}, .submit 0 8, .push 0 ∅, .worker 0 ∅,
      .destroy, .worker 0 ∅, .main, .worker 0 ∅, .worker 0 ∅, .worker 0 ∅, .main, .main,
      .main, .main]
    (fun s => decide (s.main = .done ∧ s.popped = [(0, 7)] ∧ s.queueDestroyed = [8]))
    ⟨fun _ => none, rfl⟩ (by decide +kernel)
  obtain ⟨hdone, hpopped, hleft⟩ := of_decide_eq_true hp
  obtain ⟨-, -, -, -, -, hend, -⟩ := tasks_destroyed_once hs
  exact ⟨s, hdone, hpopped, hleft, hend hdone⟩

end shutdown

end DeepInIo
