import DeepInIo.ThreadPool.Pool

/-!
# What a step of the thread pool can do

`PoolStep` lists the steps with what they mean for the queue; `poolStep_spec` is the only place
where the step functions are taken apart.  It needs to know where the threads stand in their calls
(`ThreadPool.Calls`).
-/

namespace DeepInIo

open ThreadPool

section steps

variable {m : ℕ} {σ ν : Type*} [DecidableEq σ] [DecidableEq ν] {s s' : ThreadPool m σ ν}

omit [DecidableEq σ] [DecidableEq ν] in
/-- A thread that waits at the queue is at the call that waits there. -/
structure ThreadPool.Calls (s : ThreadPool m σ ν) : Prop where
  worker : ∀ w, s.taskQueue.call (.inl w) = .out ∨
    s.taskQueue.call (.inl w) = .pop ∧ s.worker w = .pop
  submitter : ∀ x, s.taskQueue.call (.inr x) = .out ∨
    ∃ task, s.taskQueue.call (.inr x) = .push task ∧ s.submitter x = .push task

/-- What a step of the pool can do. -/
inductive PoolStep (s : ThreadPool m σ ν) : ThreadPool m σ ν → Prop
  | loopExit {w : Fin m} (hpc : s.worker w = .loopTest) (hflag : s.shutdown = true) :
      PoolStep s (s.setWorker w .exited)
  | loopPop {w : Fin m} (hpc : s.worker w = .loopTest) (hflag : s.shutdown = false) :
      PoolStep s (s.setWorker w .pop)
  | popWaits {w : Fin m} {q : Monitor (Fin m ⊕ σ) ν} (hpc : s.worker w = .pop)
      (hopen : s.taskQueue.queue.shutdown = false) (hqueue : q.queue = s.taskQueue.queue)
      (hcall : q.call = Function.update s.taskQueue.call (.inl w) .pop)
      (hreturned : q.returned = s.taskQueue.returned) : PoolStep s { s with taskQueue := q }
  | popNull {w : Fin m} {q : Monitor (Fin m ⊕ σ) ν} (hpc : s.worker w = .pop)
      (hqueue : q.queue = s.taskQueue.queue)
      (hcall : q.call = Function.update s.taskQueue.call (.inl w) .out)
      (hreturned : q.returned = s.taskQueue.returned) :
      PoolStep s { s with taskQueue := q, worker := Function.update s.worker w .nullTest }
  | popped {w : Fin m} {task : ν} {q : Monitor (Fin m ⊕ σ) ν} (hpc : s.worker w = .pop)
      (hfree : s.queueTaken = false) (hqueue : q.queue = s.taskQueue.queue.dequeue task)
      (hcall : q.call = Function.update s.taskQueue.call (.inl w) .out)
      (hreturned : q.returned = s.taskQueue.returned ++ [task]) :
      PoolStep s { s with
        taskQueue := q
        worker := Function.update s.worker w (.process task)
        popped := s.popped ++ [(w, task)] }
  | nullExit {w : Fin m} (hpc : s.worker w = .nullTest) (hflag : s.shutdown = true) :
      PoolStep s (s.setWorker w .exited)
  | nullLoop {w : Fin m} (hpc : s.worker w = .nullTest) (hflag : s.shutdown = false) :
      PoolStep s (s.setWorker w .loopTest)
  | process {w : Fin m} {task : ν} (hpc : s.worker w = .process task) :
      PoolStep s (s.setWorker w (.stats task))
  | stats {w : Fin m} {task : ν} (hpc : s.worker w = .stats task) :
      PoolStep s { s with
        tasksCompleted := s.tasksCompleted + 1
        worker := Function.update s.worker w (.destroy task) }
  | destroy {w : Fin m} {task : ν} (hpc : s.worker w = .destroy task) :
      PoolStep s { s with
        worker := Function.update s.worker w .loopTest
        destroyed := s.destroyed ++ [(w, task)] }
  | submitRejected (hflag : s.shutdown = true) : PoolStep s s
  | submit {x : σ} {task : ν} (hpc : s.submitter x = .idle) (hflag : s.shutdown = false) :
      PoolStep s { s with submitter := Function.update s.submitter x (.push task) }
  | pushWaits {x : σ} {task : ν} {q : Monitor (Fin m ⊕ σ) ν} (hpc : s.submitter x = .push task)
      (hqueue : q.queue = s.taskQueue.queue)
      (hcall : q.call = Function.update s.taskQueue.call (.inr x) (.push task))
      (hreturned : q.returned = s.taskQueue.returned) : PoolStep s { s with taskQueue := q }
  | pushed {x : σ} {task : ν} {q : Monitor (Fin m ⊕ σ) ν} (hpc : s.submitter x = .push task)
      (hfree : s.queueTaken = false)
      (hqueue : q.queue = s.taskQueue.queue ∨ q.queue = s.taskQueue.queue.enqueue task)
      (hcall : q.call = Function.update s.taskQueue.call (.inr x) .out)
      (hreturned : q.returned = s.taskQueue.returned) :
      PoolStep s { s with taskQueue := q, submitter := Function.update s.submitter x .idle }
  | spurious {q : Monitor (Fin m ⊕ σ) ν} (hqueue : q.queue = s.taskQueue.queue)
      (hcall : q.call = s.taskQueue.call) (hreturned : q.returned = s.taskQueue.returned) :
      PoolStep s { s with taskQueue := q }
  | callShutdown (hmain : s.main = .running) :
      PoolStep s { s with shutdown := true, main := .shutdownQueue }
  | callDestroy (hmain : s.main = .running) :
      PoolStep s { s with shutdown := true, main := .destroyQueue }
  | shutdownQueue (hmain : s.main = .shutdownQueue) :
      PoolStep s { s with taskQueue := s.taskQueue.taskQueueShutdown, main := .running }
  | destroyQueue (hmain : s.main = .destroyQueue) :
      PoolStep s { s with taskQueue := s.taskQueue.taskQueueShutdown, main := .join 0 }
  | joined {i : ℕ} (hmain : s.main = .join i) (hi : i < m) (hexited : s.worker ⟨i, hi⟩ = .exited) :
      PoolStep s { s with main := .join (i + 1) }
  | joinedAll {i : ℕ} (hmain : s.main = .join i) (hi : m ≤ i) :
      PoolStep s { s with main := .destroyTasks s.taskQueue.queue.head }
  | destroyTask {current : ν} (hmain : s.main = .destroyTasks (some current)) :
      PoolStep s { s with
        main := .destroyTasks (s.taskQueue.queue.next current)
        queueDestroyed := s.queueDestroyed ++ [current] }
  | destroyedAll (hmain : s.main = .destroyTasks none) : PoolStep s { s with main := .done }

/-- The critical section of a worker is one of `task_queue_pop`. -/
theorem popAction_outcome {w : Fin m} {woken : Finset (Fin m ⊕ σ)} {q : Monitor (Fin m ⊕ σ) ν}
    (h : s.taskQueue.step (s.popAction w woken) = some q) : PopOutcome s.taskQueue (.inl w) q := by
  unfold popAction at h
  split at h
  · exact (monitorStep_spec h).pop_outcome
  · exact (monitorStep_spec h).popAgain_outcome

/-- The critical section of a submitter is one of `task_queue_push`. -/
theorem pushAction_outcome {x : σ} {task : ν} {woken : Finset (Fin m ⊕ σ)}
    {q : Monitor (Fin m ⊕ σ) ν} (hc : s.Calls) (hpc : s.submitter x = .push task)
    (h : s.taskQueue.step (s.pushAction x task woken) = some q) :
    PushOutcome s.taskQueue (.inr x) task q := by
  unfold pushAction at h
  split at h
  · exact (monitorStep_spec h).push_outcome
  · next hout =>
    refine (monitorStep_spec h).pushAgain_outcome ?_
    rcases hc.submitter x with hcall | ⟨task', hcall, hpush⟩
    · exact absurd hcall hout
    · rw [hpc] at hpush
      cases hpush
      exact hcall

/-- A worker does only what `PoolStep` says. -/
theorem workerStep_poolStep {w : Fin m} {woken : Finset (Fin m ⊕ σ)}
    (h : s.workerStep w woken = some s') : PoolStep s s' := by
  cases hpc : s.worker w <;> simp only [workerStep, hpc] at h
  case loopTest =>
    cases h
    split
    · next hflag => exact .loopExit hpc hflag
    · next hflag => exact .loopPop hpc (Bool.eq_false_iff.mpr hflag)
  case pop =>
    split at h
    · cases h
    · next hfree =>
      obtain ⟨q, hq, rfl⟩ := Option.map_eq_some_iff.mp h
      cases popAction_outcome hq with
      | waits hlast hopen hqueue hcall hreturned =>
        rw [afterPop, hlast]
        exact .popWaits hpc hopen hqueue hcall hreturned
      | null hlast hqueue hcall hreturned =>
        rw [afterPop, hlast]
        exact .popNull hpc hqueue hcall hreturned
      | popped task hlast hqueue hcall hreturned =>
        rw [afterPop, hlast]
        exact .popped hpc (Bool.eq_false_iff.mpr hfree) hqueue hcall hreturned
  case nullTest =>
    cases h
    split
    · next hflag => exact .nullExit hpc hflag
    · next hflag => exact .nullLoop hpc (Bool.eq_false_iff.mpr hflag)
  case process task =>
    cases h
    exact .process hpc
  case stats task =>
    cases h
    exact .stats hpc
  case destroy task =>
    cases h
    exact .destroy hpc
  case exited => cases h

/-- A submitter does only what `PoolStep` says. -/
theorem pushStep_poolStep {x : σ} {woken : Finset (Fin m ⊕ σ)} (hc : s.Calls)
    (h : s.pushStep x woken = some s') : PoolStep s s' := by
  rw [pushStep] at h
  split at h
  · cases h
  · next task hpc =>
    split at h
    · cases h
    · next hfree =>
      obtain ⟨q, hq, rfl⟩ := Option.map_eq_some_iff.mp h
      cases pushAction_outcome hc hpc hq with
      | waits hlast hqueue hcall hreturned =>
        rw [afterPush, hlast]
        exact .pushWaits hpc hqueue hcall hreturned
      | rejected hlast hqueue hcall hreturned =>
        rw [afterPush, hlast]
        exact .pushed hpc (Bool.eq_false_iff.mpr hfree) (.inl hqueue) hcall hreturned
      | accepted hlast hqueue hcall hreturned =>
        rw [afterPush, hlast]
        exact .pushed hpc (Bool.eq_false_iff.mpr hfree) (.inr hqueue) hcall hreturned

/-- The thread that ends the pool does only what `PoolStep` says. -/
theorem mainStep_poolStep (h : s.mainStep = some s') : PoolStep s s' := by
  rw [ThreadPool.mainStep] at h
  split at h
  case h_1 => cases h
  case h_2 hmain =>
    cases h
    exact .shutdownQueue hmain
  case h_3 hmain =>
    cases h
    exact .destroyQueue hmain
  case h_4 i hmain =>
    split at h
    · next hi =>
      split at h
      · next hexited =>
        cases h
        exact .joined hmain hi hexited
      · cases h
    · next hi =>
      cases h
      exact .joinedAll hmain (not_lt.mp hi)
  case h_5 hmain =>
    cases h
    exact .destroyedAll hmain
  case h_6 current hmain =>
    cases h
    exact .destroyTask hmain
  case h_7 => cases h

/-- The pool does only what `PoolStep` says. -/
theorem poolStep_spec {a : PoolAction m σ ν} (hc : s.Calls) (h : s.step a = some s') :
    PoolStep s s' := by
  cases a with
  | worker w woken => exact workerStep_poolStep h
  | submit x task =>
    simp only [ThreadPool.step, submitStep] at h
    split at h
    · next hpc =>
      split at h
      · next hflag =>
        cases h
        exact .submitRejected hflag
      · next hflag =>
        cases h
        exact .submit hpc (Bool.eq_false_iff.mpr hflag)
    · cases h
  | push x woken => exact pushStep_poolStep hc h
  | spurious th =>
    obtain ⟨q, hq, rfl⟩ := Option.map_eq_some_iff.mp h
    obtain ⟨hqueue, hcall, hreturned⟩ := (monitorStep_spec hq).spurious_frame
    exact .spurious hqueue hcall hreturned
  | shutdown =>
    simp only [ThreadPool.step] at h
    split at h
    · next hmain =>
      cases h
      exact .callShutdown hmain
    · cases h
  | destroy =>
    simp only [ThreadPool.step] at h
    split at h
    · next hmain =>
      cases h
      exact .callDestroy hmain
    · cases h
  | main => exact mainStep_poolStep h

/-! ### Where the threads stand in their calls -/

omit [DecidableEq σ] [DecidableEq ν] in
/-- A worker that is not in `task_queue_pop` does not wait at the queue. -/
theorem ThreadPool.Calls.out (hc : s.Calls) {w : Fin m} (hpc : s.worker w ≠ .pop) :
    s.taskQueue.call (.inl w) = .out :=
  (hc.worker w).resolve_right fun h => hpc h.2

omit [DecidableEq σ] [DecidableEq ν] in
/-- The calls stay right when a worker proceeds that is out of the queue. -/
theorem ThreadPool.Calls.setWorker (hc : s.Calls) {w : Fin m} (pc : PoolWorkerPc ν)
    (hout : s.taskQueue.call (.inl w) = .out) (hcall : s'.taskQueue.call = s.taskQueue.call)
    (hworker : s'.worker = Function.update s.worker w pc)
    (hsubmitter : s'.submitter = s.submitter) :
    s'.Calls where
  worker w' := by
    rw [hcall, hworker]
    by_cases hw : w' = w
    · exact .inl (hw ▸ hout)
    · rw [Function.update_of_ne hw]
      exact hc.worker w'
  submitter x := by
    rw [hcall, hsubmitter]
    exact hc.submitter x

omit [DecidableEq ν] in
/-- The calls stay right after a critical section of a worker. -/
theorem ThreadPool.Calls.pop (hc : s.Calls) {w : Fin m} {c : CallState ν}
    (hcall : s'.taskQueue.call = Function.update s.taskQueue.call (.inl w) c)
    (hsubmitter : s'.submitter = s.submitter) (hown : c = .out ∨ c = .pop ∧ s'.worker w = .pop)
    (hother : ∀ w', w' ≠ w → s'.worker w' = s.worker w') : s'.Calls where
  worker w' := by
    rw [hcall]
    by_cases hw : w' = w
    · subst hw
      rw [Function.update_self]
      exact hown
    · rw [Function.update_of_ne fun heq => hw (Sum.inl.inj heq), hother w' hw]
      exact hc.worker w'
  submitter x := by
    rw [hcall, hsubmitter, Function.update_of_ne Sum.inr_ne_inl]
    exact hc.submitter x

omit [DecidableEq ν] in
/-- The calls stay right after a critical section of a submitter. -/
theorem ThreadPool.Calls.push (hc : s.Calls) {x : σ} {c : CallState ν}
    (hcall : s'.taskQueue.call = Function.update s.taskQueue.call (.inr x) c)
    (hworker : s'.worker = s.worker)
    (hown : c = .out ∨ ∃ task, c = .push task ∧ s'.submitter x = .push task)
    (hother : ∀ x', x' ≠ x → s'.submitter x' = s.submitter x') : s'.Calls where
  worker w := by
    rw [hcall, hworker, Function.update_of_ne Sum.inl_ne_inr]
    exact hc.worker w
  submitter x' := by
    rw [hcall]
    by_cases hx : x' = x
    · subst hx
      rw [Function.update_self]
      exact hown
    · rw [Function.update_of_ne fun heq => hx (Sum.inr.inj heq), hother x' hx]
      exact hc.submitter x'

/-- A step keeps the calls right. -/
theorem PoolStep.calls (h : PoolStep s s') (hc : s.Calls) : s'.Calls := by
  cases h with
  | loopExit hpc | nullExit hpc | loopPop hpc | nullLoop hpc | process hpc | stats hpc
  | destroy hpc =>
    exact hc.setWorker _ (hc.out (by rw [hpc]; exact nofun)) rfl rfl rfl
  | popWaits hpc hopen hqueue hcall =>
    exact hc.pop hcall rfl (.inr ⟨rfl, hpc⟩) fun _ _ => rfl
  | popNull hpc hqueue hcall | popped hpc hfree hqueue hcall =>
    exact hc.pop hcall rfl (.inl rfl) fun w' hw => Function.update_of_ne hw ..
  | submitRejected => exact hc
  | @submit x task hpc =>
    refine ⟨hc.worker, fun x' => ?_⟩
    rcases hc.submitter x' with hout | ⟨task', hcall, hpush⟩
    · exact .inl hout
    · have hx : x' ≠ x := by
        rintro rfl
        rw [hpc] at hpush
        cases hpush
      exact .inr ⟨task', hcall, (Function.update_of_ne hx ..).trans hpush⟩
  | pushWaits hpc hqueue hcall =>
    exact hc.push hcall rfl (.inr ⟨_, rfl, hpc⟩) fun _ _ => rfl
  | pushed hpc hfree hqueue hcall =>
    exact hc.push hcall rfl (.inl rfl) fun x' hx => Function.update_of_ne hx ..
  | spurious hqueue hcall =>
    refine ⟨fun w => ?_, fun x => ?_⟩
    · rw [hcall]
      exact hc.worker w
    · rw [hcall]
      exact hc.submitter x
  | callShutdown | callDestroy | shutdownQueue | destroyQueue | joined | joinedAll | destroyTask
  | destroyedAll => exact ⟨hc.worker, hc.submitter⟩

end steps

end DeepInIo
