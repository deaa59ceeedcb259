import DeepInIo.Foundation.ThreadSum
import DeepInIo.TaskQueue.WakeUp

/-!
# The thread pool

`thread_pool.c` over the task queue: `m` workers, any number of threads that submit tasks, and the
thread that calls `thread_pool_shutdown` and `thread_pool_destroy`.  What a task does, and what the
caller does with a task whose submission failed, does not matter here.  Where the queue is called, a
step is one of its critical sections.
-/

namespace DeepInIo

/-- The program points of `worker_thread`. -/
inductive PoolWorkerPc (ν : Type*)
  /-- `while (!pool->shutdown)` -/
  | loopTest
  /-- in `task_queue_pop` -/
  | pop
  /-- `if (pool->shutdown) break; continue;` after NULL -/
  | nullTest
  /-- the `switch` over the type of the task -/
  | process (task : ν)
  /-- `pool->tasks_completed++` -/
  | stats (task : ν)
  /-- `task_destroy` -/
  | destroy (task : ν)
  | exited
  deriving DecidableEq

/-- The program points of `thread_pool_submit`. -/
inductive SubmitterPc (ν : Type*)
  | idle
  /-- in `task_queue_push` -/
  | push (task : ν)
  deriving DecidableEq

/-- The task that is being pushed. -/
def SubmitterPc.task? {ν : Type*} : SubmitterPc ν → Option ν
  | .idle => none
  | .push task => some task

/-- The program points of the thread that ends the pool. -/
inductive PoolMainPc (ν : Type*)
  | running
  /-- `task_queue_shutdown` of `thread_pool_shutdown` -/
  | shutdownQueue
  /-- `task_queue_shutdown` of `thread_pool_destroy` -/
  | destroyQueue
  /-- `pthread_join(pool->threads[i], NULL)` -/
  | join (i : ℕ)
  /-- the loop of `task_queue_destroy` -/
  | destroyTasks (current : Option ν)
  /-- everything has been freed -/
  | done
  deriving DecidableEq

/-- `thread_pool_t` with its threads; the workers and the submitters are the threads at the
queue. -/
structure ThreadPool (m : ℕ) (σ ν : Type*) where
  taskQueue : Monitor (Fin m ⊕ σ) ν
  shutdown : Bool
  tasksCompleted : ℕ
  worker : Fin m → PoolWorkerPc ν
  submitter : σ → SubmitterPc ν
  main : PoolMainPc ν
  /-- Specification: the tasks popped so far and by whom. -/
  popped : List (Fin m × ν)
  /-- Specification: the tasks that workers have passed to `task_destroy`. -/
  destroyed : List (Fin m × ν)
  /-- Specification: the tasks that `task_queue_destroy` has passed to `task_destroy`. -/
  queueDestroyed : List ν

/-- One step of the pool. -/
inductive PoolAction (m : ℕ) (σ ν : Type*)
  | worker (w : Fin m) (woken : Finset (Fin m ⊕ σ))
  /-- `thread_pool_submit` is called -/
  | submit (x : σ) (task : ν)
  /-- a submitter runs its critical section -/
  | push (x : σ) (woken : Finset (Fin m ⊕ σ))
  | spurious (th : Fin m ⊕ σ)
  /-- `thread_pool_shutdown` is called -/
  | shutdown
  /-- `thread_pool_destroy` is called -/
  | destroy
  /-- the thread that ends the pool proceeds -/
  | main

namespace ThreadPool

variable {m : ℕ} {σ ν : Type*}

/-- The tasks of a list that belong to a worker. -/
def tasksOf (l : List (Fin m × ν)) (w : Fin m) : List ν :=
  (l.filter fun p => p.1 = w).map Prod.snd

/-- `thread_pool_create` -/
@[simps]
def threadPoolCreate (next : ν → Option ν) (queueSize : ℤ) : ThreadPool m σ ν where
  taskQueue := .create next queueSize
  shutdown := false
  tasksCompleted := 0
  worker := fun _ => .loopTest
  submitter := fun _ => .idle
  main := .running
  popped := []
  destroyed := []
  queueDestroyed := []

/-- `task_queue_destroy` has the mutex, or the queue is gone. -/
def queueTaken (s : ThreadPool m σ ν) : Bool :=
  match s.main with
  | .destroyTasks _ => true
  | .done => true
  | _ => false

variable [DecidableEq σ] [DecidableEq ν] (s : ThreadPool m σ ν)

/-- A worker proceeds. -/
@[simps]
def setWorker (w : Fin m) (pc : PoolWorkerPc ν) : ThreadPool m σ ν :=
  { s with worker := Function.update s.worker w pc }

/-- The critical section of `task_queue_pop` that a worker is about to run. -/
def popAction (w : Fin m) (woken : Finset (Fin m ⊕ σ)) : QueueAction (Fin m ⊕ σ) ν :=
  match s.taskQueue.call (.inl w) with
  | .out => .pop (.inl w) woken
  | _ => .popAgain (.inl w) woken

/-- The critical section of `task_queue_push` that a submitter is about to run. -/
def pushAction (x : σ) (task : ν) (woken : Finset (Fin m ⊕ σ)) : QueueAction (Fin m ⊕ σ) ν :=
  match s.taskQueue.call (.inr x) with
  | .out => .push (.inr x) task woken
  | _ => .pushAgain (.inr x) woken

/-- A worker after its critical section. -/
def afterPop (w : Fin m) (q : Monitor (Fin m ⊕ σ) ν) : ThreadPool m σ ν :=
  match q.last with
  | some (.popped (some task)) =>
    { s with
      taskQueue := q
      worker := Function.update s.worker w (.process task)
      popped := s.popped ++ [(w, task)] }
  | some (.popped none) =>
    { s with
      taskQueue := q
      worker := Function.update s.worker w .nullTest }
  | _ => { s with taskQueue := q }

/-- A submitter after its critical section. -/
def afterPush (x : σ) (q : Monitor (Fin m ⊕ σ) ν) : ThreadPool m σ ν :=
  match q.last with
  | some (.pushed _) =>
    { s with
      taskQueue := q
      submitter := Function.update s.submitter x .idle }
  | _ => { s with taskQueue := q }

/-- One step of `worker_thread`. -/
def workerStep (w : Fin m) (woken : Finset (Fin m ⊕ σ)) : Option (ThreadPool m σ ν) :=
  match s.worker w with
  | .loopTest => some (s.setWorker w (if s.shutdown then .exited else .pop))
  | .pop =>
    if s.queueTaken then none
    else (s.taskQueue.step (s.popAction w woken)).map fun q => s.afterPop w q
  | .nullTest => some (s.setWorker w (if s.shutdown then .exited else .loopTest))
  | .process task => some (s.setWorker w (.stats task))
  | .stats task =>
    some { s with
      tasksCompleted := s.tasksCompleted + 1
      worker := Function.update s.worker w (.destroy task) }
  | .destroy task =>
    some { s with
      worker := Function.update s.worker w .loopTest
      destroyed := s.destroyed ++ [(w, task)] }
  | .exited => none

/-- `thread_pool_submit` up to `task_queue_push`; after the shutdown it returns -1. -/
def submitStep (x : σ) (task : ν) : Option (ThreadPool m σ ν) :=
  match s.submitter x with
  | .idle =>
    if s.shutdown then some s
    else some { s with submitter := Function.update s.submitter x (.push task) }
  | .push _ => none

/-- The critical section of a submitter. -/
def pushStep (x : σ) (woken : Finset (Fin m ⊕ σ)) : Option (ThreadPool m σ ν) :=
  match s.submitter x with
  | .idle => none
  | .push task =>
    if s.queueTaken then none
    else (s.taskQueue.step (s.pushAction x task woken)).map fun q => s.afterPush x q

/-- The thread that ends the pool proceeds. -/
def mainStep : Option (ThreadPool m σ ν) :=
  match s.main with
  | .running => none
  | .shutdownQueue => some { s with taskQueue := s.taskQueue.taskQueueShutdown, main := .running }
  | .destroyQueue => some { s with taskQueue := s.taskQueue.taskQueueShutdown, main := .join 0 }
  | .join i =>
    if h : i < m then
      match s.worker ⟨i, h⟩ with
      | .exited => some { s with main := .join (i + 1) }
      | _ => none
    else some { s with main := .destroyTasks s.taskQueue.queue.head }
  | .destroyTasks none => some { s with main := .done }
  | .destroyTasks (some current) =>
    some { s with
      main := .destroyTasks (s.taskQueue.queue.next current)
      queueDestroyed := s.queueDestroyed ++ [current] }
  | .done => none

/-- One step of the pool. -/
def step : PoolAction m σ ν → Option (ThreadPool m σ ν)
  | .worker w woken => s.workerStep w woken
  | .submit x task => s.submitStep x task
  | .push x woken => s.pushStep x woken
  | .spurious th =>
    (s.taskQueue.step (.spurious th)).map fun q => { s with taskQueue := q }
  | .shutdown =>
    match s.main with
    | .running => some { s with shutdown := true, main := .shutdownQueue }
    | _ => none
  | .destroy =>
    match s.main with
    | .running => some { s with shutdown := true, main := .destroyQueue }
    | _ => none
  | .main => s.mainStep

/-- A task that is pushed is not in the queue already. -/
def Fresh : PoolAction m σ ν → Prop
  | .push x woken => ∀ task ∈ (s.submitter x).task?, s.taskQueue.Fresh (s.pushAction x task woken)
  | _ => True

instance (s : ThreadPool m σ ν) : (a : PoolAction m σ ν) → Decidable (s.Fresh a)
  | .push x woken => inferInstanceAs
      (Decidable (∀ task ∈ (s.submitter x).task?, s.taskQueue.Fresh (s.pushAction x task woken)))
  | .worker .. => .isTrue trivial
  | .submit .. => .isTrue trivial
  | .spurious _ => .isTrue trivial
  | .shutdown => .isTrue trivial
  | .destroy => .isTrue trivial
  | .main => .isTrue trivial

end ThreadPool

/-- A pool with `m` workers, the submitters `σ`, and a queue of the given capacity. -/
def threadPool (m : ℕ) (σ ν : Type*) [DecidableEq σ] [DecidableEq ν] (queueSize : ℤ) :
    TransitionSystem (ThreadPool m σ ν) (PoolAction m σ ν) where
  init s := ∃ next, s = ThreadPool.threadPoolCreate next queueSize
  step := ThreadPool.step

end DeepInIo
